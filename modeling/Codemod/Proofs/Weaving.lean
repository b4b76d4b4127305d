import Codemod.Edit
import Mathlib.Data.List.Nodup
import Mathlib.Data.List.Perm.Basic
import Mathlib.Order.RelClasses

/-!
# Edits that follow one another

`Woven` says what a batch of edits in order means: the text between the ranges
stays, and each replacement stands where its range was.
`Woven.applyAll_eq_ok` is the link to the engine, which checks the batch, sorts
it and splices from the end: on edits with increasing starts it gives the woven
text, whatever the replacements do to the length.
-/

namespace Codemod

theorem cut?_append (before after : Text) :
    cut? (before ++ after) (byteSize before) = some (before, after) :=
  cut?_eq_some_iff.mpr ⟨rfl, rfl⟩

theorem isBoundary_byteSize (before after : Text) :
    isBoundary (before ++ after) (byteSize before) = true :=
  isBoundary_iff.mpr ⟨before, after, rfl, rfl⟩

theorem slice?_append (before middle after : Text) :
    slice? (before ++ middle ++ after) (byteSize before) (byteSize before + byteSize middle) =
      some middle := by
  unfold slice? guard
  simp [cut?_append, List.append_assoc]

theorem exists_append_of_byteSize_le {before text front back : Text}
    (same : before ++ text = front ++ back) (le : byteSize before ≤ byteSize front) :
    ∃ inner, front = before ++ inner ∧ text = inner ++ back := by
  rcases List.append_eq_append_iff.mp same with ⟨inner, split, rest⟩ | ⟨inner, rfl, rfl⟩
  · exact ⟨inner, split, rest⟩
  · simp only [byteSize_append] at le
    obtain rfl : inner = [] := byteSize_eq_zero.mp (by omega)
    exact ⟨[], by simp, by simp⟩

namespace Edit

variable {source : Text} {edits : List Edit}

/-- The range starts and stops on characters of the text. -/
def OnCharacters (source : Text) (edit : Edit) : Prop :=
  isBoundary source edit.start = true ∧ isBoundary source edit.stop = true

/-- No two of the edits overlap. -/
def Apart (edits : List Edit) : Prop := edits.Pairwise fun a b => a.overlaps b = false

theorem fault?_eq_none_iff {edit : Edit} (index : Nat) :
    edit.fault? source index = none ↔ OnCharacters source edit := by
  unfold fault? OnCharacters
  split
  next outside =>
    simp only [reduceCtorEq, false_iff, not_and]
    intro _ stop
    obtain ⟨before, after, rfl, size⟩ := isBoundary_iff.mp stop
    simp only [byteSize_append] at outside
    omega
  next =>
    split
    next on => simpa using on
    next off => simpa using off

theorem firstFault?_eq_none_iff (index : Nat) :
    firstFault? source index edits = none ↔ ∀ edit ∈ edits, OnCharacters source edit := by
  induction edits generalizing index with
  | nil => simp [firstFault?]
  | cons edit rest ih => simp [firstFault?, fault?_eq_none_iff, ih]

theorem firstOverlapWith?_eq_none_iff {edit : Edit} (index : Nat) :
    edit.firstOverlapWith? index edits = none ↔
      ∀ other ∈ edits, edit.overlaps other = false := by
  induction edits generalizing index with
  | nil => simp [firstOverlapWith?]
  | cons other rest ih =>
    unfold firstOverlapWith?
    split
    next meets => simp [meets]
    next apart => simp [apart, ih]

theorem firstOverlap?_eq_none_iff (index : Nat) :
    firstOverlap? index edits = none ↔ Apart edits := by
  induction edits generalizing index with
  | nil => simp [firstOverlap?, Apart]
  | cons edit rest ih =>
    rw [Apart, List.pairwise_cons, ← Apart, ← firstOverlapWith?_eq_none_iff (index + 1),
      ← ih (index + 1)]
    cases meets : edit.firstOverlapWith? (index + 1) rest <;> simp [firstOverlap?, meets]

theorem validate_eq_ok_iff :
    validate source edits = .ok () ↔
      (∀ edit ∈ edits, OnCharacters source edit) ∧ Apart edits := by
  rw [← firstFault?_eq_none_iff 0, ← firstOverlap?_eq_none_iff 0]
  unfold validate
  split
  next fault found => simp [found]
  next none =>
    split
    next meets => simp [meets]
    next apart => simp [none, apart, pure, Except.pure]

theorem pairwise_mergeSort_start (le : Nat → Nat → Prop) [DecidableRel le] [IsTrans Nat le]
    [Std.Total le] (edits : List Edit) :
    (edits.mergeSort fun a b => le a.start b.start).Pairwise fun a b => le a.start b.start := by
  refine (List.pairwise_mergeSort (fun a b c ab bc => ?_) (fun a b => ?_) edits).imp
    of_decide_eq_true
  · simp only [decide_eq_true_eq] at ab bc ⊢
    exact IsTrans.trans _ _ _ ab bc
  · simpa using total_of le a.start b.start

theorem pairwise_fromTheEnd (edits : List Edit) :
    (fromTheEnd edits).Pairwise fun a b => b.start ≤ a.start :=
  pairwise_mergeSort_start (· ≥ ·) edits

theorem fromTheEnd_eq_reverse (ascending : edits.Pairwise fun a b => a.start < b.start) :
    fromTheEnd edits = edits.reverse := by
  have reversed : edits.reverse.Pairwise fun a b => b.start ≤ a.start :=
    List.pairwise_reverse.mpr (ascending.imp Nat.le_of_lt)
  have perm : (fromTheEnd edits).Perm edits.reverse :=
    (List.mergeSort_perm _ _).trans (List.reverse_perm edits).symm
  have starts : (edits.map (·.start)).Nodup := List.pairwise_map.mpr (ascending.imp Nat.ne_of_lt)
  refine perm.eq_of_pairwise (fun a b memA memB ge le => ?_) (pairwise_fromTheEnd edits) reversed
  have memA : a ∈ edits := (List.mergeSort_perm _ _).mem_iff.mp memA
  have memB : b ∈ edits := List.mem_reverse.mp memB
  exact List.inj_on_of_nodup_map starts memA memB (Nat.le_antisymm le ge)

theorem spliceAll_append (text : Text) (first second : List Edit) :
    spliceAll text (first ++ second) = spliceAll text first >>= (spliceAll · second) := by
  induction first generalizing text with
  | nil => rfl
  | cons edit rest ih =>
    simp only [List.cons_append, spliceAll]
    split
    · exact ih _
    · rfl

theorem spliceAll_singleton {text next : Text} {edit : Edit} (h : edit.splice? text = some next) :
    spliceAll text [edit] = .ok next := by
  simp [spliceAll, h, pure, Except.pure]

theorem splice?_append {edit : Edit} {before middle after : Text}
    (start : edit.start = byteSize before) (stop : edit.stop = edit.start + byteSize middle) :
    edit.splice? (before ++ middle ++ after) = some (before ++ edit.replacement ++ after) := by
  unfold splice? guard
  simp [stop, start, cut?_append, List.append_assoc]

/-- `result` is `source` with the edits in place. The ranges follow one another from left to right
and count from `offset` at the head of `source`; they may touch, and may be empty. -/
inductive Woven : (offset : Nat) → (source : Text) → List Edit → (result : Text) → Prop
  | done {offset : Nat} {text : Text} : Woven offset text [] text
  | edit {offset : Nat} {before middle after result : Text} {edit : Edit} {rest : List Edit}
      (start : edit.start = offset + byteSize before)
      (stop : edit.stop = edit.start + byteSize middle)
      (tail : Woven edit.stop after rest result) :
      Woven offset (before ++ middle ++ after) (edit :: rest)
        (before ++ edit.replacement ++ result)

namespace Woven

variable {offset : Nat} {result : Text}

theorem append_left (before : Text) (h : Woven (offset + byteSize before) source edits result) :
    Woven offset (before ++ source) edits (before ++ result) := by
  cases h with
  | done => exact .done
  | @edit _ inner middle after result edit rest start stop tail =>
    have start : edit.start = offset + byteSize (before ++ inner) := by
      rw [start, byteSize_append, Nat.add_assoc]
    simpa [List.append_assoc] using Woven.edit start stop tail

theorem place (h : Woven offset source edits result) {edit : Edit} (mem : edit ∈ edits) :
    ∃ before middle after, source = before ++ middle ++ after ∧
      edit.start = offset + byteSize before ∧ edit.stop = edit.start + byteSize middle := by
  induction h with
  | done => cases mem
  | @edit offset before middle after result head rest start stop tail ih =>
    rcases List.mem_cons.mp mem with rfl | mem
    · exact ⟨before, middle, after, rfl, start, stop⟩
    · obtain ⟨inner, own, outer, rfl, ownStart, ownStop⟩ := ih mem
      refine ⟨before ++ middle ++ inner, own, outer, by simp [List.append_assoc], ?_, ownStop⟩
      simp only [byteSize_append]
      omega

theorem offset_le_start (h : Woven offset source edits result) {edit : Edit} (mem : edit ∈ edits) :
    offset ≤ edit.start := by
  obtain ⟨before, _, _, _, start, _⟩ := h.place mem
  omega

theorem pairwise (h : Woven offset source edits result) :
    edits.Pairwise fun a b => a.stop ≤ b.start := by
  induction h with
  | done => exact .nil
  | edit start stop tail ih => exact .cons (fun _ mem => tail.offset_le_start mem) ih

/-- Splicing from the end gives the woven text, behind any text that ends at the offset. -/
theorem spliceAll_reverse (h : Woven offset source edits result) (before : Text)
    (size : byteSize before = offset) :
    spliceAll (before ++ source) edits.reverse = .ok (before ++ result) := by
  induction h generalizing before with
  | done => rfl
  | @edit offset inner middle after result edit rest start stop tail ih =>
    -- the later edits leave all that stands before them, so this edit still finds its range
    have later : spliceAll (before ++ (inner ++ middle ++ after)) rest.reverse =
        .ok (before ++ inner ++ middle ++ result) := by
      have size : byteSize (before ++ inner ++ middle) = edit.stop := by
        simp only [byteSize_append]
        omega
      simpa only [List.append_assoc] using ih (before ++ inner ++ middle) size
    have first : edit.start = byteSize (before ++ inner) := by
      simp only [byteSize_append]
      omega
    rw [List.reverse_cons, spliceAll_append, later]
    change spliceAll _ [edit] = _
    rw [spliceAll_singleton (splice?_append first stop)]
    simp only [List.append_assoc]

theorem validate_eq_ok (h : Woven 0 source edits result) : validate source edits = .ok () := by
  refine validate_eq_ok_iff.mpr ⟨fun edit mem => ?_, ?_⟩
  · obtain ⟨before, middle, after, rfl, start, stop⟩ := h.place mem
    constructor
    · rw [start, Nat.zero_add, List.append_assoc]
      exact isBoundary_byteSize before (middle ++ after)
    · rw [stop, start, Nat.zero_add, ← byteSize_append]
      exact isBoundary_byteSize (before ++ middle) after
  · refine h.pairwise.imp fun {a b} le => ?_
    simp [overlaps, Nat.not_lt.mpr le]

theorem applyAll_eq_ok (h : Woven 0 source edits result)
    (ascending : edits.Pairwise fun a b => a.start < b.start) :
    applyAll source edits = .ok result := by
  have spliced := h.spliceAll_reverse [] rfl
  simpa [applyAll, h.validate_eq_ok, fromTheEnd_eq_reverse ascending, bind, Except.bind]
    using spliced

end Woven

end Edit

end Codemod
