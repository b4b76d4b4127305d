import Codemod.Proofs.Weaving

/-!
# Edits in any order

A batch that is accepted may be written in any order, as it is sorted before it
is spliced in. The sort looks at the starts only. Edits with different starts
end up where they belong, so all edits are made at once (`substitution?`), and
the order of the batch does not matter.

Edits that share a start keep their order. Several insertions at one place are
therefore written behind each other, the last of them first. An insertion at
the start of a range that is replaced is another matter: if it comes first in
the batch, the range is taken out of the text that has just been put in.
`RangesFirst` batches are those in which this cannot happen.
-/

namespace Codemod

namespace Edit

variable {source : Text} {edits others : List Edit}

theorem Apart.perm (apart : Apart edits) (perm : edits.Perm others) : Apart others :=
  (perm.pairwise_iff fun {a b} apart => (overlaps_comm b a).trans apart).mp apart

theorem validate_eq_ok_of_perm (perm : edits.Perm others)
    (accepted : validate source edits = .ok ()) : validate source others = .ok () := by
  obtain ⟨onCharacters, apart⟩ := validate_eq_ok_iff.mp accepted
  exact validate_eq_ok_iff.mpr
    ⟨fun edit mem => onCharacters edit (perm.mem_iff.mpr mem), apart.perm perm⟩

-- ---------------------------------------------------------------------------
-- Edits that share a start
-- ---------------------------------------------------------------------------

def startingAt (start : Nat) (edits : List Edit) : List Edit := edits.filter (·.start = start)

theorem mem_startingAt {start : Nat} {edit : Edit} :
    edit ∈ startingAt start edits ↔ edit ∈ edits ∧ edit.start = start := by simp [startingAt]

theorem startingAt_mergeSort (le : Nat → Nat → Prop) [DecidableRel le] [IsTrans Nat le]
    [Std.Total le] (start : Nat) (edits : List Edit) :
    startingAt start (edits.mergeSort fun a b => le a.start b.start) = startingAt start edits := by
  have tied : (startingAt start edits).Pairwise fun a b => decide (le a.start b.start) = true := by
    refine List.pairwise_of_forall_mem_list fun a memA b memB => ?_
    rw [(mem_startingAt.mp memA).2, (mem_startingAt.mp memB).2]
    exact decide_eq_true (refl start)
  have kept : (startingAt start edits).Sublist
      (startingAt start (edits.mergeSort fun a b => le a.start b.start)) := by
    have sublist := List.sublist_mergeSort (fun a b c ab bc => ?_) (fun a b => ?_) tied
      List.filter_sublist
    · simpa [startingAt] using sublist.filter (·.start = start)
    · simp only [decide_eq_true_eq] at ab bc ⊢
      exact IsTrans.trans _ _ _ ab bc
    · simpa using total_of le a.start b.start
  have perm : (startingAt start (edits.mergeSort fun a b => le a.start b.start)).Perm
      (startingAt start edits) := (List.mergeSort_perm edits _).filter _
  exact (kept.eq_of_length perm.length_eq.symm).symm

theorem startingAt_fromTheEnd (start : Nat) (edits : List Edit) :
    startingAt start (fromTheEnd edits) = startingAt start edits :=
  startingAt_mergeSort (· ≥ ·) start edits

theorem start_le_of_mem_startingAt {first edit : Edit} {rest : List Edit}
    (sorted : (first :: rest).Pairwise fun a b => b.start ≤ a.start)
    (mem : edit ∈ startingAt edit.start (first :: rest)) : edit.start ≤ first.start := by
  rcases List.mem_cons.mp (mem_startingAt.mp mem).1 with rfl | later
  · exact Nat.le_refl _
  · exact (List.pairwise_cons.mp sorted).1 edit later

theorem eq_of_startingAt (sorted : edits.Pairwise fun a b => b.start ≤ a.start)
    (sorted' : others.Pairwise fun a b => b.start ≤ a.start)
    (same : ∀ start, startingAt start edits = startingAt start others) : edits = others := by
  have here (edit : Edit) (rest : List Edit) : edit ∈ startingAt edit.start (edit :: rest) :=
    mem_startingAt.mpr ⟨List.mem_cons_self, rfl⟩
  induction edits generalizing others with
  | nil =>
    cases others with
    | nil => rfl
    | cons other more => exact absurd (same other.start ▸ here other more) List.not_mem_nil
  | cons edit rest ih =>
    cases others with
    | nil => exact absurd (same edit.start ▸ here edit rest) List.not_mem_nil
    | cons other more =>
      have le := start_le_of_mem_startingAt sorted' (same edit.start ▸ here edit rest)
      have ge := start_le_of_mem_startingAt sorted (same other.start ▸ here other more)
      have tie : other.start = edit.start := Nat.le_antisymm ge le
      have heads := same edit.start
      simp only [startingAt, List.filter_cons, tie, decide_true, if_true] at heads
      obtain ⟨rfl, -⟩ := List.cons.inj heads
      refine congrArg (edit :: ·) (ih sorted.tail sorted'.tail fun start => ?_)
      have tails := same start
      simp only [startingAt, List.filter_cons] at tails ⊢
      split at tails
      · exact (List.cons.inj tails).2
      · exact tails

/-- Nothing but the order of edits with the same start tells two batches apart. -/
theorem fromTheEnd_congr (same : ∀ start, startingAt start edits = startingAt start others) :
    fromTheEnd edits = fromTheEnd others := by
  refine eq_of_startingAt (pairwise_fromTheEnd edits) (pairwise_fromTheEnd others) fun start => ?_
  rw [startingAt_fromTheEnd, startingAt_fromTheEnd, same]

theorem pairwise_fromTheEnd_of_tie {relation : Edit → Edit → Prop}
    (ties : edits.Pairwise fun a b => a.start = b.start → relation a b) :
    (fromTheEnd edits).Pairwise fun a b => a.start = b.start → relation a b := by
  refine List.pairwise_of_forall_sublist fun {a b} sublist tie => ?_
  have both : [a, b].Sublist (startingAt a.start (fromTheEnd edits)) := by
    simpa [startingAt, tie] using sublist.filter (·.start = a.start)
  rw [startingAt_fromTheEnd] at both
  exact List.pairwise_iff_forall_sublist.mp ties (both.trans List.filter_sublist) tie

-- ---------------------------------------------------------------------------
-- All edits at once
-- ---------------------------------------------------------------------------

/-- Takes nothing out of the text. -/
def isInsertion (edit : Edit) : Bool := edit.start = edit.stop

/-- No range is written backwards. -/
def Forward (edits : List Edit) : Prop := ∀ edit ∈ edits, edit.start ≤ edit.stop

instance (edits : List Edit) : Decidable (Forward edits) :=
  inferInstanceAs (Decidable (∀ edit ∈ edits, edit.start ≤ edit.stop))

/-- No insertion comes before a range that starts where it stands. -/
def RangesFirst (edits : List Edit) : Prop :=
  edits.Pairwise fun a b => a.start = b.start → a.isInsertion → b.isInsertion

instance (edits : List Edit) : Decidable (RangesFirst edits) :=
  inferInstanceAs (Decidable (edits.Pairwise _))

/-- Earliest start first; of edits with one start, the last one first. -/
def readingOrder (edits : List Edit) : List Edit :=
  edits.reverse.mergeSort fun a b => a.start ≤ b.start

/-- The pieces of the source between the ranges, from an offset on, with each replacement in place
of its range. There is none if ranges overlap or split a character. -/
def substitution? (source : Text) : (offset : Nat) → List Edit → Option Text
  | offset, [] => slice? source offset (byteSize source)
  | offset, edit :: rest => do
    let kept ← slice? source offset edit.start
    let later ← substitution? source edit.stop rest
    return kept ++ edit.replacement ++ later

theorem fromTheEnd_eq_reverse_readingOrder (edits : List Edit) :
    fromTheEnd edits = (readingOrder edits).reverse := by
  have sorted : (readingOrder edits).reverse.Pairwise fun a b => b.start ≤ a.start :=
    List.pairwise_reverse.mpr (pairwise_mergeSort_start (· ≤ ·) edits.reverse)
  refine eq_of_startingAt (pairwise_fromTheEnd edits) sorted fun start => ?_
  have read : startingAt start (readingOrder edits) = startingAt start edits.reverse :=
    startingAt_mergeSort (· ≤ ·) start edits.reverse
  rw [startingAt_fromTheEnd]
  simp only [startingAt, List.filter_reverse] at read ⊢
  rw [read, List.reverse_reverse]

theorem pairwise_readingOrder (forward : Forward edits) (apart : Apart edits)
    (rangesFirst : RangesFirst edits) :
    (readingOrder edits).Pairwise fun a b => a.stop ≤ b.start := by
  have perm : (fromTheEnd edits).Perm edits := List.mergeSort_perm _ _
  have ordered := ((pairwise_fromTheEnd edits).and
    (pairwise_fromTheEnd_of_tie rangesFirst)).and (apart.perm perm.symm)
  rw [← List.reverse_reverse (readingOrder edits), ← fromTheEnd_eq_reverse_readingOrder,
    List.pairwise_reverse]
  refine ordered.imp_of_mem fun {a b} memA memB ⟨⟨le, tie⟩, apart⟩ => ?_
  have forwardA := forward a (perm.mem_iff.mp memA)
  have forwardB := forward b (perm.mem_iff.mp memB)
  simp only [overlaps, Bool.and_eq_false_iff, decide_eq_false_iff_not, Nat.not_lt] at apart
  simp only [isInsertion, decide_eq_true_eq] at tie
  by_cases shared : a.start = b.start
  · have := tie shared
    omega
  · omega

theorem exists_woven {before text : Text} {offset : Nat} (size : byteSize before = offset)
    (onCharacters : ∀ edit ∈ edits, OnCharacters (before ++ text) edit) (forward : Forward edits)
    (follows : edits.Pairwise fun a b => a.stop ≤ b.start)
    (lower : ∀ edit ∈ edits, offset ≤ edit.start) :
    ∃ result, Woven offset text edits result := by
  induction edits generalizing before text offset with
  | nil => exact ⟨text, .done⟩
  | cons edit rest ih =>
    simp only [Forward, List.forall_mem_cons] at onCharacters forward lower
    obtain ⟨next, follows⟩ := List.pairwise_cons.mp follows
    obtain ⟨front, back, split, start⟩ := isBoundary_iff.mp onCharacters.1.1
    obtain ⟨front', after, split', stop⟩ := isBoundary_iff.mp onCharacters.1.2
    obtain ⟨inner, rfl, rfl⟩ := exists_append_of_byteSize_le split (by omega)
    obtain ⟨middle, rfl, rfl⟩ := exists_append_of_byteSize_le (split.symm.trans split') (by omega)
    rw [split'] at onCharacters
    obtain ⟨result, woven⟩ := ih stop onCharacters.2 forward.2 follows next
    refine ⟨inner ++ edit.replacement ++ result, ?_⟩
    rw [← List.append_assoc]
    simp only [byteSize_append] at start stop
    exact .edit (by omega) (by omega) woven

theorem Woven.substitution?_eq {offset : Nat} {text result : Text}
    (h : Woven offset text edits result) (before : Text) (size : byteSize before = offset) :
    substitution? (before ++ text) offset edits = some result := by
  induction h generalizing before with
  | @done offset text =>
    have rest := slice?_append before text []
    simpa [substitution?, size] using rest
  | @edit offset inner middle after result edit rest start stop tail ih =>
    have kept : slice? (before ++ (inner ++ middle ++ after)) offset edit.start = some inner := by
      have slice := slice?_append before inner (middle ++ after)
      rw [size, ← start] at slice
      simpa using slice
    have later := ih (before ++ inner ++ middle) (by simp only [byteSize_append]; omega)
    have same : before ++ (inner ++ middle ++ after) = before ++ inner ++ middle ++ after := by simp
    rw [substitution?, kept, same, later]
    rfl

theorem woven_of_rangesFirst (forward : Forward edits) (accepted : validate source edits = .ok ())
    (rangesFirst : RangesFirst edits) :
    ∃ result, Woven 0 source (readingOrder edits) result ∧ applyAll source edits = .ok result := by
  obtain ⟨onCharacters, apart⟩ := validate_eq_ok_iff.mp accepted
  have perm : (readingOrder edits).Perm edits :=
    (List.mergeSort_perm _ _).trans (List.reverse_perm _)
  obtain ⟨result, woven⟩ := exists_woven byteSize_nil
    (fun edit mem => onCharacters edit (perm.mem_iff.mp mem))
    (fun edit mem => forward edit (perm.mem_iff.mp mem))
    (pairwise_readingOrder forward apart rangesFirst) (fun _ _ => Nat.zero_le _)
  refine ⟨result, woven, ?_⟩
  have spliced := woven.spliceAll_reverse [] byteSize_nil
  rw [← fromTheEnd_eq_reverse_readingOrder] at spliced
  simpa [applyAll, accepted, bind, Except.bind] using spliced

/-- The insertions at a place, in their order. -/
def insertionsAt (position : Nat) (edits : List Edit) : List Edit :=
  (startingAt position edits).filter isInsertion

theorem RangesFirst.startingAt_eq (rangesFirst : RangesFirst edits) (start : Nat) :
    startingAt start edits =
      (startingAt start edits).filter (!·.isInsertion) ++ insertionsAt start edits := by
  have ordered : (startingAt start edits).Pairwise fun a b => a.isInsertion → b.isInsertion := by
    refine List.pairwise_filter.mpr (rangesFirst.imp fun {a b} ordered startA startB => ?_)
    simp only [decide_eq_true_eq] at startA startB
    exact ordered (startA.trans startB.symm)
  unfold insertionsAt
  generalize startingAt start edits = here at ordered
  induction here with
  | nil => rfl
  | cons edit rest ih =>
    obtain ⟨first, ordered⟩ := List.pairwise_cons.mp ordered
    cases insertion : edit.isInsertion with
    | false => simpa [insertion] using ih ordered
    | true =>
      have all : ∀ other ∈ rest, other.isInsertion = true :=
        fun other mem => first other mem insertion
      have none : rest.filter (!·.isInsertion) = [] := by simpa using all
      simpa [insertion, none] using (List.filter_eq_self.mpr all).symm

theorem pairwise_ranges (forward : Forward edits) (apart : Apart edits) (start : Nat) :
    ((startingAt start edits).filter (!·.isInsertion)).Pairwise fun _ _ => False := by
  refine List.pairwise_filter.mpr (List.pairwise_filter.mpr (apart.imp_of_mem ?_))
  intro a b memA memB apart startA startB rangeA rangeB
  have forwardA := forward a memA
  have forwardB := forward b memB
  simp only [decide_eq_true_eq] at startA startB
  simp only [isInsertion, Bool.not_eq_true', decide_eq_false_iff_not] at rangeA rangeB
  simp only [overlaps, Bool.and_eq_false_iff, decide_eq_false_iff_not, Nat.not_lt] at apart
  omega

theorem startingAt_eq_of_rangesFirst (forward : Forward edits) (apart : Apart edits)
    (perm : edits.Perm others)
    (kept : ∀ position, insertionsAt position edits = insertionsAt position others)
    (rangesFirst : RangesFirst edits) (rangesFirst' : RangesFirst others) (start : Nat) :
    startingAt start edits = startingAt start others := by
  have forward' : Forward others := fun edit mem => forward edit (perm.mem_iff.mpr mem)
  have ranges : (startingAt start edits).filter (!·.isInsertion) =
      (startingAt start others).filter (!·.isInsertion) :=
    List.Perm.eq_of_pairwise (fun _ _ _ _ never => never.elim) (pairwise_ranges forward apart start)
      (pairwise_ranges forward' (apart.perm perm) start) ((perm.filter _).filter _)
  rw [rangesFirst.startingAt_eq, rangesFirst'.startingAt_eq, ranges, kept]

end Edit

namespace EditBatch

open Edit

/-- A batch that is accepted and has its ranges first makes all its edits at once. -/
theorem apply_eq_substitution (batch : EditBatch) (forward : Forward batch.edits)
    (accepted : batch.validate = .ok ()) (rangesFirst : RangesFirst batch.edits) :
    ∃ result, substitution? batch.source 0 (readingOrder batch.edits) = some result ∧
      batch.apply = .ok result := by
  obtain ⟨result, woven, applied⟩ := woven_of_rangesFirst forward accepted rangesFirst
  exact ⟨result, woven.substitution?_eq [] byteSize_nil, applied⟩

def crowded : EditBatch where
  source := "aébc".toList
  edits := [⟨3, 4, "B".toList, none⟩, ⟨3, 3, "x".toList, none⟩, ⟨0, 1, [], none⟩,
    ⟨3, 3, "y".toList, none⟩, ⟨4, 4, "z".toList, none⟩]

theorem apply_eq_substitution_crowded :
    RangesFirst crowded.edits ∧ crowded.apply = .ok "éyxBzc".toList := by
  have rangesFirst : RangesFirst crowded.edits := by decide
  have order : readingOrder crowded.edits =
      [⟨0, 1, [], none⟩, ⟨3, 3, "y".toList, none⟩, ⟨3, 3, "x".toList, none⟩,
        ⟨3, 4, "B".toList, none⟩, ⟨4, 4, "z".toList, none⟩] := by
    simp [readingOrder, crowded, List.mergeSort, List.MergeSort.Internal.splitInTwo]
  have read : substitution? crowded.source 0 (readingOrder crowded.edits) =
      some "éyxBzc".toList := by
    rw [order]
    decide +kernel
  obtain ⟨result, made, applied⟩ :=
    apply_eq_substitution crowded (by decide) (by decide) rangesFirst
  rw [applied, Option.some.inj (made.symm.trans read)]
  exact ⟨rangesFirst, rfl⟩

/-- Only the order of edits that share a start can matter. It does not as long as insertions keep
theirs and ranges come first; the batch is then applied in either order. -/
theorem apply_eq_of_perm (batch : EditBatch) {others : List Edit} (forward : Forward batch.edits)
    (accepted : batch.validate = .ok ()) (perm : batch.edits.Perm others)
    (kept : ∀ position, insertionsAt position batch.edits = insertionsAt position others) :
    { batch with edits := others }.validate = .ok () ∧
    ((∀ start, startingAt start batch.edits = startingAt start others) →
      { batch with edits := others }.apply = batch.apply) ∧
    (RangesFirst batch.edits → RangesFirst others →
      ∃ text, batch.apply = .ok text ∧ { batch with edits := others }.apply = .ok text) := by
  have accepted' : Edit.validate batch.source others = .ok () :=
    validate_eq_ok_of_perm perm accepted
  have congr : (∀ start, startingAt start batch.edits = startingAt start others) →
      { batch with edits := others }.apply = batch.apply := by
    intro same
    unfold apply applyAll
    rw [fromTheEnd_congr same, accepted', ← accepted]
    rfl
  refine ⟨accepted', congr, fun rangesFirst rangesFirst' => ?_⟩
  have apart := (validate_eq_ok_iff.mp accepted).2
  have same := congr (startingAt_eq_of_rangesFirst forward apart perm kept rangesFirst rangesFirst')
  obtain ⟨result, -, applied⟩ := woven_of_rangesFirst forward accepted rangesFirst
  exact ⟨result, applied, same.trans applied⟩

theorem apply_eq_of_perm_crowded :
    ∃ text, crowded.apply = .ok text ∧ EditBatch.apply { crowded with edits :=
      [⟨4, 4, "z".toList, none⟩, ⟨0, 1, [], none⟩, ⟨3, 4, "B".toList, none⟩,
        ⟨3, 3, "x".toList, none⟩, ⟨3, 3, "y".toList, none⟩] } = .ok text := by
  refine (apply_eq_of_perm crowded (by decide) (by decide) (by decide) fun position => ?_).2.2
    (by decide) (by decide)
  match position with
  | 0 | 1 | 2 | 3 | 4 => rfl
  | _ + 5 => rfl

def contested (inserted : String) : EditBatch where
  source := "ab".toList
  edits := [⟨0, 0, inserted.toList, none⟩, ⟨0, 1, "Y".toList, none⟩]

/-- The range takes the inserted text out again, or has no place in it. Written the other way
round, both edits are made. -/
theorem apply_depends_on_order :
    (∀ inserted, Forward (contested inserted).edits ∧ (contested inserted).validate = .ok () ∧
      ∀ position, insertionsAt position (contested inserted).edits =
        insertionsAt position (contested inserted).edits.reverse) ∧
    (contested "X").apply = .ok "Yab".toList ∧
    EditBatch.apply { contested "X" with edits := (contested "X").edits.reverse } =
      .ok "XYb".toList ∧
    (contested "é").apply = .error (.misplaced ⟨0, 1, "Y".toList, none⟩) ∧
    EditBatch.apply { contested "é" with edits := (contested "é").edits.reverse } =
      .ok "éYb".toList := by
  have order (inserted : String) :
      fromTheEnd (contested inserted).edits = (contested inserted).edits ∧
      fromTheEnd (contested inserted).edits.reverse = (contested inserted).edits.reverse :=
    ⟨List.mergeSort_of_pairwise (by simp [contested]),
      List.mergeSort_of_pairwise (by simp [contested])⟩
  refine ⟨fun inserted => ⟨by simp [Forward, contested], rfl, fun position => ?_⟩, ?_⟩
  · cases position <;> rfl
  · simp only [apply, applyAll, order]
    decide +kernel

end EditBatch

end Codemod
