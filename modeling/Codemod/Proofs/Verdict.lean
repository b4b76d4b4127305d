import Codemod.Proofs.EditOrder
import Mathlib.Data.List.Pairwise

/-!
# The verdict on a batch

Checking a batch gives the first fault of a single edit, or else the least pair
of edits that overlap. `Verdict` says which answer is the right one, not how it
is found. The kind of the answer does not depend on the order of the batch, and
a batch that is accepted takes no byte out twice.
-/

namespace Codemod

-- ---------------------------------------------------------------------------
-- Offsets that are no boundaries
-- ---------------------------------------------------------------------------

/-- The offset lies between the first and the last byte of a character. -/
def InsideCharacter (text : Text) (offset : Nat) : Prop :=
  ∃ before c after, text = before ++ c :: after ∧
    byteSize before < offset ∧ offset < byteSize before + c.utf8Size

theorem not_insideCharacter_nil (offset : Nat) : ¬ InsideCharacter [] offset := by
  rintro ⟨before, c, after, split, -⟩
  simp at split

theorem insideCharacter_cons {c : Char} {rest : Text} {offset : Nat} :
    InsideCharacter (c :: rest) offset ↔
      (0 < offset ∧ offset < c.utf8Size) ∨
        (c.utf8Size ≤ offset ∧ InsideCharacter rest (offset - c.utf8Size)) := by
  constructor
  · rintro ⟨before, d, after, split, lower, upper⟩
    cases before with
    | nil =>
      obtain ⟨rfl, rfl⟩ := List.cons.inj split
      exact .inl (by simpa using And.intro lower upper)
    | cons e before =>
      obtain ⟨rfl, rfl⟩ := List.cons.inj split
      simp only [byteSize_cons] at lower upper
      exact .inr ⟨by omega, before, d, after, rfl, by omega, by omega⟩
  · rintro (⟨lower, upper⟩ | ⟨behind, before, d, after, rfl, lower, upper⟩)
    · exact ⟨[], c, rest, rfl, by simpa using lower, by simpa using upper⟩
    · exact ⟨c :: before, d, after, rfl, by simp only [byteSize_cons]; omega,
        by simp only [byteSize_cons]; omega⟩

theorem isBoundary_zero (text : Text) : isBoundary text 0 = true := by
  cases text <;> rfl

theorem isBoundary_cons {c : Char} {rest : Text} {offset : Nat} (positive : 0 < offset) :
    isBoundary (c :: rest) offset =
      (decide (c.utf8Size ≤ offset) && isBoundary rest (offset - c.utf8Size)) := by
  obtain ⟨n, rfl⟩ := Nat.exists_eq_succ_of_ne_zero (Nat.ne_of_gt positive)
  by_cases fits : c.utf8Size ≤ n + 1 <;> simp [isBoundary, cut?, fits]

theorem isBoundary_eq_false_iff {text : Text} {offset : Nat} :
    isBoundary text offset = false ↔ byteSize text < offset ∨ InsideCharacter text offset := by
  induction text generalizing offset with
  | nil =>
    cases offset with
    | zero => simp [isBoundary_zero, not_insideCharacter_nil]
    | succ n => simp [isBoundary, cut?]
  | cons c rest ih =>
    have size := c.utf8Size_pos
    rw [insideCharacter_cons, byteSize_cons]
    by_cases positive : 0 < offset
    · rw [isBoundary_cons positive, Bool.and_eq_false_iff, ih, decide_eq_false_iff_not]
      by_cases fits : c.utf8Size ≤ offset
      · have beyond : byteSize rest < offset - c.utf8Size ↔
            c.utf8Size + byteSize rest < offset := by omega
        simp [fits, beyond, Nat.not_lt.mpr fits]
      · simp [fits, positive, Nat.lt_of_not_le fits]
    · obtain rfl : offset = 0 := by omega
      simp [isBoundary_zero, Nat.not_le.mpr size]

namespace Edit

variable {source : Text} {edits others : List Edit} {edit : Edit}

-- ---------------------------------------------------------------------------
-- Faults of single edits
-- ---------------------------------------------------------------------------

/-- An end of the range falls inside a character, or its start beyond the text. -/
def OffCharacters (source : Text) (edit : Edit) : Prop :=
  byteSize source < edit.start ∨ InsideCharacter source edit.start ∨
    InsideCharacter source edit.stop

def Faulty (source : Text) (edit : Edit) : Prop :=
  byteSize source < edit.stop ∨ OffCharacters source edit

theorem not_faulty_iff : ¬ Faulty source edit ↔ OnCharacters source edit := by
  rw [OnCharacters, ← Bool.not_eq_false, ← Bool.not_eq_false, isBoundary_eq_false_iff,
    isBoundary_eq_false_iff, Faulty, OffCharacters]
  tauto

theorem fault?_eq_some_iff {index : Nat} {fault : EditError} :
    edit.fault? source index = some fault ↔
      (byteSize source < edit.stop ∧
        fault = .outOfBounds index edit.stop (byteSize source)) ∨
      (edit.stop ≤ byteSize source ∧ OffCharacters source edit ∧
        fault = .splitsCharacter index) := by
  by_cases outside : byteSize source < edit.stop
  · simp [fault?, outside, Nat.not_le.mpr outside, eq_comm]
  · have on : (isBoundary source edit.start && isBoundary source edit.stop) = true ↔
        ¬ OffCharacters source edit := by
      rw [Bool.and_eq_true, ← OnCharacters, ← not_faulty_iff, Faulty, or_iff_right outside]
    by_cases off : OffCharacters source edit
    · simp [fault?, outside, Nat.not_lt.mp outside, on, off, eq_comm]
    · simp [fault?, outside, on, off]

theorem faulty_of_fault? {index : Nat} {fault : EditError}
    (found : edit.fault? source index = some fault) : Faulty source edit := by
  rcases fault?_eq_some_iff.mp found with ⟨outside, -⟩ | ⟨-, off, -⟩
  · exact .inl outside
  · exact .inr off

theorem firstFault?_eq_some_iff {start : Nat} {fault : EditError} :
    firstFault? source start edits = some fault ↔
      ∃ index edit, edits[index]? = some edit ∧
        (∀ earlier ∈ edits.take index, ¬ Faulty source earlier) ∧
        edit.fault? source (start + index) = some fault := by
  induction edits generalizing start with
  | nil => simp [firstFault?]
  | cons head rest ih =>
    rw [firstFault?]
    cases own : head.fault? source start with
    | some found =>
      constructor
      · rintro ⟨⟩
        exact ⟨0, head, rfl, by simp, own⟩
      · rintro ⟨index, edit, here, first, fault⟩
        cases index with
        | zero =>
          cases here
          exact own.symm.trans fault
        | succ index => exact absurd (faulty_of_fault? own) (first head (by simp))
    | none =>
      have faultless : ¬ Faulty source head :=
        not_faulty_iff.mpr ((fault?_eq_none_iff start).mp own)
      change firstFault? source (start + 1) rest = some fault ↔ _
      rw [ih]
      constructor
      · rintro ⟨index, edit, here, first, fault⟩
        refine ⟨index + 1, edit, here, ?_, by rwa [← Nat.add_assoc, Nat.add_right_comm]⟩
        simpa [faultless] using first
      · rintro ⟨index, edit, here, first, fault⟩
        cases index with
        | zero =>
          cases here
          cases own.symm.trans fault
        | succ index =>
          refine ⟨index, edit, here, ?_, by rwa [Nat.add_right_comm, Nat.add_assoc]⟩
          simpa [faultless] using first

-- ---------------------------------------------------------------------------
-- Pairs that overlap
-- ---------------------------------------------------------------------------

/-- The edits at the two indices overlap, the first index being the smaller one. -/
def OverlapAt (edits : List Edit) (first second : Nat) : Prop :=
  first < second ∧
    ∃ a b, edits[first]? = some a ∧ edits[second]? = some b ∧ a.overlaps b = true

theorem overlapAt_cons {rest : List Edit} {first second : Nat} :
    OverlapAt (edit :: rest) first second ↔
      (∃ j other, first = 0 ∧ second = j + 1 ∧ rest[j]? = some other ∧
        edit.overlaps other = true) ∨
      ∃ i j, first = i + 1 ∧ second = j + 1 ∧ OverlapAt rest i j := by
  cases second with
  | zero => simp [OverlapAt]
  | succ j => cases first <;> simp [OverlapAt]

theorem apart_iff : Apart edits ↔ ∀ first second, ¬ OverlapAt edits first second := by
  rw [Apart, List.pairwise_iff_getElem]
  constructor
  · rintro apart first second ⟨lt, a, b, hereA, hereB, meets⟩
    obtain ⟨inA, rfl⟩ := List.getElem?_eq_some_iff.mp hereA
    obtain ⟨inB, rfl⟩ := List.getElem?_eq_some_iff.mp hereB
    simp [apart first second inA inB lt] at meets
  · intro none first second inA inB lt
    rw [← Bool.not_eq_true]
    exact fun meets => none first second
      ⟨lt, _, _, List.getElem?_eq_getElem inA, List.getElem?_eq_getElem inB, meets⟩

/-- No other pair that overlaps comes before it: neither with a smaller first index, nor with the
same one and a smaller second. -/
structure LeastOverlap (edits : List Edit) (first second : Nat) : Prop where
  overlap : OverlapAt edits first second
  least : ∀ i j, OverlapAt edits i j → first < i ∨ first = i ∧ second ≤ j

theorem LeastOverlap.unique {first second first' second' : Nat}
    (h : LeastOverlap edits first second) (h' : LeastOverlap edits first' second') :
    first = first' ∧ second = second' := by
  have := h.least _ _ h'.overlap
  have := h'.least _ _ h.overlap
  omega

theorem firstOverlapWith?_eq (start : Nat) :
    edit.firstOverlapWith? start edits = (edits.findIdx? (edit.overlaps ·)).map (start + ·) := by
  induction edits generalizing start with
  | nil => rfl
  | cons other rest ih =>
    rw [firstOverlapWith?, List.findIdx?_cons]
    split
    next => rfl
    next =>
      rw [ih, Option.map_map]
      congr 1
      funext index
      simp only [Function.comp]
      omega

theorem leastOverlap_of_firstOverlap? {start : Nat} {pair : Nat × Nat}
    (found : firstOverlap? start edits = some pair) :
    ∃ first second, pair = (start + first, start + second) ∧ LeastOverlap edits first second := by
  induction edits generalizing start with
  | nil => cases found
  | cons edit rest ih =>
    rw [firstOverlap?] at found
    split at found
    next other meets =>
      -- no pair starts before the head, and it meets no earlier edit than this one
      cases found
      rw [firstOverlapWith?_eq, Option.map_eq_some_iff] at meets
      obtain ⟨index, meets, rfl⟩ := meets
      obtain ⟨within, meets, before⟩ := List.findIdx?_eq_some_iff_getElem.mp meets
      refine ⟨0, index + 1, by simp only [Prod.mk.injEq]; omega, ?_, fun i j overlap => ?_⟩
      · exact overlapAt_cons.mpr
          (.inl ⟨index, _, rfl, rfl, List.getElem?_eq_getElem within, meets⟩)
      · rcases overlapAt_cons.mp overlap with
          ⟨j, other, rfl, rfl, here, meets⟩ | ⟨i, j, rfl, rfl, -⟩
        · obtain ⟨within, rfl⟩ := List.getElem?_eq_some_iff.mp here
          have notEarlier : ¬ j < index := fun earlier => before j earlier meets
          omega
        · exact .inl (Nat.succ_pos i)
    next none =>
      obtain ⟨first, second, rfl, least⟩ := ih found
      refine ⟨first + 1, second + 1, by simp only [Prod.mk.injEq]; omega,
        overlapAt_cons.mpr (.inr ⟨first, second, rfl, rfl, least.overlap⟩), fun i j overlap => ?_⟩
      rcases overlapAt_cons.mp overlap with
        ⟨j, other, rfl, rfl, here, meets⟩ | ⟨i, j, rfl, rfl, behind⟩
      · have apart := (firstOverlapWith?_eq_none_iff _).mp none other (List.mem_of_getElem? here)
        simp [apart] at meets
      · have := least.least i j behind
        omega

theorem firstOverlap?_eq_some_iff {first second : Nat} :
    firstOverlap? 0 edits = some (first, second) ↔ LeastOverlap edits first second := by
  constructor
  · intro found
    obtain ⟨i, j, same, least⟩ := leastOverlap_of_firstOverlap? found
    simp only [Nat.zero_add, Prod.mk.injEq] at same
    obtain ⟨rfl, rfl⟩ := same
    exact least
  · intro least
    cases found : firstOverlap? 0 edits with
    | none =>
      have apart := apart_iff.mp ((firstOverlap?_eq_none_iff 0).mp found)
      exact absurd least.overlap (apart first second)
    | some pair =>
      obtain ⟨i, j, rfl, least'⟩ := leastOverlap_of_firstOverlap? found
      obtain ⟨rfl, rfl⟩ := least.unique least'
      simp

-- ---------------------------------------------------------------------------
-- The whole batch
-- ---------------------------------------------------------------------------

/-- The right answer to a batch of edits for the text. -/
inductive Verdict (source : Text) (edits : List Edit) : Except EditError Unit → Prop
  | outOfBounds {index : Nat} {edit : Edit} (found : edits[index]? = some edit)
      (first : ∀ earlier ∈ edits.take index, ¬ Faulty source earlier)
      (outside : byteSize source < edit.stop) :
      Verdict source edits (.error (.outOfBounds index edit.stop (byteSize source)))
  | splitsCharacter {index : Nat} {edit : Edit} (found : edits[index]? = some edit)
      (first : ∀ earlier ∈ edits.take index, ¬ Faulty source earlier)
      (inside : edit.stop ≤ byteSize source) (off : OffCharacters source edit) :
      Verdict source edits (.error (.splitsCharacter index))
  | overlapping {first second : Nat} (faultless : ∀ edit ∈ edits, ¬ Faulty source edit)
      (least : LeastOverlap edits first second) :
      Verdict source edits (.error (.overlapping first second))
  | accepted (faultless : ∀ edit ∈ edits, ¬ Faulty source edit)
      (apart : ∀ first second, ¬ OverlapAt edits first second) :
      Verdict source edits (.ok ())

theorem verdict_validate (source : Text) (edits : List Edit) :
    Verdict source edits (validate source edits) := by
  rw [validate]
  split
  next fault found =>
    obtain ⟨index, edit, here, first, fault⟩ := firstFault?_eq_some_iff.mp found
    rw [Nat.zero_add] at fault
    obtain ⟨outside, rfl⟩ | ⟨inside, off, rfl⟩ := fault?_eq_some_iff.mp fault
    · exact .outOfBounds here first outside
    · exact .splitsCharacter here first inside off
  next none =>
    have faultless : ∀ edit ∈ edits, ¬ Faulty source edit := fun edit mem =>
      not_faulty_iff.mpr ((firstFault?_eq_none_iff 0).mp none edit mem)
    split
    next first second found => exact .overlapping faultless (firstOverlap?_eq_some_iff.mp found)
    next none => exact .accepted faultless (apart_iff.mp ((firstOverlap?_eq_none_iff 0).mp none))

theorem Verdict.validate_eq {verdict : Except EditError Unit}
    (h : Verdict source edits verdict) : validate source edits = verdict := by
  have fault {index : Nat} {edit : Edit} {fault : EditError} (found : edits[index]? = some edit)
      (first : ∀ earlier ∈ edits.take index, ¬ Faulty source earlier)
      (own : edit.fault? source index = some fault) : validate source edits = .error fault := by
    have firstFault : firstFault? source 0 edits = some fault :=
      firstFault?_eq_some_iff.mpr ⟨index, edit, found, first, by rwa [Nat.zero_add]⟩
    rw [validate, firstFault]
    rfl
  cases h with
  | outOfBounds found first outside =>
    exact fault found first (fault?_eq_some_iff.mpr (.inl ⟨outside, rfl⟩))
  | splitsCharacter found first inside off =>
    exact fault found first (fault?_eq_some_iff.mpr (.inr ⟨inside, off, rfl⟩))
  | overlapping faultless least =>
    have none : firstFault? source 0 edits = none :=
      (firstFault?_eq_none_iff 0).mpr fun edit mem => not_faulty_iff.mp (faultless edit mem)
    rw [validate, none, firstOverlap?_eq_some_iff.mpr least]
    rfl
  | accepted faultless apart =>
    exact validate_eq_ok_iff.mpr
      ⟨fun edit mem => not_faulty_iff.mp (faultless edit mem), apart_iff.mpr apart⟩

/-- What an answer comes down to, without the edits it names. -/
inductive VerdictKind
  | accepted
  | faulty
  | overlapping
  deriving DecidableEq, Repr

def VerdictKind.of : Except EditError Unit → VerdictKind
  | .ok _ => accepted
  | .error (.overlapping _ _) => overlapping
  | .error _ => faulty

instance (source : Text) (edit : Edit) : Decidable (OnCharacters source edit) :=
  inferInstanceAs (Decidable (_ ∧ _))

instance (edits : List Edit) : Decidable (Apart edits) :=
  inferInstanceAs (Decidable (edits.Pairwise _))

theorem kind_validate (source : Text) (edits : List Edit) :
    VerdictKind.of (validate source edits) =
      if ∀ edit ∈ edits, OnCharacters source edit then
        if Apart edits then .accepted else .overlapping
      else .faulty := by
  have faulty {index : Nat} {edit : Edit} (found : edits[index]? = some edit)
      (fault : Faulty source edit) : ¬ ∀ edit ∈ edits, OnCharacters source edit := fun all =>
    not_faulty_iff.mpr (all edit (List.mem_of_getElem? found)) fault
  generalize given : validate source edits = verdict
  cases given ▸ verdict_validate source edits with
  | outOfBounds found _ outside =>
    rw [if_neg (faulty found (.inl outside))]
    rfl
  | splitsCharacter found _ _ off =>
    rw [if_neg (faulty found (.inr off))]
    rfl
  | overlapping faultless least =>
    have notApart : ¬ Apart edits := fun apart => apart_iff.mp apart _ _ least.overlap
    rw [if_pos fun edit mem => not_faulty_iff.mp (faultless edit mem), if_neg notApart]
    rfl
  | accepted faultless apart =>
    rw [if_pos fun edit mem => not_faulty_iff.mp (faultless edit mem),
      if_pos (apart_iff.mpr apart)]
    rfl

theorem kind_validate_of_perm (source : Text) (perm : edits.Perm others) :
    VerdictKind.of (validate source others) = VerdictKind.of (validate source edits) := by
  have onCharacters : (∀ edit ∈ others, OnCharacters source edit) ↔
      ∀ edit ∈ edits, OnCharacters source edit := by simp only [perm.mem_iff]
  have apart : Apart others ↔ Apart edits := ⟨(·.perm perm.symm), (·.perm perm)⟩
  rw [kind_validate, kind_validate]
  exact if_congr onCharacters (if_congr apart rfl rfl) rfl

/-- The byte is one of those that the edit takes out. -/
def Covers (edit : Edit) (byte : Nat) : Prop := edit.start ≤ byte ∧ byte < edit.stop

theorem not_covers_of_apart (apart : Apart edits) (byte : Nat) :
    edits.Pairwise fun a b => ¬ (a.Covers byte ∧ b.Covers byte) := by
  refine apart.imp fun {a b} apart ⟨coversA, coversB⟩ => ?_
  simp only [overlaps, Bool.and_eq_false_iff, decide_eq_false_iff_not] at apart
  simp only [Covers] at coversA coversB
  omega

theorem not_inside_of_apart (apart : Apart edits) {a b : Edit} (memA : a ∈ edits)
    (memB : b ∈ edits) (insertion : a.isInsertion = true) :
    ¬ (b.start < a.start ∧ a.start < b.stop) := by
  rintro ⟨lower, upper⟩
  simp only [isInsertion, decide_eq_true_eq] at insertion
  have ne : a ≠ b := by
    rintro rfl
    omega
  have symmetric : Std.Symm fun a b : Edit => a.overlaps b = false :=
    ⟨fun a b apart => (overlaps_comm b a).trans apart⟩
  have free : a.overlaps b = false := List.Pairwise.forall apart memA memB ne
  simp only [overlaps, Bool.and_eq_false_iff, decide_eq_false_iff_not] at free
  omega

end Edit

namespace EditBatch

open Edit

/-- Checking a batch gives the right answer and no other; its kind is the same for each order of
the batch. In a batch that is accepted no two edits take out the same byte, and nothing is inserted
into a range that is taken out. -/
theorem validate_eq_iff_verdict (batch : EditBatch) :
    (∀ verdict, batch.validate = verdict ↔ Verdict batch.source batch.edits verdict) ∧
    (∀ others, batch.edits.Perm others →
      VerdictKind.of { batch with edits := others }.validate = VerdictKind.of batch.validate) ∧
    (batch.validate = .ok () →
      (∀ byte, batch.edits.Pairwise fun a b => ¬ (a.Covers byte ∧ b.Covers byte)) ∧
      ∀ a ∈ batch.edits, ∀ b ∈ batch.edits, a.isInsertion = true →
        ¬ (b.start < a.start ∧ a.start < b.stop)) := by
  refine ⟨fun verdict => ⟨?_, Verdict.validate_eq⟩,
    fun others perm => kind_validate_of_perm batch.source perm, fun accepted => ?_⟩
  · rintro rfl
    exact verdict_validate batch.source batch.edits
  · have apart := (validate_eq_ok_iff.mp accepted).2
    exact ⟨not_covers_of_apart apart, fun a memA b memB => not_inside_of_apart apart memA memB⟩

def doubtful : EditBatch where
  source := "aé".toList
  edits := [⟨0, 1, [], none⟩, ⟨0, 3, [], none⟩, ⟨2, 3, [], none⟩, ⟨7, 9, [], none⟩]

theorem validate_eq_iff_verdict_doubtful :
    Verdict doubtful.source doubtful.edits (.error (.splitsCharacter 2)) ∧
    VerdictKind.of { doubtful with edits := doubtful.edits.reverse }.validate = .faulty ∧
    crowded.validate = .ok () ∧
    ∀ byte, crowded.edits.Pairwise fun a b => ¬ (a.Covers byte ∧ b.Covers byte) := by
  have refused : doubtful.validate = .error (.splitsCharacter 2) := by decide
  have accepted : crowded.validate = .ok () := by decide
  refine ⟨((validate_eq_iff_verdict doubtful).1 _).mp refused, ?_, accepted,
    ((validate_eq_iff_verdict crowded).2.2 accepted).1⟩
  rw [(validate_eq_iff_verdict doubtful).2.1 _ (List.reverse_perm _).symm, refused]
  rfl

end EditBatch

end Codemod
