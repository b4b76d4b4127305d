import Codemod.Pattern

/-!
# The ways to match a pattern

`ways` lists how a pattern can match at the head of a text, the preferred way
first. The matcher looks for one way only, passes what it has to a
continuation and keeps branch points on the side; `matchAt_eq_head?` says that
it finds the first way of the list. That holds for plain patterns, in which
only single characters are repeated: no branch point is then met twice between
two characters.

`Reads` is what a plain pattern matches as a set of texts, without order.
-/

namespace Codemod

/-- What a match takes and leaves, and what its groups remember, the latest first. -/
structure Way where
  taken : Text
  rest : Text
  groups : List (Nat × Text) := []

namespace Way

def nothing (text : Text) : Way := ⟨[], text, []⟩

def andThen (first second : Way) : Way :=
  ⟨first.taken ++ second.taken, second.rest, second.groups ++ first.groups⟩

def remember (way : Way) (index : Nat) : Way :=
  { way with groups := (index, way.taken) :: way.groups }

end Way

namespace Pattern

-- ---------------------------------------------------------------------------
-- Ways in order
-- ---------------------------------------------------------------------------

def inTurn (first second : Text → List Way) (text : Text) : List Way :=
  (first text).flatMap fun way => (second way.rest).map way.andThen

def roundsWays (round : Text → List Way) : Nat → Text → List Way
  | 0 => fun text => [.nothing text]
  | n + 1 => inTurn round (roundsWays round n)

def preferWays (greedy : Bool) (more : List Way) (stop : Way) : List Way :=
  if greedy then more ++ [stop] else stop :: more

def upToWays (round : Text → List Way) (greedy : Bool) : Nat → Text → List Way
  | 0, text => [.nothing text]
  | n + 1, text => preferWays greedy (inTurn round (upToWays round greedy n) text) (.nothing text)

/-- An anchor looks at what stands around the text, so it has no ways of its own. -/
def ways : Pattern → Text → List Way
  | empty, text => [.nothing text]
  | one _, [] => []
  | one cls, c :: rest => if cls.has c then [⟨[c], rest, []⟩] else []
  | textStart, _ => []
  | textEnd, _ => []
  | seq first second, text => inTurn first.ways second.ways text
  | alt first second, text => first.ways text ++ second.ways text
  | group index body, text => (body.ways text).map (·.remember index)
  | rep body low none greedy, text =>
    inTurn (roundsWays body.ways low)
      (fun rest => upToWays body.ways greedy rest.length rest) text
  | rep body low (some high) greedy, text =>
    inTurn (roundsWays body.ways low) (upToWays body.ways greedy (high - low)) text

theorem mem_inTurn {first second : Text → List Way} {text : Text} {way : Way} :
    way ∈ inTurn first second text ↔
      ∃ start ∈ first text, ∃ stop ∈ second start.rest, start.andThen stop = way := by
  simp [inTurn]

theorem findSome?_inTurn {α : Type} (first second : Text → List Way) (text : Text)
    (f : Way → Option α) :
    (inTurn first second text).findSome? f =
      (first text).findSome? fun way => (second way.rest).findSome? fun stop =>
        f (way.andThen stop) := by
  rw [inTurn]
  induction first text with
  | nil => rfl
  | cons way rest ih =>
    rw [List.flatMap_cons, List.findSome?_append, ih, List.findSome?_cons, List.findSome?_map]
    change Option.or ((second way.rest).findSome? fun stop => f (way.andThen stop)) _ = _
    cases (second way.rest).findSome? fun stop => f (way.andThen stop) <;> rfl

theorem inTurn_roundsWays_zero (round second : Text → List Way) :
    inTurn (roundsWays round 0) second = second := by
  funext text
  have same : (Way.nothing text).andThen = id := by
    funext way
    simp [Way.nothing, Way.andThen]
  rw [inTurn, roundsWays, List.flatMap_singleton, same, List.map_id]
  rfl

theorem roundsWays_one (round : Text → List Way) : roundsWays round 1 = round := by
  funext text
  simp [roundsWays, inTurn, Way.nothing, Way.andThen]

theorem upToWays_one (round : Text → List Way) (greedy : Bool) (text : Text) :
    upToWays round greedy 1 text = preferWays greedy (round text) (.nothing text) := by
  simp [upToWays, inTurn, Way.nothing, Way.andThen]

def Splits (ways : Text → List Way) : Prop :=
  ∀ text, ∀ way ∈ ways text, text = way.taken ++ way.rest

theorem Splits.inTurn {first second : Text → List Way} (start : Splits first)
    (stop : Splits second) : Splits (inTurn first second) := by
  intro text way mem
  obtain ⟨head, taken, tail, left, rfl⟩ := mem_inTurn.mp mem
  rw [start text head taken, Way.andThen, List.append_assoc, ← stop head.rest tail left]

theorem splits_nothing : Splits fun text => [.nothing text] := by
  intro text way mem
  rw [List.mem_singleton.mp mem]
  rfl

theorem Splits.roundsWays {round : Text → List Way} (split : Splits round) (n : Nat) :
    Splits (roundsWays round n) := by
  induction n with
  | zero => exact splits_nothing
  | succ n ih => exact split.inTurn ih

theorem Splits.upToWays {round : Text → List Way} (split : Splits round) (greedy : Bool)
    (n : Nat) : Splits (upToWays round greedy n) := by
  induction n with
  | zero => exact splits_nothing
  | succ n ih =>
    intro text way mem
    have cases : way ∈ Pattern.inTurn round (Pattern.upToWays round greedy n) text ∨
        way = .nothing text := by
      cases greedy <;> simpa [Pattern.upToWays, preferWays, or_comm] using mem
    rcases cases with more | rfl
    · exact split.inTurn ih text way more
    · rfl

theorem splits_ways (pattern : Pattern) : Splits pattern.ways := by
  induction pattern with
  | empty => exact splits_nothing
  | one cls =>
    intro text way mem
    cases text with
    | nil => cases mem
    | cons c rest =>
      rw [ways] at mem
      split at mem
      · rw [List.mem_singleton.mp mem]
        rfl
      · cases mem
  | textStart => intro _ _ mem; cases mem
  | textEnd => intro _ _ mem; cases mem
  | seq first second ih₁ ih₂ => exact ih₁.inTurn ih₂
  | alt first second ih₁ ih₂ =>
    intro text way mem
    rcases List.mem_append.mp mem with left | right
    · exact ih₁ text way left
    · exact ih₂ text way right
  | group index body ih =>
    intro text way mem
    obtain ⟨inner, found, rfl⟩ := List.mem_map.mp mem
    exact ih text inner found
  | rep body low high greedy ih =>
    cases high with
    | none =>
      exact (ih.roundsWays low).inTurn fun text way mem => ih.upToWays greedy _ text way mem
    | some high => exact (ih.roundsWays low).inTurn (ih.upToWays greedy _)

/-- Patterns in which only single characters are repeated without bound. -/
inductive Plain : Pattern → Prop
  | empty : Plain empty
  | one (cls : CharClass) : Plain (one cls)
  | seq {first second : Pattern} : Plain first → Plain second → Plain (seq first second)
  | alt {first second : Pattern} : Plain first → Plain second → Plain (alt first second)
  | group {body : Pattern} (index : Nat) : Plain body → Plain (group index body)
  | anyNumber (cls : CharClass) (greedy : Bool) : Plain (rep (one cls) 0 none greedy)
  | atLeastOne (cls : CharClass) (greedy : Bool) : Plain (rep (one cls) 1 none greedy)
  | optional {body : Pattern} (greedy : Bool) : Plain body → Plain (rep body 0 (some 1) greedy)

end Pattern

-- ---------------------------------------------------------------------------
-- Branch points
-- ---------------------------------------------------------------------------

namespace Cursor

def ClearOf (cursor : Cursor) (place : Place) : Prop := ∀ point ∈ cursor.passed, ¬ place <:+ point

/-- Branch points that may have been passed when the pattern at the place is done. -/
def Leaves (cursor : Cursor) (place : Place) (passed : List Place) : Prop :=
  ∀ point ∈ passed, point ∈ cursor.passed ∨ place <:+ point

def after (cursor : Cursor) (way : Way) (passed : List Place) : Cursor where
  rest := way.rest
  offset := cursor.offset + byteSize way.taken
  groups := way.groups ++ cursor.groups
  passed := passed

theorem after_after (cursor : Cursor) (first second : Way) (passed later : List Place) :
    (cursor.after first passed).after second later = cursor.after (first.andThen second) later := by
  simp [after, Way.andThen, Nat.add_assoc]

end Cursor

namespace Place

theorem suffix_part (place : Place) (i : Nat) : place <:+ place.part i := ⟨[i, 1], rfl⟩

theorem suffix_branch (place : Place) (i : Nat) : place <:+ place.branch i := ⟨[i, 0], rfl⟩

theorem part_inj_of_suffix {place point : Place} {i j : Nat} (first : place.part i <:+ point)
    (second : place.part j <:+ point) : i = j := by
  have same : place.part i = place.part j := by
    rcases List.suffix_or_suffix_of_suffix first second with h | h
    · exact h.eq_of_length rfl
    · exact (h.eq_of_length rfl).symm
  exact (List.cons.inj same).1

theorem not_part_suffix_branch (place : Place) (i j : Nat) : ¬ place.part i <:+ place.branch j := by
  intro h
  have same : place.part i = place.branch j := h.eq_of_length rfl
  simp [part, branch] at same

end Place

namespace Cursor

variable {cursor : Cursor} {place : Place}

theorem ClearOf.part (clear : cursor.ClearOf place) (i : Nat) : cursor.ClearOf (place.part i) :=
  fun point mem under => clear point mem ((place.suffix_part i).trans under)

theorem leaves_branch (cursor : Cursor) (place : Place) (i : Nat) :
    cursor.Leaves place (place.branch i :: cursor.passed) := by
  intro point mem
  rcases List.mem_cons.mp mem with rfl | mem
  · exact .inr (place.suffix_branch i)
  · exact .inl mem

theorem Leaves.clearOf_part {passed : List Place} {i j : Nat}
    (leaves : cursor.Leaves (place.part i) passed)
    (clear : cursor.ClearOf place) (way : Way) (ne : i ≠ j) :
    (cursor.after way passed).ClearOf (place.part j) := by
  intro point mem under
  rcases leaves point mem with before | inside
  · exact clear.part j point before under
  · exact ne (Place.part_inj_of_suffix inside under)

theorem Leaves.trans {passed later : List Place} {way : Way} {i j : Nat}
    (first : cursor.Leaves (place.part i) passed)
    (second : (cursor.after way passed).Leaves (place.part j) later) :
    cursor.Leaves place later := by
  intro point mem
  rcases second point mem with before | inside
  · exact (first point before).imp_right (place.suffix_part i).trans
  · exact .inr ((place.suffix_part j).trans inside)

def entering (cursor : Cursor) (place : Place) (i : Nat) : Cursor :=
  { cursor with passed := place.branch i :: cursor.passed }

theorem ClearOf.entering (clear : cursor.ClearOf place) (i j : Nat) :
    (cursor.entering place i).ClearOf (place.part j) := by
  intro point mem under
  rcases List.mem_cons.mp mem with rfl | mem
  · exact place.not_part_suffix_branch j i under
  · exact clear.part j point mem under

theorem Leaves.of_entering {passed : List Place} {i j : Nat}
    (leaves : (cursor.entering place i).Leaves (place.part j) passed) :
    cursor.Leaves place passed := by
  intro point mem
  rcases leaves point mem with before | inside
  · exact cursor.leaves_branch place i point before
  · exact .inr ((place.suffix_part j).trans inside)

theorem after_nothing {text : Text} (rest : cursor.rest = text) (passed : List Place) :
    cursor.after (.nothing text) passed = { cursor with passed } := by
  simp [after, Way.nothing, rest]

theorem ClearOf.pass? (clear : cursor.ClearOf place) (i : Nat) :
    cursor.pass? (place.branch i) = some (cursor.entering place i) := by
  have new : place.branch i ∉ cursor.passed := fun mem => clear _ mem (place.suffix_branch i)
  rw [Cursor.pass?, if_neg new, Cursor.entering]

end Cursor

namespace Pattern

theorem map_prefer {α : Type} {observe : Cursor → α} {greedy : Bool}
    {more stop : Unit → Option Cursor} {ways : List Way} {way : Way} {expected : Way → Option α}
    (again : (more ()).map observe = ways.findSome? expected)
    (done : (stop ()).map observe = expected way) :
    (prefer greedy more stop).map observe =
      (preferWays greedy ways way).findSome? expected := by
  cases greedy with
  | true => simp [prefer, preferWays, Option.map_or, again, done]
  | false =>
    simp only [prefer, preferWays, Option.orElse_eq_orElse, Option.orElse_eq_or, Option.map_or,
      again, done, List.findSome?_cons, Bool.false_eq_true, if_false]
    cases expected way <;> rfl

theorem map_run_one {α : Type} (observe : Cursor → α) (cls : CharClass) {place : Place}
    {cursor : Cursor} {next : Continuation} {expected : Way → Option α}
    (agree : ∀ c text, cursor.rest = c :: text → cls.has c = true →
      (next (cursor.after ⟨[c], text, []⟩ [])).map observe = expected ⟨[c], text, []⟩) :
    ((one cls).run place cursor next).map observe =
      ((one cls).ways cursor.rest).findSome? expected := by
  cases rest : cursor.rest with
  | nil => simp [run, Cursor.consume?, rest, ways]
  | cons c text =>
    cases has : cls.has c with
    | false => simp [run, Cursor.consume?, rest, ways, has]
    | true =>
      simpa [run, Cursor.consume?, rest, ways, has, Cursor.after] using agree c text rest has

theorem map_moreRounds {α : Type} (observe : Cursor → α) (cls : CharClass) (inner : Place)
    {place : Place} {greedy : Bool} {next : Continuation} {expected : Way → Option α} {text : Text}
    {cursor : Cursor} (rest : cursor.rest = text) {fuel : Nat} (enough : text.length < fuel)
    (clear : cursor.ClearOf place)
    (agree : ∀ way ∈ upToWays (one cls).ways greedy text.length text, ∀ passed,
      cursor.Leaves place passed → (next (cursor.after way passed)).map observe = expected way) :
    (moreRounds (fun c k => (one cls).run inner c k) place greedy next fuel cursor).map observe =
      (upToWays (one cls).ways greedy text.length text).findSome? expected := by
  induction text generalizing cursor fuel expected with
  | nil =>
    obtain ⟨fuel, rfl⟩ : ∃ n, fuel = n + 1 := ⟨fuel - 1, by omega⟩
    have done := agree (.nothing []) (by simp [upToWays]) _ (cursor.leaves_branch place 1)
    rw [Cursor.after_nothing rest] at done
    rw [moreRounds, clear.pass?]
    have none : ∀ again, ((one cls).run inner (cursor.entering place 1) again).map observe =
        [].findSome? expected := by
      simp [run, Cursor.consume?, Cursor.entering, rest]
    refine (map_prefer (none _) done).trans ?_
    cases greedy <;> rfl
  | cons c text ih =>
    obtain ⟨fuel, rfl⟩ : ∃ n, fuel = n + 1 := ⟨fuel - 1, by omega⟩
    have stops : Way.nothing (c :: text) ∈
        upToWays (one cls).ways greedy (c :: text).length (c :: text) := by
      cases greedy <;> simp [upToWays, preferWays]
    have done := agree (.nothing (c :: text)) stops _ (cursor.leaves_branch place 1)
    rw [Cursor.after_nothing rest] at done
    rw [moreRounds, clear.pass?]
    refine map_prefer ?_ done
    rw [findSome?_inTurn, ← rest]
    refine map_run_one observe cls ?_
    intro d text' cons has
    obtain ⟨rfl, rfl⟩ : c = d ∧ text = text' := by simpa using rest.symm.trans cons
    -- the character sets the cursor free of all branch points, so the next round is as the first
    refine ih rfl (by simpa using enough) (fun _ mem => by cases mem) ?_
    intro way mem passed leaves
    rw [Cursor.after_after]
    refine agree _ ?_ passed ?_
    · have more : Way.andThen ⟨[c], text, []⟩ way ∈ inTurn (one cls).ways
          (upToWays (one cls).ways greedy text.length) (c :: text) :=
        mem_inTurn.mpr ⟨⟨[c], text, []⟩, by simp [ways, has], way, mem, rfl⟩
      cases greedy <;> simp [upToWays, preferWays, more]
    · exact fun point mem => .inr ((leaves point mem).resolve_left (fun none => by cases none))

/-- A plain pattern hands its ways to the continuation in order, and the first that succeeds
counts. What the continuation makes of a way must not depend on branch points of the pattern. -/
theorem map_run {α : Type} (observe : Cursor → α) {pattern : Pattern} (plain : pattern.Plain)
    {place : Place} {cursor : Cursor} {next : Continuation} {expected : Way → Option α}
    (clear : cursor.ClearOf place)
    (agree : ∀ way ∈ pattern.ways cursor.rest, ∀ passed, cursor.Leaves place passed →
      (next (cursor.after way passed)).map observe = expected way) :
    (pattern.run place cursor next).map observe =
      (pattern.ways cursor.rest).findSome? expected := by
  induction plain generalizing place cursor next expected with
  | empty =>
    have only := agree (.nothing cursor.rest) (by simp [ways]) cursor.passed (fun _ => .inl)
    rw [Cursor.after_nothing rfl] at only
    simpa [run, ways] using only
  | one cls =>
    refine map_run_one observe cls fun c text rest has => ?_
    exact agree ⟨[c], text, []⟩ (by simp [rest, ways, has]) [] (fun _ none => by cases none)
  | @seq first second plain₁ plain₂ ih₁ ih₂ =>
    rw [run, ways, findSome?_inTurn]
    refine ih₁ (clear.part 0) ?_
    intro start mem passed leaves
    refine ih₂ (leaves.clearOf_part clear start (by decide)) ?_
    intro stop left later beyond
    rw [Cursor.after_after]
    exact agree _ (mem_inTurn.mpr ⟨start, mem, stop, left, rfl⟩) later (leaves.trans beyond)
  | @alt first second plain₁ plain₂ ih₁ ih₂ =>
    rw [run, clear.pass?, ways, List.findSome?_append]
    simp only [Option.orElse_eq_orElse, Option.orElse_eq_or, Option.map_or]
    congr 1
    · exact ih₁ (clear.entering 0 0) fun way mem passed leaves =>
        agree way (List.mem_append_left _ mem) passed leaves.of_entering
    · exact ih₂ (clear.entering 0 1) fun way mem passed leaves =>
        agree way (List.mem_append_right _ mem) passed leaves.of_entering
  | @group body index plain ih =>
    rw [run, ways, List.findSome?_map]
    refine ih (clear.part 0) ?_
    intro way mem passed leaves
    have taken : cursor.textUpTo (cursor.after way passed) = way.taken := by
      have split := splits_ways body cursor.rest way mem
      have length : cursor.rest.length - way.rest.length = way.taken.length := by simp [split]
      rw [Cursor.textUpTo, Cursor.after, length, split, List.take_left]
    have kept := agree (way.remember index) (List.mem_map_of_mem mem) passed fun point mem =>
      (leaves point mem).imp_right (place.suffix_part 0).trans
    rw [taken]
    exact kept
  | anyNumber cls greedy =>
    have single : (Pattern.one cls).consumes = true := rfl
    rw [ways, inTurn_roundsWays_zero] at agree ⊢
    simp only [run, single, if_true]
    exact map_moreRounds observe cls (place.part 0) rfl (Nat.lt_succ_self _) clear agree
  | atLeastOne cls greedy =>
    rw [ways, roundsWays_one] at agree ⊢
    rw [run, rounds, someRounds, findSome?_inTurn]
    refine map_run_one observe cls fun c text rest has => ?_
    have enough : text.length < cursor.rest.length + 1 := by
      simp only [rest, List.length_cons]
      omega
    refine map_moreRounds observe cls (place.part 0) rfl enough (fun _ none => by cases none) ?_
    intro way mem passed leaves
    rw [Cursor.after_after]
    refine agree _ (mem_inTurn.mpr
      ⟨⟨[c], text, []⟩, by simp [rest, ways, has], way, mem, rfl⟩) passed ?_
    exact fun point mem => .inr ((leaves point mem).resolve_left (fun none => by cases none))
  | @optional body greedy plain ih =>
    rw [ways, inTurn_roundsWays_zero, Nat.sub_zero, upToWays_one] at agree ⊢
    have stops := agree (.nothing cursor.rest) (by cases greedy <;> simp [preferWays]) _
      (cursor.leaves_branch place 2)
    rw [Cursor.after_nothing rfl] at stops
    rw [run, rounds, roundsUpTo, clear.pass?]
    refine map_prefer (ih (clear.entering 2 0) ?_) stops
    intro way mem passed leaves
    have mem : way ∈ body.ways cursor.rest := mem
    refine agree way ?_ passed leaves.of_entering
    cases greedy <;> simp [preferWays, mem]

theorem matchAt_eq_head? {pattern : Pattern} (plain : pattern.Plain) (offset : Nat) (rest : Text) :
    pattern.matchAt offset rest = (pattern.ways rest).head?.map fun way =>
      { start := offset, text := way.taken, groups := way.groups } := by
  let start : Cursor := { rest, offset }
  have first : (pattern.run [] start some).map (fun stop =>
        ({ start := offset, text := start.textUpTo stop, groups := stop.groups } : Match)) =
      (pattern.ways rest).findSome? fun way =>
        some { start := offset, text := way.taken, groups := way.groups } := by
    refine map_run _ plain (fun _ none => by cases none) ?_
    intro way mem passed _
    have split := splits_ways pattern rest way mem
    simp [Cursor.after, start, Cursor.textUpTo, split]
  rw [matchAt, first]
  cases pattern.ways rest <;> rfl

-- ---------------------------------------------------------------------------
-- Texts that a pattern reads
-- ---------------------------------------------------------------------------

/-- A plain pattern reads a text as a whole and remembers the groups. -/
inductive Reads : Pattern → Text → List (Nat × Text) → Prop
  | empty : Reads empty [] []
  | one {cls : CharClass} {c : Char} : cls.has c = true → Reads (one cls) [c] []
  | seq {first second : Pattern} {start stop : Text} {before after : List (Nat × Text)} :
      Reads first start before → Reads second stop after →
      Reads (seq first second) (start ++ stop) (after ++ before)
  | left {first second : Pattern} {text : Text} {groups : List (Nat × Text)} :
      Reads first text groups → Reads (alt first second) text groups
  | right {first second : Pattern} {text : Text} {groups : List (Nat × Text)} :
      Reads second text groups → Reads (alt first second) text groups
  | group {index : Nat} {body : Pattern} {text : Text} {groups : List (Nat × Text)} :
      Reads body text groups → Reads (group index body) text ((index, text) :: groups)
  | run {cls : CharClass} {low : Nat} {greedy : Bool} {text : Text} :
      low ≤ text.length → (∀ c ∈ text, cls.has c = true) →
      Reads (rep (one cls) low none greedy) text []
  | skip {body : Pattern} {greedy : Bool} : Reads (rep body 0 (some 1) greedy) [] []
  | once {body : Pattern} {greedy : Bool} {text : Text} {groups : List (Nat × Text)} :
      Reads body text groups → Reads (rep body 0 (some 1) greedy) text groups

theorem mem_preferWays {greedy : Bool} {more : List Way} {stop way : Way} :
    way ∈ preferWays greedy more stop ↔ way ∈ more ∨ way = stop := by
  cases greedy <;> simp [preferWays, or_comm]

theorem mem_ways_one {cls : CharClass} {text : Text} {way : Way} :
    way ∈ (one cls).ways text ↔
      ∃ c, cls.has c = true ∧ text = c :: way.rest ∧ way.taken = [c] ∧ way.groups = [] := by
  constructor
  · intro mem
    cases text with
    | nil => cases mem
    | cons c text =>
      rw [ways] at mem
      split at mem
      next has =>
        obtain rfl := List.mem_singleton.mp mem
        exact ⟨c, has, rfl, rfl, rfl⟩
      next => cases mem
  · obtain ⟨taken, rest, groups⟩ := way
    rintro ⟨c, has, rfl, rfl, rfl⟩
    simp [ways, has]

theorem mem_upToWays_one {cls : CharClass} {greedy : Bool} {text : Text} {way : Way} :
    way ∈ upToWays (one cls).ways greedy text.length text ↔
      text = way.taken ++ way.rest ∧ (∀ c ∈ way.taken, cls.has c = true) ∧ way.groups = [] := by
  induction text generalizing way with
  | nil =>
    obtain ⟨taken, rest, groups⟩ := way
    constructor
    · intro mem
      obtain ⟨rfl, rfl, rfl⟩ := Way.mk.inj (List.mem_singleton.mp mem)
      simp
    · rintro ⟨split, -, rfl⟩
      obtain ⟨rfl, rfl⟩ := List.append_eq_nil_iff.mp split.symm
      exact List.mem_singleton.mpr rfl
  | cons c text ih =>
    rw [List.length_cons, upToWays, mem_preferWays, mem_inTurn]
    constructor
    · rintro (⟨first, mem, later, left, rfl⟩ | rfl)
      · obtain ⟨d, has, cons, taken, groups⟩ := mem_ways_one.mp mem
        obtain ⟨rfl, rest⟩ := List.cons.inj cons
        rw [← rest] at left
        obtain ⟨split, all, none⟩ := ih.mp left
        simp [Way.andThen, taken, groups, none, split, has]
        exact all
      · simp [Way.nothing]
    · obtain ⟨taken, rest, groups⟩ := way
      rintro ⟨split, all, rfl⟩
      cases taken with
      | nil =>
        right
        simpa [Way.nothing] using split.symm
      | cons d more =>
        left
        obtain ⟨rfl, rfl⟩ := List.cons.inj split
        have has : cls.has c = true := all c List.mem_cons_self
        refine ⟨⟨[c], more ++ rest, []⟩, mem_ways_one.mpr ⟨c, has, rfl, rfl, rfl⟩,
          ⟨more, rest, []⟩, ih.mpr ⟨rfl, ?_, rfl⟩, rfl⟩
        exact fun d mem => all d (List.mem_cons_of_mem _ mem)

theorem mem_ways_iff {pattern : Pattern} (plain : pattern.Plain) {text : Text} {way : Way} :
    way ∈ pattern.ways text ↔
      text = way.taken ++ way.rest ∧ pattern.Reads way.taken way.groups := by
  induction plain generalizing text way with
  | empty =>
    obtain ⟨taken, rest, groups⟩ := way
    constructor
    · intro mem
      obtain ⟨rfl, rfl, rfl⟩ := Way.mk.inj (List.mem_singleton.mp mem)
      exact ⟨rfl, .empty⟩
    · rintro ⟨rfl, reads⟩
      cases reads
      exact List.mem_singleton.mpr rfl
  | one cls =>
    obtain ⟨taken, rest, groups⟩ := way
    rw [mem_ways_one]
    constructor
    · rintro ⟨c, has, rfl, rfl, rfl⟩
      exact ⟨rfl, .one has⟩
    · rintro ⟨rfl, reads⟩
      cases reads with
      | one has => exact ⟨_, has, rfl, rfl, rfl⟩
  | @seq first second plain₁ plain₂ ih₁ ih₂ =>
    rw [ways, mem_inTurn]
    constructor
    · rintro ⟨start, mem, stop, left, rfl⟩
      obtain ⟨split, reads⟩ := ih₁.mp mem
      obtain ⟨split', reads'⟩ := ih₂.mp left
      refine ⟨?_, .seq reads reads'⟩
      rw [split, split', Way.andThen, List.append_assoc]
    · obtain ⟨taken, rest, groups⟩ := way
      rintro ⟨rfl, reads⟩
      cases reads with
      | @seq _ _ start stop before after reads reads' =>
        refine ⟨⟨start, stop ++ rest, before⟩, ih₁.mpr ⟨?_, reads⟩, ⟨stop, rest, after⟩,
          ih₂.mpr ⟨rfl, reads'⟩, rfl⟩
        exact List.append_assoc ..
  | @alt first second plain₁ plain₂ ih₁ ih₂ =>
    rw [ways, List.mem_append, ih₁, ih₂]
    constructor
    · rintro (⟨split, reads⟩ | ⟨split, reads⟩)
      · exact ⟨split, .left reads⟩
      · exact ⟨split, .right reads⟩
    · rintro ⟨split, reads⟩
      cases reads with
      | left reads => exact .inl ⟨split, reads⟩
      | right reads => exact .inr ⟨split, reads⟩
  | @group body index plain ih =>
    rw [ways, List.mem_map]
    constructor
    · rintro ⟨inner, mem, rfl⟩
      obtain ⟨split, reads⟩ := ih.mp mem
      exact ⟨split, .group reads⟩
    · obtain ⟨taken, rest, groups⟩ := way
      rintro ⟨split, reads⟩
      change Reads _ taken groups at reads
      cases reads with
      | @group _ _ _ groups reads => exact ⟨⟨taken, rest, groups⟩, ih.mpr ⟨split, reads⟩, rfl⟩
  | anyNumber cls greedy =>
    obtain ⟨taken, rest, groups⟩ := way
    rw [ways, inTurn_roundsWays_zero, mem_upToWays_one]
    constructor
    · rintro ⟨split, all, rfl⟩
      exact ⟨split, .run (Nat.zero_le _) all⟩
    · rintro ⟨split, reads⟩
      cases reads with
      | run _ all => exact ⟨split, all, rfl⟩
  | atLeastOne cls greedy =>
    rw [ways, roundsWays_one, mem_inTurn]
    constructor
    · rintro ⟨first, mem, later, left, rfl⟩
      obtain ⟨c, has, rfl, taken, groups⟩ := mem_ways_one.mp mem
      obtain ⟨split, all, none⟩ := mem_upToWays_one.mp left
      rw [Way.andThen, taken, groups, none]
      refine ⟨by simp [split], .run (by simp) ?_⟩
      simpa [has] using all
    · obtain ⟨taken, rest, groups⟩ := way
      rintro ⟨split, reads⟩
      change Reads _ taken groups at reads
      cases reads with
      | run low all =>
        obtain ⟨c, more, rfl⟩ := List.exists_cons_of_length_pos low
        refine ⟨⟨[c], more ++ rest, []⟩, mem_ways_one.mpr ⟨c, ?_, split, rfl, rfl⟩,
          ⟨more, rest, []⟩, mem_upToWays_one.mpr ⟨rfl, ?_, rfl⟩, rfl⟩
        · exact all c List.mem_cons_self
        · exact fun d mem => all d (List.mem_cons_of_mem _ mem)
  | @optional body greedy plain ih =>
    rw [ways, inTurn_roundsWays_zero, Nat.sub_zero, upToWays_one, mem_preferWays, ih]
    constructor
    · rintro (⟨split, reads⟩ | rfl)
      · exact ⟨split, .once reads⟩
      · exact ⟨rfl, .skip⟩
    · obtain ⟨taken, rest, groups⟩ := way
      rintro ⟨split, reads⟩
      cases reads with
      | skip => exact .inr (by rw [split]; rfl)
      | once reads => exact .inl ⟨split, reads⟩

theorem reads_of_matchAt {pattern : Pattern} (plain : pattern.Plain) {offset : Nat} {rest : Text}
    {piece : Match} (found : pattern.matchAt offset rest = some piece) :
    pattern.Reads piece.text piece.groups := by
  rw [matchAt_eq_head? plain] at found
  obtain ⟨way, first, rfl⟩ := Option.map_eq_some_iff.mp found
  exact ((mem_ways_iff plain).mp (List.mem_of_mem_head? first)).2

theorem matchAt_eq_none_iff {pattern : Pattern} (plain : pattern.Plain) {offset : Nat}
    {rest : Text} :
    pattern.matchAt offset rest = none ↔
      ∀ text groups, pattern.Reads text groups → ¬ text <+: rest := by
  rw [matchAt_eq_head? plain, Option.map_eq_none_iff, List.head?_eq_none_iff,
    List.eq_nil_iff_forall_not_mem]
  constructor
  · rintro none text groups reads ⟨after, rfl⟩
    exact none ⟨text, after, groups⟩ ((mem_ways_iff plain).mpr ⟨rfl, reads⟩)
  · intro none way mem
    obtain ⟨split, reads⟩ := (mem_ways_iff plain).mp mem
    exact none way.taken way.groups reads ⟨way.rest, split.symm⟩

-- ---------------------------------------------------------------------------
-- Patterns made of parts
-- ---------------------------------------------------------------------------

section

variable {text : Text} {groups : List (Nat × Text)}

theorem plain_literal (word : Text) : (literal word).Plain := by
  induction word with
  | nil => exact .empty
  | cons c rest ih => exact .seq (.one _) ih

theorem plain_inOrder {patterns : List Pattern} (plain : ∀ pattern ∈ patterns, pattern.Plain) :
    (inOrder patterns).Plain := by
  induction patterns with
  | nil => exact .empty
  | cons pattern rest ih =>
    exact .seq (plain pattern List.mem_cons_self)
      (ih fun pattern mem => plain pattern (List.mem_cons_of_mem _ mem))

@[simp] theorem reads_single {c : Char} :
    (one (.single c)).Reads text groups ↔ text = [c] ∧ groups = [] := by
  constructor
  · intro reads
    cases reads with
    | one has => simpa [CharClass.has] using has
  · rintro ⟨rfl, rfl⟩
    exact .one (by simp [CharClass.has])

@[simp] theorem reads_literal {word : Text} :
    (literal word).Reads text groups ↔ text = word ∧ groups = [] := by
  constructor
  · intro reads
    induction word generalizing text groups with
    | nil => cases reads; simp
    | cons c rest ih =>
      cases reads with
      | seq first later =>
        obtain ⟨rfl, rfl⟩ := reads_single.mp first
        obtain ⟨rfl, rfl⟩ := ih later
        simp
  · rintro ⟨rfl, rfl⟩
    induction text with
    | nil => exact .empty
    | cons c rest ih => exact .seq (reads_single.mpr ⟨rfl, rfl⟩) ih

@[simp] theorem reads_anyNumber {cls : CharClass} :
    (anyNumber cls).Reads text groups ↔ (∀ c ∈ text, cls.has c = true) ∧ groups = [] := by
  constructor
  · intro reads
    cases reads with
    | run _ all => exact ⟨all, rfl⟩
  · rintro ⟨all, rfl⟩
    exact .run (Nat.zero_le _) all

@[simp] theorem reads_atLeastOne {cls : CharClass} :
    (atLeastOne cls).Reads text groups ↔
      (text ≠ [] ∧ ∀ c ∈ text, cls.has c = true) ∧ groups = [] := by
  constructor
  · intro reads
    cases reads with
    | run low all => exact ⟨⟨List.ne_nil_of_length_pos low, all⟩, rfl⟩
  · rintro ⟨⟨nonempty, all⟩, rfl⟩
    exact .run (List.length_pos_iff.mpr nonempty) all

@[simp] theorem reads_group {index : Nat} {body : Pattern} :
    (group index body).Reads text groups ↔
      ∃ inner, body.Reads text inner ∧ groups = (index, text) :: inner := by
  constructor
  · intro reads
    cases reads with
    | group reads => exact ⟨_, reads, rfl⟩
  · rintro ⟨inner, reads, rfl⟩
    exact .group reads

@[simp] theorem reads_optional {body : Pattern} :
    (optional body).Reads text groups ↔ (text = [] ∧ groups = []) ∨ body.Reads text groups := by
  constructor
  · intro reads
    cases reads with
    | skip => exact .inl ⟨rfl, rfl⟩
    | once reads => exact .inr reads
  · rintro (⟨rfl, rfl⟩ | reads)
    · exact .skip
    · exact .once reads

theorem reads_seq {first second : Pattern} :
    (seq first second).Reads text groups ↔ ∃ start stop before after,
      text = start ++ stop ∧ groups = after ++ before ∧
        first.Reads start before ∧ second.Reads stop after := by
  constructor
  · intro reads
    cases reads with
    | seq first second => exact ⟨_, _, _, _, rfl, rfl, first, second⟩
  · rintro ⟨start, stop, before, after, rfl, rfl, first, second⟩
    exact .seq first second

@[simp] theorem reads_inOrder_nil : (inOrder []).Reads text groups ↔ text = [] ∧ groups = [] := by
  constructor
  · intro reads
    cases reads
    exact ⟨rfl, rfl⟩
  · rintro ⟨rfl, rfl⟩
    exact .empty

theorem reads_inOrder_cons {first : Pattern} {rest : List Pattern} :
    (inOrder (first :: rest)).Reads text groups ↔ ∃ start stop before after,
      text = start ++ stop ∧ groups = after ++ before ∧
        first.Reads start before ∧ (inOrder rest).Reads stop after := reads_seq

theorem reads_inOrder_cons_of_mute {first : Pattern} {language : Text → Prop}
    (mute : ∀ {text groups}, first.Reads text groups ↔ language text ∧ groups = [])
    {rest : List Pattern} :
    (inOrder (first :: rest)).Reads text groups ↔
      ∃ start stop, text = start ++ stop ∧ language start ∧ (inOrder rest).Reads stop groups := by
  rw [reads_inOrder_cons]
  constructor
  · rintro ⟨start, stop, before, after, rfl, rfl, first, later⟩
    obtain ⟨mem, rfl⟩ := mute.mp first
    exact ⟨start, stop, rfl, mem, by rwa [List.append_nil]⟩
  · rintro ⟨start, stop, rfl, mem, later⟩
    exact ⟨start, stop, [], groups, rfl, by simp, mute.mpr ⟨mem, rfl⟩, later⟩

theorem reads_inOrder_literal {word : Text} {rest : List Pattern} :
    (inOrder (literal word :: rest)).Reads text groups ↔
      ∃ stop, text = word ++ stop ∧ (inOrder rest).Reads stop groups := by
  rw [reads_inOrder_cons_of_mute reads_literal]
  constructor
  · rintro ⟨_, stop, rfl, rfl, later⟩
    exact ⟨stop, rfl, later⟩
  · rintro ⟨stop, rfl, later⟩
    exact ⟨word, stop, rfl, rfl, later⟩

theorem reads_inOrder_single {c : Char} {rest : List Pattern} :
    (inOrder (one (.single c) :: rest)).Reads text groups ↔
      ∃ stop, text = c :: stop ∧ (inOrder rest).Reads stop groups := by
  rw [reads_inOrder_cons_of_mute reads_single]
  constructor
  · rintro ⟨_, stop, rfl, rfl, later⟩
    exact ⟨stop, rfl, later⟩
  · rintro ⟨stop, rfl, later⟩
    exact ⟨[c], stop, rfl, rfl, later⟩

theorem reads_inOrder_anyNumber {cls : CharClass} {rest : List Pattern} :
    (inOrder (anyNumber cls :: rest)).Reads text groups ↔ ∃ start stop, text = start ++ stop ∧
      (∀ c ∈ start, cls.has c = true) ∧ (inOrder rest).Reads stop groups :=
  reads_inOrder_cons_of_mute reads_anyNumber

theorem reads_inOrder_append {first rest : List Pattern} :
    (inOrder (first ++ rest)).Reads text groups ↔ ∃ start stop before after,
      text = start ++ stop ∧ groups = after ++ before ∧
        (inOrder first).Reads start before ∧ (inOrder rest).Reads stop after := by
  induction first generalizing text groups with
  | nil =>
    constructor
    · intro later
      exact ⟨[], text, [], groups, rfl, by simp, reads_inOrder_nil.mpr ⟨rfl, rfl⟩, later⟩
    · rintro ⟨start, stop, before, after, rfl, rfl, none, later⟩
      obtain ⟨rfl, rfl⟩ := reads_inOrder_nil.mp none
      simpa using later
  | cons pattern first ih =>
    rw [List.cons_append, reads_inOrder_cons]
    constructor
    · rintro ⟨start, _, before, _, rfl, rfl, head, tail⟩
      obtain ⟨middle, stop, between, after, rfl, rfl, inner, later⟩ := ih.mp tail
      exact ⟨start ++ middle, stop, between ++ before, after, by simp, by simp,
        reads_inOrder_cons.mpr ⟨_, _, _, _, rfl, rfl, head, inner⟩, later⟩
    · rintro ⟨_, stop, _, after, rfl, rfl, both, later⟩
      obtain ⟨start, middle, before, between, rfl, rfl, head, inner⟩ := reads_inOrder_cons.mp both
      exact ⟨start, middle ++ stop, before, after ++ between, by simp, by simp, head,
        ih.mpr ⟨_, _, _, _, rfl, rfl, inner, later⟩⟩

end

end Pattern

end Codemod
