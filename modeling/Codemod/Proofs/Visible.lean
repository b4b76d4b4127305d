import Codemod.Proofs.CallbackScan

/-!
# Nothing is lost but blanks

A callback rule writes every call that it finds anew. Apart from blanks, what
stood there is still there in its order, and for each parameter a colon and the
type have been added (`Grows`). That holds for one call, so for the calls of one
rule, and for the rules of the group one after the other
(`apply_keeps_visible`).
-/

namespace Codemod

namespace Text

/-- The text without its blanks. -/
def visible (text : Text) : Text := text.filter fun c => !isWhiteSpace c

@[simp] theorem visible_append (first second : Text) :
    visible (first ++ second) = visible first ++ visible second := List.filter_append ..

theorem visible_cons {c : Char} (seen : isWhiteSpace c = false) (text : Text) :
    visible (c :: text) = c :: visible text := by
  simp [visible, seen]

theorem visible_of_blank {text : Text} (isBlank : Blank text) : visible text = [] :=
  List.filter_eq_nil_iff.mpr fun c mem => by simp [isBlank c mem]

end Text

namespace CallbackRules

open Text (Blank visible)

variable {type : Text}

/-- All that is visible in `old` is so in `new`, together with a number of types. -/
structure Grows (type : Text) (count : Nat) (old new : Text) : Prop where
  kept : (visible old).Sublist (visible new)
  length : (visible new).length = (visible old).length + (':' :: visible type).length * count

namespace Grows

theorem refl (text : Text) : Grows type 0 text text := ⟨.refl _, rfl⟩

theorem trans {first second : Nat} {old middle new : Text} (start : Grows type first old middle)
    (stop : Grows type second middle new) : Grows type (first + second) old new where
  kept := start.kept.trans stop.kept
  length := by rw [stop.length, start.length, Nat.mul_add, Nat.add_assoc]

theorem append {first second : Nat} {old old' new new' : Text} (start : Grows type first old new)
    (stop : Grows type second old' new') :
    Grows type (first + second) (old ++ old') (new ++ new') where
  kept := by
    rw [Text.visible_append, Text.visible_append]
    exact start.kept.append stop.kept
  length := by
    simp only [Text.visible_append, List.length_append, start.length, stop.length, Nat.mul_add]
    omega

theorem of_visible_eq {count : Nat} {old old' new : Text} (grows : Grows type count old new)
    (same : visible old' = visible old) : Grows type count old' new where
  kept := same ▸ grows.kept
  length := by rw [grows.length, same]

end Grows

-- ---------------------------------------------------------------------------
-- One call
-- ---------------------------------------------------------------------------

theorem grows_type (type : Text) : Grows type 1 [] (": ".toList ++ type) where
  kept := List.nil_sublist _
  length := by
    have colon : visible ": ".toList = [':'] := by decide
    have nothing : visible [] = [] := rfl
    rw [Text.visible_append, colon, nothing, Nat.mul_one, List.length_nil, Nat.zero_add]
    rfl

theorem OneName.grows {bare typed : Text} (list : OneName type bare typed) :
    Grows type 1 bare typed := by
  obtain ⟨-, rfl⟩ := list
  simpa using (Grows.refl bare).append (grows_type type)

theorem TwoNames.grows {bare typed : Text} (list : TwoNames type bare typed) :
    Grows type 2 bare typed := by
  obtain ⟨first, blank, second, isWord, isBlank, isWord', rfl, rfl⟩ := list
  have one : Grows type 1 first _ := OneName.grows ⟨isWord, rfl⟩
  have two : Grows type 1 second _ := OneName.grows ⟨isWord', rfl⟩
  have comma : Grows type 0 (',' :: blank) ", ".toList :=
    (Grows.refl _).of_visible_eq (by
      rw [Text.visible_cons (by decide), Text.visible_of_blank isBlank]
      decide)
  simpa using (one.append comma).append two

theorem Retyped.grows {name : String} {isAsync : Bool} {lists : Text → Text → Prop} {count : Nat}
    {old new : Text} (each : ∀ {bare typed}, lists bare typed → Grows type count bare typed)
    (retyped : Retyped name isAsync lists old new) : Grows type count old new := by
  obtain @⟨first, second, mark, before, bare, after, typed, h₁, h₂, h₃, h₄, list, h₅⟩ := retyped
  let start := name.toList ++ (if isAsync then "(async (" else "((").toList
  have whole := ((Grows.refl start).append (each list)).append (Grows.refl [')'])
  rw [Nat.zero_add, Nat.add_zero] at whole
  refine whole.of_visible_eq ?_
  have marked : '(' :: visible mark ++ ['('] =
      visible (if isAsync then "(async (" else "((").toList := by
    cases isAsync with
    | false =>
      obtain rfl := h₃
      decide
    | true =>
      obtain ⟨blank, isBlank, rfl⟩ := h₃
      rw [Text.visible_append, Text.visible_of_blank isBlank]
      decide
  have closes : visible [')'] = [')'] := by decide
  calc visible (name.toList ++ first ++ '(' :: second ++ mark ++
        '(' :: (before ++ bare ++ after) ++ [')'])
    _ = visible name.toList ++ ('(' :: visible mark ++ ['(']) ++ visible bare ++ [')'] := by
      simp (disch := decide) [Text.visible_cons, Text.visible_of_blank h₁,
        Text.visible_of_blank h₂, Text.visible_of_blank h₄, Text.visible_of_blank h₅, closes]
    _ = visible (start ++ bare ++ [')']) := by
      rw [marked, Text.visible_append, Text.visible_append, Text.visible_append, closes]

-- ---------------------------------------------------------------------------
-- One rule
-- ---------------------------------------------------------------------------

theorem grows_of_placed {render : Match → Text} {count offset : Nat} {text result : Text}
    {pieces : List Match} (placed : Placed render offset text pieces result)
    (each : ∀ piece ∈ pieces, Grows type count piece.text (render piece)) :
    Grows type (count * pieces.length) text result := by
  induction placed with
  | none => exact .refl _
  | @piece offset before after result piece rest start _ _ _ ih =>
    obtain ⟨first, later⟩ := List.forall_mem_cons.mp each
    have whole := ((Grows.refl before).append first).append (ih later)
    have total : 0 + count + count * rest.length = count * (rest.length + 1) := by
      rw [Nat.zero_add, Nat.mul_succ, Nat.add_comm]
    rwa [total] at whole

theorem grows_rewrite {rule : Rule Pattern} {count : Nat} (solid : rule.Solid)
    (turned : ∀ {old new}, rule.Turns old new → Turned type old new)
    (grows : ∀ {old new}, rule.Turns old new → Grows type count old new) (text : Text) :
    Grows type (count * rule.changeCount text) text (rule.rewrite text) := by
  have turns : ∀ piece ∈ rule.action.pieces text,
      rule.Turns piece.text (rule.action.replacement piece) := by
    intro piece mem
    obtain ⟨offset, rest, found⟩ := Rule.find_of_mem_pieces mem
    exact (Rule.turns_of_found solid found).2
  have all : rule.changeCount text = (rule.action.pieces text).length :=
    List.countP_eq_length.mpr fun piece mem => by simpa using (turned (turns piece mem)).ne
  rw [all]
  exact grows_of_placed (rule.placed_pieces text) fun piece mem => grows (turns piece mem)

-- ---------------------------------------------------------------------------
-- The group
-- ---------------------------------------------------------------------------

/-- How many parameters the rule of that name gives a type in each call. -/
def parametersOf (label : String) : Nat := if label = ".sort((a, b))" then 2 else 1

/-- How many types the edits of some rules have added. -/
def typesAdded (hits : List RuleHit) : Nat :=
  hits.foldr (fun hit count => parametersOf hit.rule * hit.edits + count) 0

theorem grows_of_mem {type : String} {rule : Rule Pattern} (mem : rule ∈ (group type).rules)
    (text : Text) : Grows type.toList (parametersOf rule.name * rule.changeCount text) text
      (rule.rewrite text) := by
  have solid := solid_of_mem mem
  refine grows_rewrite solid (turned_of_turns mem) (fun turn => ?_) text
  simp only [group, List.cons_append, List.mem_cons, List.mem_append, List.mem_map,
    List.not_mem_nil, or_false] at mem
  rcases mem with rfl | ⟨callback, mem, rfl⟩ | rfl
  · exact (turns_singleRule.mp turn).grows OneName.grows
  · have single : ∀ callback ∈ callbacks, parametersOf (callbackRule [] callback).name = 1 := by
      decide
    have count : parametersOf (callbackRule type.toList callback).name = 1 := single callback mem
    rw [count]
    exact (turns_singleRule.mp turn).grows OneName.grows
  · exact (turns_sortRule.mp turn).grows TwoNames.grows

theorem grows_rewritten {rules : List (Rule Pattern)}
    (each : ∀ rule ∈ rules, ∀ text,
      Grows type (parametersOf rule.name * rule.changeCount text) text (rule.rewrite text))
    (text : Text) : Grows type (typesAdded (RuleGroup.firings rules text)) text
      (RuleGroup.rewritten rules text) := by
  induction rules generalizing text with
  | nil => exact .refl text
  | cons rule rest ih =>
    obtain ⟨first, later⟩ := List.forall_mem_cons.mp each
    have whole := (first text).trans (ih later (rule.rewrite text))
    rw [RuleGroup.rewritten_cons, RuleGroup.firings]
    by_cases fires : 0 < rule.changeCount text
    · simpa [fires, typesAdded] using whole
    · obtain none : rule.changeCount text = 0 := by omega
      simpa [none] using whole

/-- The group never fails. What is visible in a text is still there in its order after the group,
and besides it only a colon and the type for each parameter that the hits count. -/
theorem apply_keeps_visible (type : String) (source : Text) :
    ∃ revision?, (group type).apply source = .ok revision? ∧
      let result := (revision?.map (·.content)).getD source
      let hits := (revision?.map (·.hits)).getD []
      (visible source).Sublist (visible result) ∧
        (visible result).length =
          (visible source).length + (':' :: visible type.toList).length * typesAdded hits := by
  refine ⟨_, (group type).apply_eq_ok source, ?_⟩
  cases revised : (group type).revision? source with
  | none => exact ⟨.refl _, rfl⟩
  | some revision =>
    obtain ⟨content, hits, -⟩ := RuleGroup.revision?_eq_some revised
    have grows := grows_rewritten (fun rule (mem : rule ∈ (group type).rules) => grows_of_mem mem)
      source
    rw [← content, ← hits] at grows
    exact ⟨grows.kept, grows.length⟩

end CallbackRules

end Codemod
