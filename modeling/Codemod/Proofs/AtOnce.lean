import Codemod.Proofs.Leftovers

/-!
# Tokens replaced at once

The token rules go over the text one after the other. `Text.replaceAtOnce` goes
over it once and replaces whatever token it meets. The two agree on a text in
which no two tokens overlap (`revised_eq_replaceAtOnce`), so the order of the
table does not matter there.

The invariant is that some of the rules have done what one scan for all their
tokens does. One more rule keeps it (`Scanned.extend`): it finds nothing in or
around the literals that are already there, and it finds all of its tokens,
as no other token has taken a part of one.
-/

namespace Codemod

/-- Goes once through a text and puts each new text in the place of its old one. -/
def Text.replaceAtOnce (entries : List (Text × Text)) : Text → Text
  | [] => []
  | c :: rest =>
    match entries.find? fun entry => entry.1 ≠ [] && entry.1.isPrefixOf (c :: rest) with
    | none => c :: replaceAtOnce entries rest
    | some (old, new) => new ++ replaceAtOnce entries (rest.drop (old.length - 1))
termination_by text => text.length
decreasing_by all_goals simp only [List.length_drop, List.length_cons]; omega

/-- No two tokens overlap in the text: where one stands, no other starts before it ends. -/
def Text.Separate (tokens : List Text) (text : Text) : Prop :=
  ∀ i < text.length, ∀ first ∈ tokens, first <+: text.drop i →
    ∀ j < i + first.length, i ≤ j → ∀ second ∈ tokens, second <+: text.drop j →
      j = i ∧ second = first

instance Text.Separate.decidable (tokens : List Text) (text : Text) :
    Decidable (Text.Separate tokens text) :=
  have inner (i : Nat) (first : Text) : Decidable (∀ j < i + first.length, i ≤ j →
      ∀ second ∈ tokens, second <+: text.drop j → j = i ∧ second = first) :=
    @Nat.decidableBallLT _ _ fun _ _ => @instDecidableForall _ _ inferInstance
      (@List.decidableBAll _ _
        (fun _ => @instDecidableForall _ _ inferInstance inferInstance) tokens)
  @Nat.decidableBallLT _ _ fun i _ =>
    @List.decidableBAll _ _
      (fun first => @instDecidableForall _ _ inferInstance (inner i first)) tokens

def Listed (entries : List (Text × Text)) (old new : Text) : Prop := (old, new) ∈ entries

namespace Text.Separate

variable {tokens : List Text} {text : Text}

theorem mono {fewer : List Text} (subset : fewer ⊆ tokens) (separate : Separate tokens text) :
    Separate fewer text :=
  fun i bound first mem start j bound' le second mem' =>
    separate i bound first (subset mem) start j bound' le second (subset mem')

theorem inside (separate : Separate tokens text) {front back after second : Text}
    (suffix : front ++ back ++ after <:+ text) (known : front ++ back ∈ tokens)
    (known' : second ∈ tokens) (ne : back ≠ []) (start : second <+: back ++ after) :
    front = [] ∧ second = back := by
  obtain ⟨before, rfl⟩ := suffix
  have positive := List.length_pos_iff.mpr ne
  have first : front ++ back <+: (before ++ (front ++ back ++ after)).drop before.length := by
    simp
  have second' : second <+:
      (before ++ (front ++ back ++ after)).drop (before.length + front.length) := by
    simpa [← List.drop_drop] using start
  obtain ⟨same, rfl⟩ := separate before.length (by simp; omega) _ known first
    (before.length + front.length) (by simp; omega) (by omega) _ known' second'
  have empty : front = [] := List.length_eq_zero_iff.mp (by omega)
  simp [empty]

end Text.Separate

namespace Scanned

variable {turns : Text → Text → Prop} {text result : Text}

theorem refl_of_nil (text : Text) : Scanned (Listed []) text text := by
  induction text with
  | nil => exact .nil
  | cons c rest ih => exact .keep (fun _ _ mem => by cases mem) ih

theorem keeps {front back : Text} (scanned : Scanned turns (front ++ back) result)
    (none : ∀ tail, tail ≠ [] → tail <:+ front → ∀ old new, turns old new →
      ¬ old <+: tail ++ back) :
    ∃ rest, result = front ++ rest ∧ Scanned turns back rest := by
  induction front generalizing result with
  | nil => exact ⟨result, rfl, scanned⟩
  | cons c front ih =>
    generalize whole : c :: front ++ back = text at scanned
    cases scanned with
    | nil => cases whole
    | @keep d rest result _ tail =>
      obtain ⟨rfl, rfl⟩ := List.cons.inj whole
      obtain ⟨rest, rfl, scanned⟩ := ih tail fun tail ne suffix =>
        none tail ne (suffix.trans (List.suffix_cons c front))
      exact ⟨rest, rfl, scanned⟩
    | @swap old new rest result turn tail =>
      have start : old <+: c :: front ++ back := ⟨rest, whole.symm⟩
      exact absurd start (none (c :: front) (by simp) List.suffix_rfl old new turn)

theorem swaps {old new rest : Text} (scanned : Scanned (Listed [(old, new)]) (old ++ rest) result)
    (ne : old ≠ []) :
    ∃ later, result = new ++ later ∧ Scanned (Listed [(old, new)]) rest later := by
  generalize whole : old ++ rest = text at scanned
  cases scanned with
  | nil => simp [ne] at whole
  | @keep c rest result none tail =>
    exact absurd ⟨_, whole⟩ (none old new (by simp [Listed]))
  | @swap old' new' rest' result turn tail =>
    obtain ⟨rfl, rfl⟩ : old' = old ∧ new' = new := by simpa [Listed] using turn
    obtain rfl := List.append_cancel_left whole
    exact ⟨result, rfl, tail⟩

section

variable {entries : List (Text × Text)} {needle literal source : Text}

/-- One more token after a scan for others: the two scans are one scan for all of them. -/
theorem extend (scanned : Scanned (Listed entries) text result) {final : Text}
    (after : Scanned (Listed [(needle, literal)]) result final)
    (ne : ∀ entry ∈ entries ++ [(needle, literal)], entry.1 ≠ [])
    (fresh : ∀ entry ∈ entries, entry.1 ≠ needle)
    (clear : ∀ entry ∈ entries, Clear entry.2 needle ∧ Clear needle entry.2)
    (separate : Text.Separate ((entries ++ [(needle, literal)]).map Prod.fst) source)
    (suffix : text <:+ source) :
    Scanned (Listed (entries ++ [(needle, literal)])) text final := by
  have known {entry : Text × Text} (mem : entry ∈ entries) :
      entry.1 ∈ (entries ++ [(needle, literal)]).map Prod.fst :=
    List.mem_map_of_mem (List.mem_append_left _ mem)
  have needle_known : needle ∈ (entries ++ [(needle, literal)]).map Prod.fst := by simp
  have needle_ne : needle ≠ [] := ne (needle, literal) (by simp)
  induction size : text.length using Nat.strongRecOn generalizing text result final with
  | _ size ih =>
    have again {rest result final : Text} (shorter : rest.length < text.length)
        (tail : rest <:+ text) (scanned : Scanned (Listed entries) rest result)
        (after : Scanned (Listed [(needle, literal)]) result final) :
        Scanned (Listed (entries ++ [(needle, literal)])) rest final :=
      ih _ (size ▸ shorter) scanned after (tail.trans suffix) rfl
    by_cases start : needle <+: text
    · -- no other token starts inside this one, so the first scan has left it as it is
      obtain ⟨rest, rfl⟩ := start
      obtain ⟨later, rfl, behind⟩ := scanned.keeps fun tail tail_ne part old new mem isPrefix => by
        obtain ⟨front, rfl⟩ := part
        obtain ⟨rfl, rfl⟩ := separate.inside suffix needle_known (known mem) tail_ne isPrefix
        exact fresh _ mem rfl
      obtain ⟨final, rfl, last⟩ := after.swaps needle_ne
      have positive := List.length_pos_iff.mpr needle_ne
      exact .swap (by simp [Listed])
        (again (by simp; omega) (List.suffix_append needle rest) behind last)
    · cases scanned with
      | nil =>
        generalize nothing : ([] : Text) = result at after
        cases after with
        | nil => exact .nil
        | keep _ _ => cases nothing
        | swap turn _ =>
          obtain ⟨rfl, -⟩ := List.append_eq_nil_iff.mp nothing.symm
          exact absurd rfl (ne _ (List.mem_append_right _ turn))
      | @keep c rest result none tail =>
        have none' : ∀ old new, Listed (entries ++ [(needle, literal)]) old new →
            ¬ old <+: c :: rest := by
          intro old new mem
          rcases List.mem_append.mp mem with mem | last
          · exact none old new mem
          · obtain ⟨rfl, rfl⟩ : old = needle ∧ new = literal := by simpa using last
            exact start
        generalize whole : c :: result = middle at after
        cases after with
        | nil => cases whole
        | @keep d later final _ after =>
          obtain ⟨rfl, rfl⟩ := List.cons.inj whole
          exact .keep none' (again (by simp) (List.suffix_cons c rest) tail after)
        | @swap old new later final turn after =>
          -- what overlaps with no literal has stood in the text from the start
          obtain ⟨rfl, rfl⟩ : old = needle ∧ new = literal := by simpa [Listed] using turn
          have scanned : Scanned (Listed entries) (c :: rest) (old ++ later) :=
            whole ▸ .keep none tail
          obtain ⟨behind, split, -⟩ := scanned.of_append fun _ _ mem => (clear _ mem).1
          exact absurd ⟨behind, split.symm⟩ start
      | @swap old new rest result turn tail =>
        obtain ⟨final, rfl, last⟩ := after.keeps fun part part_ne inner old' new' only => by
          obtain ⟨rfl, rfl⟩ : old' = needle ∧ new' = literal := by simpa [Listed] using only
          exact (clear _ turn).2.not_prefix_append' part_ne inner result
        have positive := List.length_pos_iff.mpr (ne _ (List.mem_append_left _ turn))
        exact .swap (List.mem_append_left _ turn)
          (again (by simp; omega) (List.suffix_append old rest) tail last)

theorem eq_replaceAtOnce (scanned : Scanned (Listed entries) text result)
    (ne : ∀ entry ∈ entries, entry.1 ≠ []) (nodup : (entries.map Prod.fst).Nodup)
    (separate : Text.Separate (entries.map Prod.fst) source) (suffix : text <:+ source) :
    result = Text.replaceAtOnce entries text := by
  induction scanned with
  | nil => rw [Text.replaceAtOnce]
  | @keep c rest result none tail ih =>
    have nothing : (entries.find? fun entry =>
        entry.1 ≠ [] && entry.1.isPrefixOf (c :: rest)) = Option.none := by
      refine List.find?_eq_none.mpr fun entry mem => ?_
      simp only [Bool.and_eq_true, List.isPrefixOf_iff_prefix, not_and]
      exact fun _ => none entry.1 entry.2 mem
    rw [Text.replaceAtOnce, nothing, ih ((List.suffix_cons c rest).trans suffix)]
  | @swap old new rest result turn tail ih =>
    have known {entry : Text × Text} (mem : entry ∈ entries) : entry.1 ∈ entries.map Prod.fst :=
      List.mem_map_of_mem mem
    obtain ⟨c, more, rfl⟩ := List.exists_cons_of_ne_nil (ne _ turn)
    have found : (entries.find? fun entry =>
        entry.1 ≠ [] && entry.1.isPrefixOf (c :: (more ++ rest))) = some (c :: more, new) := by
      cases first : entries.find? _ with
      | none =>
        have none := List.find?_eq_none.mp first _ turn
        simp at none
      | some entry =>
        have mem := List.mem_of_find?_eq_some first
        have stands := List.find?_some first
        simp only [Bool.and_eq_true, List.isPrefixOf_iff_prefix] at stands
        have whole : [] ++ (c :: more) ++ rest <:+ source := suffix
        obtain ⟨-, same⟩ := separate.inside whole (known turn) (known mem) (by simp) stands.2
        rw [List.inj_on_of_nodup_map nodup mem turn same]
    rw [List.cons_append, Text.replaceAtOnce, found]
    simp [ih ((List.suffix_append (c :: more) rest).trans suffix)]

end

end Scanned

namespace RuleGroup

theorem rewritten_of_edits_eq_nil {rules : List (Rule Pattern)} {text : Text}
    (none : ∀ rule ∈ rules, rule.edits text = []) : rewritten rules text = text := by
  induction rules with
  | nil => rfl
  | cons rule rest ih =>
    simp only [List.forall_mem_cons] at none
    rw [rewritten_cons, Rule.rewrite_eq_self none.1, ih none.2]

end RuleGroup

namespace EnumRules

open EnumTable
open RuleGroup (rewritten)

-- ---------------------------------------------------------------------------
-- Token rules in any order
-- ---------------------------------------------------------------------------

def substitutions (table : EnumTable) : List (String × String) :=
  table.replacements ++ [(requestError, table.fallbackType)]

def spelled (entry : String × String) : Text × Text := (entry.1.toList, entry.2.toList)

theorem tokenRules_eq (table : EnumTable) :
    tokenRules table = (substitutions table).map tokenRule := by
  simp [tokenRules, substitutions, tokenRule]

theorem scanned_tokenRule {entry : String × String} (ne : (spelled entry).1 ≠ []) (text : Text) :
    Scanned (Listed [spelled entry]) text ((tokenRule entry).rewrite text) := by
  have turns : (tokenRule entry).Turns = Listed [spelled entry] := by
    funext old new
    simp only [Listed, List.mem_singleton, spelled, Prod.mk.injEq, eq_iff_iff]
    exact ⟨fun turn => turn.2, fun same => ⟨ne, same⟩⟩
  exact turns ▸ Rule.scanned_rewrite (solid_literal _ _) text

/-- Entries that can be told apart wherever they stand next to each other: what one of them writes
has no part in common with what another one finds. -/
structure Distinct (entries : List (Text × Text)) : Prop where
  ne : ∀ entry ∈ entries, entry.1 ≠ []
  nodup : (entries.map Prod.fst).Nodup
  clear : ∀ entry ∈ entries, ∀ other ∈ entries, Clear entry.2 other.1 ∧ Clear other.1 entry.2

theorem scanned_rewritten {source : Text} (done todo : List (String × String))
    (distinct : Distinct ((done ++ todo).map spelled))
    (separate : Text.Separate (((done ++ todo).map spelled).map Prod.fst) source) {text : Text}
    (scanned : Scanned (Listed (done.map spelled)) source text) :
    Scanned (Listed ((done ++ todo).map spelled)) source
      (rewritten (todo.map tokenRule) text) := by
  induction todo generalizing done text with
  | nil => simpa using scanned
  | cons entry todo ih =>
    have all : done ++ entry :: todo = (done ++ [entry]) ++ todo := by simp
    have earlier : done.map spelled ++ [spelled entry] ⊆ (done ++ entry :: todo).map spelled := by
      rw [all, List.map_append, List.map_append]
      exact List.subset_append_left _ _
    have last : spelled entry ∈ (done ++ entry :: todo).map spelled := earlier (by simp)
    have fresh : ∀ other ∈ done.map spelled, other.1 ≠ (spelled entry).1 := by
      intro other mem same
      have nodup := distinct.nodup
      rw [List.map_append, List.map_append] at nodup
      exact List.disjoint_of_nodup_append nodup (List.mem_map_of_mem mem) (by simp [same])
    have step : Scanned (Listed ((done ++ [entry]).map spelled)) source
        ((tokenRule entry).rewrite text) := by
      rw [List.map_append]
      exact scanned.extend (scanned_tokenRule (distinct.ne _ last) text)
        (fun other mem => distinct.ne _ (earlier mem)) fresh
        (fun other mem => distinct.clear _ (earlier (List.mem_append_left _ mem)) _ last)
        (separate.mono (List.map_subset _ earlier)) List.suffix_rfl
    rw [all] at distinct separate ⊢
    exact ih (done ++ [entry]) distinct separate step

theorem Distinct.perm {entries others : List (Text × Text)} (distinct : Distinct entries)
    (perm : others.Perm entries) : Distinct others where
  ne entry mem := distinct.ne entry (perm.subset mem)
  nodup := (perm.map Prod.fst).nodup_iff.mpr distinct.nodup
  clear entry mem other mem' := distinct.clear entry (perm.subset mem) other (perm.subset mem')

theorem rewritten_eq_replaceAtOnce {entries others : List (String × String)} {source : Text}
    (distinct : Distinct (entries.map spelled))
    (separate : Text.Separate ((entries.map spelled).map Prod.fst) source)
    (perm : others.Perm entries) :
    rewritten (others.map tokenRule) source =
      Text.replaceAtOnce (entries.map spelled) source := by
  have perm' := perm.map spelled
  have listed : Listed (others.map spelled) = Listed (entries.map spelled) := by
    funext old new
    exact propext perm'.mem_iff
  have scanned := scanned_rewritten [] others (distinct.perm perm')
    (separate.mono (perm'.map Prod.fst).subset) (.refl_of_nil source)
  rw [List.nil_append, listed] at scanned
  exact scanned.eq_replaceAtOnce distinct.ne distinct.nodup separate List.suffix_rfl

-- ---------------------------------------------------------------------------
-- The built-in table
-- ---------------------------------------------------------------------------

theorem ne_nil_of_mem_substitutions {entry : String × String}
    (mem : entry ∈ substitutions builtIn) : entry.1.toList ≠ [] := by
  rcases List.mem_append.mp mem with mem | last
  · exact toList_ne_nil_of_isEntry (registered_builtIn.entries entry mem)
  · rw [List.mem_singleton.mp last]
    decide

theorem substitutes_of_mem {entry : String × String} (mem : entry ∈ substitutions builtIn) :
    Substitutes entry.1.toList entry.2.toList := by
  have rule : tokenRule entry ∈ tokenRules builtIn :=
    tokenRules_eq builtIn ▸ List.mem_map_of_mem mem
  exact substitutes_of_turns rule ⟨ne_nil_of_mem_substitutions mem, rfl, rfl⟩

theorem distinct_builtIn : Distinct ((substitutions builtIn).map spelled) where
  ne := List.forall_mem_map.mpr fun _ => ne_nil_of_mem_substitutions
  nodup := by
    have fresh : requestError ∉ builtIn.replacements.map Prod.fst := by decide +kernel
    have tokens : ((substitutions builtIn).map Prod.fst).Nodup := by
      rw [substitutions, List.map_append]
      exact registered_builtIn.nodup.append (List.nodup_singleton _)
        (List.disjoint_singleton.mpr fresh)
    have spelt := tokens.map fun _ _ => String.toList_inj.mp
    rw [List.map_map] at spelt ⊢
    exact spelt
  clear := by
    simp only [List.forall_mem_map]
    exact fun entry mem other mem' => (substitutes_of_mem mem).apart (substitutes_of_mem mem')

/-- Where no import goes and no two tokens overlap, the group replaces all tokens at once, each by
its own literal, and keeps everything else. The order of the entries does not matter. -/
theorem revised_eq_replaceAtOnce {source : Text}
    (untouched : ∀ rule ∈ importRules builtIn, rule.edits source = [])
    (separate : Text.Separate ((substitutions builtIn).map fun entry => entry.1.toList) source) :
    (group builtIn).revised source =
        Text.replaceAtOnce ((substitutions builtIn).map spelled) source ∧
      ∀ entries, entries.Perm builtIn.replacements →
        (group { builtIn with replacements := entries }).revised source =
          (group builtIn).revised source := by
  have any {entries : List (String × String)} (perm : entries.Perm builtIn.replacements) :
      (group { builtIn with replacements := entries }).revised source =
        Text.replaceAtOnce ((substitutions builtIn).map spelled) source := by
    have imports : importRules { builtIn with replacements := entries } = importRules builtIn := rfl
    rw [RuleGroup.revised_eq_rewritten, group, RuleGroup.rewritten_append, imports,
      RuleGroup.rewritten_of_edits_eq_nil untouched, tokenRules_eq]
    exact rewritten_eq_replaceAtOnce distinct_builtIn (by rw [List.map_map]; exact separate)
      (perm.append_right _)
  exact ⟨any (.refl _), fun entries perm => (any perm).trans (any (.refl _)).symm⟩

theorem revised_eq_replaceAtOnce_reversed :
    (∀ rule ∈ importRules builtIn,
        rule.edits "xForumTopicType.ARTISTOrderStatus.PAID_2".toList = []) ∧
      builtIn.replacements.reverse.Perm builtIn.replacements ∧
      (group { builtIn with replacements := builtIn.replacements.reverse }).revised
        "xForumTopicType.ARTISTOrderStatus.PAID_2".toList = "x\"ARTIST\"\"PAID\"_2".toList := by
  have untouched : ∀ rule ∈ importRules builtIn,
      rule.edits "xForumTopicType.ARTISTOrderStatus.PAID_2".toList = [] := by
    refine fun rule mem => Rule.edits_eq_nil_of_idle (solid_of_mem_importRules mem) ?_
    rintro ⟨old, ⟨new, turn⟩, stands⟩
    exact absurd (stands.mem (brace_of_turns mem turn)) (by decide)
  have perm := builtIn.replacements.reverse_perm
  obtain ⟨atOnce, anyOrder⟩ := revised_eq_replaceAtOnce untouched (by decide +kernel)
  refine ⟨untouched, perm, ?_⟩
  rw [anyOrder _ perm, atOnce]
  decide +kernel

end EnumRules

end Codemod
