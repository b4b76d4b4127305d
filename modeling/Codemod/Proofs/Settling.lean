import Codemod.Proofs.Tokens

/-!
# Running the enum rules again

Every enum rule shortens the text, so a text comes out as it went in only if
there is nothing to find in it: no stale import and no token (`settled_iff`).
Tokens are all gone after one run. Imports need not be. What stands on the two
sides of a removed import may join to another one, and the type that replaces a
token may end a name that then starts like the namespace. `Tidy` texts are those
in which neither can happen, and they are done after one run
(`revised_again_iff`).
-/

namespace Codemod.EnumRules

open EnumTable
open RuleGroup (rewritten rewritten_induction)
open Text (Blank Holds)

-- ---------------------------------------------------------------------------
-- Shorter texts
-- ---------------------------------------------------------------------------

def Shorter (old new : Text) : Prop := byteSize new < byteSize old

theorem onward_shorter : Text.Onward Shorter where
  irrefl _ := Nat.lt_irrefl _
  trans first second := Nat.lt_trans second first
  part front back shorter := by
    simp only [Shorter, byteSize_append] at shorter ⊢
    omega

theorem shorter_of_mem_importRules {table : EnumTable} {rule : Rule Pattern}
    (mem : rule ∈ importRules table) {old new : Text} (turn : rule.Turns old new) :
    Shorter old new := by
  have nonempty : old ≠ [] := List.ne_nil_of_mem (brace_of_turns mem turn)
  have empty : new = [] := by
    simp only [importRules, List.mem_append, List.mem_map, List.mem_singleton] at mem
    rcases mem with ⟨symbol, -, rfl⟩ | rfl <;> exact turn.choose_spec.2
  rw [Shorter, empty, byteSize_nil, Nat.pos_iff_ne_zero]
  exact mt byteSize_eq_zero.mp nonempty

-- ---------------------------------------------------------------------------
-- The built-in tokens
-- ---------------------------------------------------------------------------

/-- What the token rules of the built-in table replace, and by what. -/
inductive Substitutes : (old new : Text) → Prop
  | value {enum : String × List String} {value : String} (_ : enum ∈ builtInEnums)
      (_ : value ∈ enum.2) :
      Substitutes (enum.1.toList ++ '.' :: value.toList) ('"' :: value.toList ++ ['"'])
  | error : Substitutes requestError.toList "any".toList

theorem substitutes_of_turns {rule : Rule Pattern} (mem : rule ∈ tokenRules builtIn)
    {old new : Text} (turn : rule.Turns old new) : Substitutes old new := by
  simp only [tokenRules, List.mem_append, List.mem_map, List.mem_singleton] at mem
  rcases mem with ⟨entry, mem, rfl⟩ | rfl
  · simp only [builtIn, List.mem_flatMap, List.mem_map] at mem
    obtain ⟨enum, known, value, mem, rfl⟩ := mem
    obtain ⟨-, rfl, rfl⟩ := turn
    simpa [token, quoted] using Substitutes.value known mem
  · obtain ⟨-, rfl, rfl⟩ := turn
    exact .error

theorem solid_of_mem_tokenRules {table : EnumTable} {rule : Rule Pattern}
    (mem : rule ∈ tokenRules table) : rule.Solid := by
  simp only [tokenRules, List.mem_append, List.mem_map, List.mem_singleton] at mem
  rcases mem with ⟨entry, -, rfl⟩ | rfl <;> exact solid_literal _ _

theorem undivided_of_mem {enum : String × List String} {value : String}
    (known : enum ∈ builtInEnums) (mem : value ∈ enum.2) :
    Undivided enum.1.toList ∧ Undivided value.toList :=
  ⟨(undivided_of_isIdentifier (identifiers_builtInEnums enum known).1).1,
    (undivided_of_isIdentifier ((identifiers_builtInEnums enum known).2 value mem)).1⟩

theorem clear_quoted {value word : Text} {missing : Char} (absent : '"' ∉ word)
    (mem : missing ∈ word) (lacks : missing ∉ value) :
    Clear ('"' :: value ++ ['"']) word ∧ Clear word ('"' :: value ++ ['"']) := by
  have ne : missing ≠ '"' := fun same => absent (same ▸ mem)
  exact ⟨.of_not_mem absent, .of_last absent mem (by simp [ne, lacks])⟩

namespace Substitutes

variable {old new : Text}

theorem shortens (h : Substitutes old new) : Shorter old new := by
  cases h with
  | @value enum value known mem =>
    have long : ∀ enum ∈ builtInEnums, 2 ≤ byteSize enum.1.toList := by decide +kernel
    have sizes : '.'.utf8Size = 1 ∧ '"'.utf8Size = 1 := by decide
    have := long enum known
    simp only [Shorter, byteSize_append, byteSize_cons, byteSize_nil, sizes]
    omega
  | error =>
    show byteSize "any".toList < byteSize requestError.toList
    decide

theorem apart {piece result : Text} (h : Substitutes old new) (h' : Substitutes piece result) :
    Clear new piece ∧ Clear piece new := by
  have dot {enum : String × List String} {value : String} (known : enum ∈ builtInEnums)
      (mem : value ∈ enum.2) : '.' ∉ value.toList :=
    (undivided_of_mem known mem).2.not_mem (by decide)
  cases h with
  | @value enum value known mem =>
    cases h' with
    | @value enum' value' known' mem' =>
      have undivided := undivided_of_mem known' mem'
      have quote {text : Text} (h : Undivided text) : '"' ∉ text := h.not_mem (by decide)
      exact clear_quoted (by simp [quote undivided.1, quote undivided.2]) (by simp) (dot known mem)
    | error => exact clear_quoted (by decide) (by decide : '.' ∈ _) (dot known mem)
  | error =>
    cases h' with
    | @value enum value known mem =>
      have all : ∀ enum ∈ builtInEnums, ∀ value ∈ enum.2,
          Clear "any".toList (enum.1.toList ++ '.' :: value.toList) ∧
            Clear (enum.1.toList ++ '.' :: value.toList) "any".toList := by decide +kernel
      exact all enum known value mem
    | error => decide +kernel

theorem clear_symbol (h : Substitutes old new) {symbol : String} (mem : symbol ∈ builtIn.symbols) :
    Clear new symbol.toList ∧ Clear symbol.toList new := by
  cases h with
  | @value enum value known isValue =>
    have small : ∀ symbol ∈ builtIn.symbols,
        '"' ∉ symbol.toList ∧ symbol.toList.any (·.isLower) = true := by decide +kernel
    have capital : ∀ enum ∈ builtInEnums, ∀ value ∈ enum.2,
        value.toList.all (!·.isLower) = true := by decide +kernel
    obtain ⟨absent, letter⟩ := small symbol mem
    obtain ⟨c, isLetter, isLower⟩ := List.any_eq_true.mp letter
    refine clear_quoted absent isLetter fun inValue => ?_
    simpa [isLower] using List.all_eq_true.mp (capital enum known value isValue) c inValue
  | error =>
    have all : ∀ symbol ∈ builtIn.symbols,
        Clear "any".toList symbol.toList ∧ Clear symbol.toList "any".toList := by decide +kernel
    exact all symbol mem

end Substitutes

theorem clear_module {c : Char} {rest : Text} (undivided : c ∉ dividers) :
    Clear ('"' :: c :: rest) ('"' :: builtIn.module.toList ++ "\";".toList) := by
  have ne : c ≠ '@' ∧ c ≠ ';' := by
    constructor <;> (rintro rfl; exact undivided (by decide))
  have stop : Clear ('"' :: c :: rest) "\";".toList := by
    simp [Clear, ne.2, ne.2.symm]
  have whole : Clear ('"' :: c :: rest) (builtIn.module.toList ++ "\";".toList) :=
    stop.append_left (by decide)
  refine ⟨?_, whole⟩
  simp [builtIn, ne.1, ne.1.symm]

theorem Substitutes.spares {old new : Text} (h : Substitutes old new) :
    Spares builtIn.module old new := by
  cases h with
  | @value enum value known mem =>
    obtain ⟨undivided, undivided'⟩ := undivided_of_mem known mem
    have ne := (undivided_of_isIdentifier ((identifiers_builtInEnums enum known).2 value mem)).2
    obtain ⟨c, rest, spelled⟩ := List.exists_cons_of_ne_nil ne
    have divider : c ∉ dividers := undivided' c (by simp [spelled])
    refine ⟨?_, fun opening => ?_, fun closing => ?_⟩
    · have brace {text : Text} (h : Undivided text) : '}' ∉ text := h.not_mem (by decide)
      simp [brace undivided, brace undivided']
    · exact clear_quoted (opening.not_mem (by decide) (by decide)) opening.brace
        (undivided'.not_mem (by decide))
    · rw [spelled]
      exact clear_closing (by decide) (by decide) (clear_module divider) closing
  | error =>
    refine ⟨by decide, fun opening => ⟨?_, ?_⟩, fun closing => ?_⟩
    · exact Clear.of_not_mem (opening.not_mem (by decide) (by decide))
    · obtain ⟨blank, -, rfl⟩ := opening
      exact Clear.of_not_mem (by decide)
    · exact clear_closing (by decide) (by decide) (by decide +kernel) closing

-- ---------------------------------------------------------------------------
-- Nothing left to do
-- ---------------------------------------------------------------------------

theorem braceless_builtIn : Braceless builtIn := by
  unfold Braceless
  decide +kernel

theorem solid_of_mem_group {table : EnumTable} {rule : Rule Pattern}
    (mem : rule ∈ (group table).rules) : rule.Solid := by
  rcases List.mem_append.mp mem with mem | mem
  · exact solid_of_mem_importRules mem
  · exact solid_of_mem_tokenRules mem

theorem advances_builtIn (module : String) :
    ∀ rule ∈ (group { builtIn with module }).rules, rule.Advances Shorter := by
  refine fun rule mem => ⟨solid_of_mem_group mem, fun turn => ?_⟩
  rcases List.mem_append.mp mem with mem | mem
  · exact shorter_of_mem_importRules mem turn
  · have known : rule ∈ tokenRules builtIn := mem
    exact (substitutes_of_turns known turn).shortens

/-- All rules shorten the text, so none makes up for another: a text comes out as it went in only
if there is nothing to find in it. -/
theorem settled_iff {text : Text} : (group builtIn).apply text = .ok none ↔
    ¬ Holds (StaleImport builtIn) text ∧ ∀ rule ∈ tokenRules builtIn, rule.Idle text := by
  rw [RuleGroup.apply_eq_none_iff,
    RuleGroup.rewritten_eq_self_iff onward_shorter (advances_builtIn builtIn.module),
    ← idle_importRules_iff braceless_builtIn]
  exact List.forall_mem_append

theorem idle_tokenRules (text : Text) :
    ∀ rule ∈ tokenRules builtIn, rule.Idle (rewritten (group builtIn).rules text) := by
  have apart : ∀ rule ∈ tokenRules builtIn, ∀ other ∈ tokenRules builtIn, Rule.Apart rule other :=
    fun rule mem other mem' => .of_clear fun found turn =>
      (substitutes_of_turns mem turn).apart (substitutes_of_turns mem' found)
  rw [group, RuleGroup.rewritten_append]
  exact RuleGroup.idle_rewritten (fun _ => solid_of_mem_tokenRules) apart _

-- ---------------------------------------------------------------------------
-- Removing imports
-- ---------------------------------------------------------------------------

section

variable {table : EnumTable}

/-- The beginning of an import of the module that goes no further. -/
def Unfinished (module : String) (text : Text) : Prop :=
  text ≠ [] ∧ ∃ rest body, rest ≠ [] ∧ Imports module body (text ++ rest)

/-- A stale import right behind an unfinished one, which the text that follows may finish as soon
as the stale import is gone. -/
def Interrupted (table : EnumTable) (text : Text) : Prop :=
  ∃ start stmt, Unfinished table.module start ∧ StaleImport table stmt ∧ text = start ++ stmt

/-- The first name starts with the namespace once the token in it is replaced by the type `any`. -/
def Buds (body : Text) : Prop :=
  ∃ blank, Blank blank ∧ blank ++ ("Prism" ++ requestError).toList <+: body

def Budding (module : String) (text : Text) : Prop := ∃ body, Buds body ∧ Imports module body text

structure Tidy (table : EnumTable) (text : Text) : Prop where
  uninterrupted : ¬ Holds (Interrupted table) text
  unbudding : ¬ Holds (Budding table.module) text

/-- Wherever a text of the language is cut in two, an unfinished import ends. -/
def Cuts (module : String) (language : Text → Prop) : Prop :=
  ∀ front back, front ≠ [] → back ≠ [] → language (front ++ back) →
    ∃ stem part, front = stem ++ part ∧ Unfinished module part

theorem Imports.ne_nil {module : String} {body text : Text} (h : Imports module body text) :
    text ≠ [] := by
  cases h with
  | mk opening _ _ => exact List.ne_nil_of_mem (by simp : '}' ∈ _)

theorem cuts_of_imports {module : String} {language : Text → Prop}
    (imports : ∀ text, language text → ∃ body, Imports module body text) :
    Cuts module language := by
  intro front back ne ne' mem
  obtain ⟨body, whole⟩ := imports _ mem
  exact ⟨[], front, rfl, ne, back, body, ne', whole⟩

theorem cuts_interrupted : Cuts table.module (Interrupted table) := by
  rintro front back ne ne' ⟨start, stmt, unfinished, ⟨body, -, imports⟩, split⟩
  rcases List.append_eq_append_iff.mp split with ⟨more, rfl, -⟩ | ⟨part, rfl, rfl⟩
  · -- the cut lies within the first of the two
    obtain ⟨-, rest, body, restNe, whole⟩ := unfinished
    refine ⟨[], front, rfl, ne, more ++ rest, body, by simp [restNe], ?_⟩
    rwa [← List.append_assoc]
  · by_cases empty : part = []
    · exact ⟨[], start, by simp [empty], unfinished⟩
    · exact ⟨start, part, rfl, empty, back, body, ne', imports⟩

theorem kept_of_uninterrupted (braceless : Braceless table) {rule : Rule Pattern}
    (mem : rule ∈ importRules table) {language : Text → Prop} (cuts : Cuts table.module language)
    (nonempty : ¬ language []) {text : Text} (tidy : ¬ Holds (Interrupted table) text)
    (holds : Holds language (rule.rewrite text)) :
    ∃ piece rest, language piece ∧ piece <+: rest ∧ rest <:+ text ∧
      ∀ old new, rule.Turns old new → ¬ old <+: rest := by
  have across : ∀ front back old new after later, front ≠ [] → back ≠ [] →
      language (front ++ back) → rule.Turns old new → front ++ old ++ after <:+ text →
      ¬ back <+: new ++ later := by
    intro front back old new after later ne ne' member turn suffix _
    obtain ⟨stem, part, rfl, unfinished⟩ := cuts front back ne ne' member
    obtain ⟨-, stmt, ending, stale, -, -, rfl⟩ := stale_of_turns braceless mem turn
    refine tidy ⟨part ++ stmt, ⟨part, stmt, unfinished, stale, rfl⟩, ?_⟩
    exact List.IsInfix.trans ⟨stem, ending ++ after, by simp⟩ suffix.isInfix
  cases (Rule.scanned_rewrite (solid_of_mem_importRules mem) text).origin nonempty across holds with
  | kept member start suffix none => exact ⟨_, _, member, start, suffix, none⟩
  | inside _ turn _ ne suffix _ =>
    obtain ⟨rfl, -⟩ := stale_of_turns braceless mem turn
    exact absurd (List.suffix_nil.mp suffix) ne

theorem Tidy.removal (braceless : Braceless table) {rule : Rule Pattern}
    (mem : rule ∈ importRules table) {text : Text} (tidy : Tidy table text) :
    Tidy table (rule.rewrite text) := by
  refine ⟨fun holds => ?_, fun holds => ?_⟩
  · have nonempty : ¬ Interrupted table [] := by
      rintro ⟨start, stmt, ⟨ne, -⟩, -, split⟩
      exact ne (List.append_eq_nil_iff.mp split.symm).1
    obtain ⟨piece, rest, member, start, suffix, -⟩ :=
      kept_of_uninterrupted braceless mem cuts_interrupted nonempty tidy.uninterrupted holds
    exact tidy.uninterrupted ⟨piece, member, start.isInfix.trans suffix.isInfix⟩
  · have cuts : Cuts table.module (Budding table.module) :=
      cuts_of_imports fun _ ⟨body, _, imports⟩ => ⟨body, imports⟩
    obtain ⟨piece, rest, member, start, suffix, -⟩ := kept_of_uninterrupted braceless mem cuts
      (fun ⟨_, _, imports⟩ => imports.ne_nil rfl) tidy.uninterrupted holds
    exact tidy.unbudding ⟨piece, member, start.isInfix.trans suffix.isInfix⟩

def Removed (table : EnumTable) (rule : Rule Pattern) (text : Text) : Prop :=
  rule.Turns text [] ∧ ∃ body, Imports table.module body text

theorem not_idle_iff_removed (braceless : Braceless table) {rule : Rule Pattern}
    (mem : rule ∈ importRules table) {text : Text} :
    ¬ rule.Idle text ↔ Holds (Removed table rule) text := by
  rw [Rule.Idle, not_not]
  constructor
  · rintro ⟨old, ⟨new, turn⟩, stands⟩
    obtain ⟨-, stmt, ending, ⟨body, -, imports⟩, removed, -, rfl⟩ :=
      stale_of_turns braceless mem turn
    exact ⟨stmt, ⟨removed, body, imports⟩, (List.prefix_append stmt ending).isInfix.trans stands⟩
  · rintro ⟨stmt, ⟨removed, -⟩, stands⟩
    exact ⟨stmt, ⟨[], removed⟩, stands⟩

theorem Tidy.kept_of_busy (braceless : Braceless table) {rule other : Rule Pattern}
    (mem : rule ∈ importRules table) (mem' : other ∈ importRules table) {text : Text}
    (tidy : Tidy table text) (busy : ¬ other.Idle (rule.rewrite text)) :
    ∃ piece rest, other.Turns piece [] ∧ piece <+: rest ∧ rest <:+ text ∧
      ∀ old new, rule.Turns old new → ¬ old <+: rest := by
  have cuts : Cuts table.module (Removed table other) := cuts_of_imports fun _ removed => removed.2
  have holds := (not_idle_iff_removed braceless mem').mp busy
  obtain ⟨piece, rest, removed, start, suffix, none⟩ := kept_of_uninterrupted braceless mem cuts
    (fun ⟨_, _, imports⟩ => imports.ne_nil rfl) tidy.uninterrupted holds
  exact ⟨piece, rest, removed.1, start, suffix, none⟩

theorem Tidy.idle_importRules (braceless : Braceless table) {text : Text} (tidy : Tidy table text) :
    ∀ rule ∈ importRules table, rule.Idle (rewritten (importRules table) text) := by
  refine RuleGroup.idle_rewritten_of (Tidy table)
    (fun rule mem _ => Tidy.removal braceless mem) ?_ ?_ tidy
  · intro rule mem text tidy
    by_contra busy
    obtain ⟨piece, rest, found, start, -, none⟩ := tidy.kept_of_busy braceless mem mem busy
    exact none piece [] found start
  · intro rule mem other mem' text tidy idle
    by_contra busy
    obtain ⟨piece, rest, found, start, suffix, -⟩ := tidy.kept_of_busy braceless mem mem' busy
    exact idle ⟨piece, ⟨[], found⟩, start.isInfix.trans suffix.isInfix⟩

end

-- ---------------------------------------------------------------------------
-- Replacing tokens
-- ---------------------------------------------------------------------------

theorem Substitutes.clear_append {old new blank word : Text} (h : Substitutes old new)
    (isBlank : Blank blank) (absent : '"' ∉ word) (clear : Clear "any".toList word) :
    Clear new (blank ++ word) := by
  cases h with
  | value => exact (Clear.of_not_mem absent).append_left (not_mem_of_blank isBlank (by decide))
  | error => exact clear.append_left (not_mem_of_blank isBlank (by decide))

section

variable {turns : Text → Text → Prop} (substitutes : ∀ old new, turns old new → Substitutes old new)

include substitutes

theorem stale_of_scanned {body result : Text} (scanned : Scanned turns body result)
    (stale : Stale builtIn result) : Stale builtIn body ∨ Buds body := by
  rcases stale with ⟨symbol, known, before, after, rfl⟩ | ⟨blank, isBlank, more, rfl⟩
  · have named : ∀ symbol ∈ builtIn.symbols, symbol.toList ≠ [] := by decide +kernel
    obtain ⟨start, rest, rfl, -⟩ := scanned.of_append_word (named symbol known) fun old new turn =>
      (substitutes old new turn).clear_symbol known
    exact .inl (.inl ⟨symbol, known, start, rest, rfl⟩)
  · have cut : blank ++ namespaceName.toList ++ more =
        (blank ++ "Prism".toList) ++ 'a' :: more := by simp [namespaceName]
    rw [cut] at scanned
    obtain ⟨rest, rfl, inner⟩ := scanned.of_append fun old new turn =>
      (substitutes old new turn).clear_append isBlank (by decide) (by decide)
    -- what follows is the last letter of the namespace, or the start of a replacement
    generalize whole : 'a' :: more = result at inner
    cases inner with
    | nil => cases whole
    | @keep c rest result none tail =>
      obtain ⟨rfl, rfl⟩ := List.cons.inj whole
      exact .inl (.inr ⟨blank, isBlank, rest, by simp [namespaceName]⟩)
    | @swap old new rest result turn tail =>
      cases substitutes old new turn with
      | value known mem => simp at whole
      | error => exact .inr ⟨blank, isBlank, rest, by simp⟩

theorem not_budding_of_scanned {text result : Text} (scanned : Scanned turns text result)
    (none : ¬ Holds (Budding builtIn.module) text) : ¬ Holds (Budding builtIn.module) result := by
  rintro ⟨stmt, ⟨_, ⟨blank, isBlank, more, rfl⟩, imports⟩, stands⟩
  obtain ⟨body', stmt', imports', stands', inner⟩ := exists_of_scanned
    (fun old new turn => (substitutes old new turn).spares) scanned imports stands
  obtain ⟨rest, rfl, -⟩ := inner.of_append fun old new turn =>
    (substitutes old new turn).clear_append isBlank (by decide +kernel) (by decide +kernel)
  have buds : Buds (blank ++ ("Prism" ++ requestError).toList ++ rest) :=
    ⟨blank, isBlank, List.prefix_append _ rest⟩
  exact none ⟨stmt', ⟨_, buds, imports'⟩, stands'⟩

theorem not_stale_of_scanned {text result : Text} (scanned : Scanned turns text result)
    (none : ¬ Holds (StaleImport builtIn) text) (none' : ¬ Holds (Budding builtIn.module) text) :
    ¬ Holds (StaleImport builtIn) result := by
  rintro ⟨stmt, ⟨body, stale, imports⟩, stands⟩
  obtain ⟨body', stmt', imports', stands', inner⟩ := exists_of_scanned
    (fun old new turn => (substitutes old new turn).spares) scanned imports stands
  rcases stale_of_scanned substitutes inner stale with stale' | buds
  · exact none ⟨stmt', ⟨body', stale', imports'⟩, stands'⟩
  · exact none' ⟨stmt', ⟨body', buds, imports'⟩, stands'⟩

end

theorem Tidy.not_stale {source : Text} (tidy : Tidy builtIn source) :
    ¬ Holds (StaleImport builtIn) (rewritten (group builtIn).rules source) := by
  rw [group, RuleGroup.rewritten_append]
  have removed := (idle_importRules_iff braceless_builtIn).mp
    (tidy.idle_importRules braceless_builtIn)
  have stays : Tidy builtIn (rewritten (importRules builtIn) source) :=
    rewritten_induction (Tidy builtIn) (fun rule mem _ => Tidy.removal braceless_builtIn mem) tidy
  refine (rewritten_induction (fun text => ¬ Holds (StaleImport builtIn) text ∧
    ¬ Holds (Budding builtIn.module) text) ?_ ⟨removed, stays.unbudding⟩).1
  intro rule mem text h
  have scanned := Rule.scanned_rewrite (solid_of_mem_tokenRules mem) text
  have substitutes : ∀ old new, rule.Turns old new → Substitutes old new :=
    fun _ _ => substitutes_of_turns mem
  exact ⟨not_stale_of_scanned substitutes scanned h.1 h.2,
    not_budding_of_scanned substitutes scanned h.2⟩

/-- Running the group again changes nothing exactly if the first run has left no stale import. It
leaves none in a tidy text. -/
theorem revised_again_iff (source : Text) :
    ((group builtIn).apply ((group builtIn).revised source) = .ok none ↔
      ¬ Holds (StaleImport builtIn) ((group builtIn).revised source)) ∧
    (Tidy builtIn source → (group builtIn).apply ((group builtIn).revised source) = .ok none) := by
  rw [settled_iff, RuleGroup.revised_eq_rewritten]
  have idle := idle_tokenRules source
  exact ⟨and_iff_left idle, fun tidy => ⟨tidy.not_stale, idle⟩⟩

theorem StaleImport.starts {table : EnumTable} {text : Text} (h : StaleImport table text) :
    "import".toList <+: text := by
  obtain ⟨body, -, @⟨_, closing, ⟨blank, -, rfl⟩, -, -⟩⟩ := h
  exact ⟨blank ++ ['{'] ++ body ++ '}' :: closing, by simp only [List.append_assoc]⟩

theorem uninterrupted_of_tail {table : EnumTable} {text : Text}
    (absent : ¬ "import".toList <:+: text.tail) : ¬ Holds (Interrupted table) text := by
  rintro ⟨_, ⟨start, stmt, ⟨ne, -⟩, stale, rfl⟩, before, after, rfl⟩
  have cut : before ++ start ≠ [] := by simp [ne]
  refine absent (stale.starts.isInfix.trans ⟨(before ++ start).tail, after, ?_⟩)
  rw [← List.append_assoc before, List.append_assoc (before ++ start),
    List.tail_append_of_ne_nil cut, List.append_assoc]

theorem Budding.stands {module : String} {text : Text} (h : Budding module text) :
    ("Prism" ++ requestError).toList <:+: text := by
  obtain ⟨_, ⟨blank, -, more, rfl⟩, @⟨opening, closing, -, -, -⟩⟩ := h
  exact ⟨opening ++ blank, more ++ '}' :: closing, by simp only [List.append_assoc]⟩

theorem revised_again_single_import :
    Tidy builtIn "import \x7b OrderStatus \x7d from \"@prisma/client\";\nOrderStatus.PAID".toList ∧
      (group builtIn).apply ((group builtIn).revised
        "import \x7b OrderStatus \x7d from \"@prisma/client\";\nOrderStatus.PAID".toList) =
          .ok none := by
  have tidy : Tidy builtIn
      "import \x7b OrderStatus \x7d from \"@prisma/client\";\nOrderStatus.PAID".toList := by
    refine ⟨uninterrupted_of_tail (by decide +kernel), fun ⟨piece, buds, stands⟩ => ?_⟩
    exact absurd (buds.stands.trans stands) (by decide +kernel)
  exact ⟨tidy, (revised_again_iff _).2 tidy⟩

theorem staleImport_orderStatus :
    StaleImport builtIn "import \x7b OrderStatus \x7d from \"@prisma/client\";".toList := by
  have blank : Blank [' '] := List.forall_mem_singleton.mpr (by decide)
  have imports : Imports builtIn.module " OrderStatus ".toList _ :=
    .mk ⟨[' '], blank, rfl⟩ (by decide) ⟨[' '], [' '], blank, blank, rfl⟩
  exact ⟨_, .inl ⟨"OrderStatus", by decide, [' '], [' '], by decide⟩, imports⟩

/-- The removed import stood inside another one, which its removal has made whole. -/
theorem revised_again_changes :
    (group builtIn).revised ("imimport \x7b OrderStatus \x7d from \"@prisma/client\";" ++
        "port \x7b OrderStatus \x7d from \"@prisma/client\";").toList =
      "import \x7b OrderStatus \x7d from \"@prisma/client\";".toList ∧
    (group builtIn).apply ((group builtIn).revised
        ("imimport \x7b OrderStatus \x7d from \"@prisma/client\";" ++
          "port \x7b OrderStatus \x7d from \"@prisma/client\";").toList) ≠ .ok none := by
  have once : (group builtIn).revised ("imimport \x7b OrderStatus \x7d from \"@prisma/client\";" ++
        "port \x7b OrderStatus \x7d from \"@prisma/client\";").toList =
      "import \x7b OrderStatus \x7d from \"@prisma/client\";".toList := by decide +kernel
  refine ⟨once, fun settled => ?_⟩
  rw [once] at settled
  exact (settled_iff.mp settled).1 ⟨_, staleImport_orderStatus, List.infix_rfl⟩

end Codemod.EnumRules
