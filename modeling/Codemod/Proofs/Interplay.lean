import Codemod.Proofs.Annotation
import Codemod.Proofs.Settling

/-!
# Typed callbacks and enums

The callback rules make no work for the enum rules. What they write ends with a
parenthesis and has its only dot in front, where tokens have neither, so no
token comes of it. Braces and the ends of imports stay out of their reach, and
the names that they carry over were there before. So a text that the enum rules
leave alone is still one after the callback rules (`settled_after_types`).
-/

namespace Codemod.CallbackRules

open EnumTable (builtIn builtInEnums)
open EnumRules (Imports Spares Stale StaleImport Substitutes tokenRules)
open Text (Blank Holds)

variable {type old new word : Text}

-- ---------------------------------------------------------------------------
-- Words
-- ---------------------------------------------------------------------------

def separators : List Char := ' ' :: ',' :: marks

/-- A word that no rule writes on its own account. -/
structure Foreign (type word : Text) : Prop where
  nonempty : word ≠ []
  unbroken : ∀ c ∈ word, c ∉ separators
  async : ¬ word <:+: "async".toList
  type : ¬ word <:+: type

namespace Foreign

variable {front back : Text} {c : Char}

theorem cut (h : Foreign type word) (mem : c ∈ separators) (stands : word <:+: front ++ c :: back) :
    word <:+: front ∨ word <:+: back :=
  infix_append_cons (fun inWord => h.unbroken c inWord mem) stands

theorem skip (h : Foreign type word) (mem : c ∈ separators) (stands : word <:+: c :: back) :
    word <:+: back := by
  have whole : word <:+: [] ++ c :: back := stands
  rcases h.cut mem whole with none | later
  · exact absurd (List.infix_nil.mp none) h.nonempty
  · exact later

end Foreign

theorem Annotates.infix_bare {bare typed : Text} (h : Annotates type bare typed)
    (foreign : Foreign type word) (stands : word <:+: typed) : word <:+: bare := by
  cases h with
  | @single before name after _ _ _ =>
    have parts : word <:+: name ++ ':' :: ' ' :: type := by simpa using stands
    rcases foreign.cut (by decide) parts with first | rest
    · exact first.trans ⟨before, after, rfl⟩
    · exact absurd (foreign.skip (by decide) rest) foreign.type
  | @pair before first between second after _ _ _ _ _ =>
    have parts : word <:+: first ++ ':' :: ' ' ::
        (type ++ ',' :: ' ' :: (second ++ ':' :: ' ' :: type)) := by simpa using stands
    rcases foreign.cut (by decide) parts with inFirst | rest
    · exact inFirst.trans ⟨before, ',' :: between ++ second ++ after, by simp⟩
    rcases foreign.cut (by decide) (foreign.skip (by decide) rest) with inType | rest
    · exact absurd inType foreign.type
    rcases foreign.cut (by decide) (foreign.skip (by decide) rest) with inSecond | rest
    · exact inSecond.trans ⟨before ++ first ++ ',' :: between, after, by simp⟩
    · exact absurd (foreign.skip (by decide) rest) foreign.type

theorem Turned.infix_old (h : Turned type old new) (foreign : Foreign type word)
    (stands : word <:+: new) : word <:+: old := by
  have none {P : Prop} (h : word <:+: []) : P := absurd (List.infix_nil.mp h) foreign.nonempty
  cases h with
  | @call name isAsync first second mark bare typed known _ _ _ list =>
    have parts : word <:+: name.toList ++ '(' ::
        ((if isAsync then "async".toList ++ [' '] else []) ++ '(' :: (typed ++ ')' :: [])) := by
      cases isAsync <;> simpa using stands
    rcases foreign.cut (by decide) parts with inName | rest
    · exact inName.trans ⟨[], first ++ '(' :: second ++ mark ++ '(' :: bare ++ [')'], by simp⟩
    rcases foreign.cut (by decide) rest with inMark | rest
    · cases isAsync with
      | false => exact none inMark
      | true =>
        rcases foreign.cut (by decide) inMark with inAsync | rest
        · exact absurd inAsync foreign.async
        · exact none rest
    rcases foreign.cut (by decide) rest with inList | rest
    · have inBare := list.infix_bare foreign inList
      exact inBare.trans ⟨name.toList ++ first ++ '(' :: second ++ mark ++ ['('], [')'], by simp⟩
    · exact none rest

section

variable {turns : Text → Text → Prop} (turned : ∀ old new, turns old new → Turned type old new)

include turned

theorem infix_of_scanned (foreign : Foreign type word) {text result : Text}
    (scanned : Scanned turns text result) (stands : word <:+: result) : word <:+: text := by
  have absent {c : Char} (mem : c ∈ separators) : c ∉ word :=
    fun inWord => foreign.unbroken c inWord mem
  have across : ∀ front back old new after later, front ≠ [] → back ≠ [] → front ++ back = word →
      turns old new → front ++ old ++ after <:+ text → ¬ back <+: new ++ later := by
    rintro front back old new after later - ne rfl turn - isPrefix
    obtain ⟨head, rest, isHead, rfl⟩ := (turned old new turn).typedCall.starts
    obtain ⟨c, more, rfl⟩ := List.exists_cons_of_ne_nil ne
    obtain ⟨rfl, -⟩ := List.cons_prefix_cons.mp isPrefix
    have separator : c ∈ separators := by rcases isHead with rfl | rfl <;> decide
    exact absent separator (by simp)
  have holds : Holds (· = word) result := ⟨word, rfl, stands⟩
  cases scanned.origin (fun empty => foreign.nonempty empty.symm) across holds with
  | kept mem start suffix _ => exact mem ▸ start.isInfix.trans suffix.isInfix
  | @inside piece old new tail later mem turn place ne suffix start =>
    subst mem
    have closes := (turned old new turn).typedCall.closes ne suffix
    rcases List.prefix_or_prefix_of_prefix start (List.prefix_append tail later) with
      inner | shorter
    · have inNew := inner.isInfix.trans suffix.isInfix
      exact ((turned old new turn).infix_old foreign inNew).trans place
    · exact absurd (shorter.mem closes) (absent (by decide))

end

-- ---------------------------------------------------------------------------
-- Imports and tokens
-- ---------------------------------------------------------------------------

theorem BareCall.not_brace {text : Text} (h : BareCall text) : '}' ∉ text := by
  obtain @⟨head, name, before, list, isHead, h₁, h₂, h₃⟩ := h
  have quiet {text : Text} (h : Quiet text) : '}' ∉ text := h.not_mem (by decide)
  rcases isHead with rfl | rfl <;> simp [quiet h₁, quiet h₂, quiet h₃]

theorem TypedCall.exists_front {text : Text} (h : TypedCall type text) :
    ∃ head front, (head = '.' ∨ head = '$') ∧ text = head :: front ++ [')'] ∧
      ∀ c ∈ front, c ∈ marks → c = '(' ∨ c = ':' ∨ c ∈ type := by
  obtain @⟨head, name, before, word, rest, isHead, h₁, h₂, h₃, marked⟩ := h
  refine ⟨head, name ++ '(' :: before ++ '(' :: word ++ ':' :: rest, isHead, by simp,
    fun c mem mark => ?_⟩
  have quiet {text : Text} (h : Quiet text) : c ∉ text := h.not_mem mark
  have cases : c = '(' ∨ c = ':' ∨ c ∈ rest := by
    simpa [quiet h₁, quiet h₂, quiet h₃, or_assoc] using mem
  rcases cases with rfl | rfl | mem
  · exact .inl rfl
  · exact .inr (.inl rfl)
  · exact .inr (marked c mem mark)

theorem Turned.spares (h : Turned "any".toList old new) : Spares builtIn.module old new := by
  obtain ⟨head, front, isHead, rfl, marked⟩ := h.typedCall.exists_front
  have start : head ∉ "import\x7b".toList ∧ head ∉ "from".toList ∧
      head ∉ '"' :: builtIn.module.toList ++ "\";".toList ∧ Text.isWhiteSpace head = false := by
    rcases isHead with rfl | rfl <;> decide
  have brace : '{' ∉ head :: front ++ [')'] ∧ '}' ∉ head :: front ++ [')'] := by
    have inner : '{' ∉ front ∧ '}' ∉ front := by
      constructor <;> exact fun mem => absurd (marked _ mem (by decide)) (by decide)
    rcases isHead with rfl | rfl <;> simp [inner]
  refine ⟨⟨h.bareCall.not_brace, brace.2⟩, fun opening => ⟨?_, ?_⟩, fun closing => ?_⟩
  · exact .of_not_mem (opening.not_mem start.1 start.2.2.2)
  · exact .of_last (opening.not_mem (by decide) (by decide)) opening.brace brace.1
  · exact EnumRules.clear_closing start.2.1 start.2.2.2 (.of_not_mem start.2.2.1) closing

theorem dotted_of_substitutes (h : Substitutes old new) :
    ∃ name capital rest, old = name ++ '.' :: capital :: rest ∧ name ≠ [] ∧
      capital.isLower = false ∧ Quiet name ∧ Quiet (capital :: rest) := by
  cases h with
  | @value enum value known mem =>
    have all : ∀ enum ∈ builtInEnums, ∀ value ∈ enum.2, value.toList.any (·.isLower) = false ∧
        value.toList ≠ [] ∧ enum.1.toList ≠ [] ∧ Quiet enum.1.toList ∧ Quiet value.toList := by
      decide +kernel
    obtain ⟨capitals, ne, ne', quiet, quiet'⟩ := all enum known value mem
    obtain ⟨capital, rest, spelled⟩ := List.exists_cons_of_ne_nil ne
    rw [spelled] at capitals quiet' ⊢
    have isCapital : capital.isLower = false := by simpa using List.any_eq_false.mp capitals capital
    exact ⟨_, capital, rest, rfl, ne', isCapital, quiet, quiet'⟩
  | error =>
    have quiet : Quiet "Prisma".toList ∧ Quiet "PrismaClientKnownRequestError".toList := by
      decide
    exact ⟨"Prisma".toList, 'P', "rismaClientKnownRequestError".toList, by decide, by decide,
      by decide, quiet.1, quiet.2⟩

theorem small_of_mem_methods {name : String} (known : name ∈ methods) :
    (∃ rest, name.toList = '$' :: rest) ∨
      ∃ small rest, name.toList = '.' :: small :: rest ∧ small.isLower = true := by
  have all : ∀ name ∈ methods, name.toList.head? = some '$' ∨
      name.toList.head? = some '.' ∧ name.toList.tail.head?.any (·.isLower) = true := by
    decide +kernel
  rcases all name known with dollar | ⟨dot, lower⟩
  · exact .inl (List.head?_eq_some_iff.mp dollar)
  · obtain ⟨tail, spelled⟩ := List.head?_eq_some_iff.mp dot
    rw [spelled, List.tail_cons] at lower
    cases tail with
    | nil => cases lower
    | cons small rest => exact .inr ⟨small, rest, spelled, lower⟩

theorem Turned.clear_token {piece result : Text} (h : Turned "any".toList old new)
    (token : Substitutes piece result) : Clear new piece ∧ Clear piece new := by
  obtain ⟨name, capital, rest, rfl, ne, isCapital, quiet, quiet'⟩ := dotted_of_substitutes token
  constructor
  · cases h with
    | call known =>
      refine Clear.append_right (Clear.append_right (Clear.append_right ?_ _) _) _
      rcases small_of_mem_methods known with ⟨more, spelled⟩ | ⟨small, more, spelled, isSmall⟩
      · have dollar {text : Text} (h : Quiet text) : '$' ∉ text := h.not_mem (by decide)
        rw [spelled]
        exact .of_not_mem (by simp [dollar quiet, dollar quiet'])
      · have differ : small ≠ capital := by
          rintro rfl
          exact Bool.false_ne_true (isCapital.symm.trans isSmall)
        have behind : Clear ('.' :: small :: more) (capital :: rest) :=
          .of_not_mem (quiet'.not_mem (by decide))
        have here : Clear ('.' :: small :: more) ('.' :: capital :: rest) :=
          ⟨by simp [differ, differ.symm], behind⟩
        rw [spelled]
        exact here.append_left (quiet.not_mem (by decide))
  · obtain ⟨head, front, isHead, rfl, marked⟩ := h.typedCall.exists_front
    have closes : ')' ∉ name ++ '.' :: capital :: rest := by
      have paren {text : Text} (h : Quiet text) : ')' ∉ text := h.not_mem (by decide)
      simp [paren quiet, paren quiet']
    have dotless : '.' ∉ front ++ [')'] := by
      have inner : '.' ∉ front := fun mem => absurd (marked _ mem (by decide)) (by decide)
      simp [inner]
    refine ⟨⟨fun isPrefix => closes (isPrefix.mem (by simp)), fun isPrefix => ?_⟩,
      .of_last closes (by simp) dotless⟩
    obtain ⟨c, more, rfl⟩ := List.exists_cons_of_ne_nil ne
    obtain ⟨rfl, -⟩ := List.cons_prefix_cons.mp isPrefix
    have mark : c ∈ marks := by rcases isHead with rfl | rfl <;> decide
    exact quiet c (by simp) mark

-- ---------------------------------------------------------------------------
-- The enum rules have nothing to do
-- ---------------------------------------------------------------------------

section

variable {turns : Text → Text → Prop}
  (turned : ∀ old new, turns old new → Turned "any".toList old new)

include turned

theorem stale_of_scanned {body result : Text} (scanned : Scanned turns body result)
    (stale : Stale builtIn result) : Stale builtIn body := by
  rcases stale with ⟨symbol, known, stands⟩ | ⟨blank, isBlank, more, rfl⟩
  · have all : ∀ symbol ∈ builtIn.symbols, symbol.toList ≠ [] ∧
        symbol.toList.all (· ∉ separators) = true ∧ ¬ symbol.toList <:+: "async".toList ∧
        ¬ symbol.toList <:+: "any".toList := by decide +kernel
    obtain ⟨nonempty, unbroken, async, type⟩ := all symbol known
    have foreign : Foreign "any".toList symbol.toList :=
      ⟨nonempty, by simpa using unbroken, async, type⟩
    exact .inl ⟨symbol, known, infix_of_scanned turned foreign scanned stands⟩
  · have clear : ∀ old new, turns old new →
        Clear new (blank ++ EnumRules.namespaceName.toList) := by
      intro old new turn
      obtain ⟨head, rest, isHead, rfl⟩ := (turned old new turn).typedCall.starts
      have start : head ∉ EnumRules.namespaceName.toList ∧ Text.isWhiteSpace head = false := by
        rcases isHead with rfl | rfl <;> decide
      exact .of_not_mem (by simp [start.1, EnumRules.not_mem_of_blank isBlank start.2])
    obtain ⟨rest, rfl, -⟩ := scanned.of_append clear
    exact .inr ⟨blank, isBlank, rest, rfl⟩

end

/-- One callback rule leaves nothing for the enum rules that there was not before. -/
theorem settled_rewrite {rule : Rule Pattern} (mem : rule ∈ (group "any").rules) {text : Text}
    (settled : (EnumRules.group builtIn).apply text = .ok none) :
    (EnumRules.group builtIn).apply (rule.rewrite text) = .ok none := by
  obtain ⟨none, idle⟩ := EnumRules.settled_iff.mp settled
  have turned : ∀ old new, rule.Turns old new → Turned "any".toList old new :=
    fun _ _ => turned_of_turns mem
  refine EnumRules.settled_iff.mpr ⟨?_, fun other mem' => ?_⟩
  · rintro ⟨stmt, ⟨body, stale, imports⟩, stands⟩
    have scanned := Rule.scanned_rewrite (solid_of_mem mem) text
    obtain ⟨body', stmt', imports', stands', inner⟩ := EnumRules.exists_of_scanned
      (fun old new turn => (turned old new turn).spares) scanned imports stands
    exact none ⟨stmt', ⟨body', stale_of_scanned turned inner stale, imports'⟩, stands'⟩
  · have apart : Rule.Apart rule other := .of_clear fun found turn =>
      (turned _ _ turn).clear_token (EnumRules.substitutes_of_turns mem' found)
    exact apart.idle (solid_of_mem mem) (EnumRules.solid_of_mem_tokenRules mem') (idle other mem')

/-- Where the enum rules have nothing to do, they have nothing to do after the callback rules. -/
theorem settled_after_types (source : Text)
    (settled : (RuleSet.ofTable builtIn).enums.apply source = .ok none) :
    (RuleSet.ofTable builtIn).enums.apply ((RuleSet.ofTable builtIn).types.revised source) =
      .ok none := by
  rw [RuleGroup.revised_eq_rewritten]
  exact RuleGroup.rewritten_induction (fun text => (EnumRules.group builtIn).apply text = .ok none)
    (fun rule mem text => settled_rewrite mem) settled

theorem settled_after_types_almost_import :
    (RuleSet.ofTable builtIn).enums.apply
        "import \x7b Order.map( (Status)) \x7d from \"@prisma/client\";".toList = .ok none ∧
      (RuleSet.ofTable builtIn).enums.apply ((RuleSet.ofTable builtIn).types.revised
        "import \x7b Order.map( (Status)) \x7d from \"@prisma/client\";".toList) = .ok none := by
  have settled : (RuleSet.ofTable builtIn).enums.apply
      "import \x7b Order.map( (Status)) \x7d from \"@prisma/client\";".toList = .ok none := by
    decide +kernel
  exact ⟨settled, settled_after_types _ settled⟩

end Codemod.CallbackRules
