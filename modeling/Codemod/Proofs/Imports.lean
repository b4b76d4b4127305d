import Codemod.Proofs.Scanning
import Codemod.RuleSet

/-!
# Stale imports

The import rules of a table remove the braced imports that name one of its
enums, or the namespace of the client in the first place (`StaleImport`).

An import is held together by its two ends. A scan that touches neither the
ends nor the braces may change what stands between the braces, but every import
in its result was an import before (`exists_of_scanned`).
-/

namespace Codemod.EnumRules

open Pattern
open Text (Blank)

-- ---------------------------------------------------------------------------
-- Import statements
-- ---------------------------------------------------------------------------

def Opening (text : Text) : Prop := ∃ blank, Blank blank ∧ text = "import".toList ++ blank ++ ['{']

/-- What follows the closing brace of an import. -/
def Closing (module : String) (text : Text) : Prop :=
  ∃ first second, Blank first ∧ Blank second ∧
    text = first ++ "from".toList ++ second ++ '"' :: module.toList ++ "\";".toList

/-- A braced import from the module, with `body` between its braces. -/
inductive Imports (module : String) (body : Text) : Text → Prop
  | mk {opening closing : Text} (_ : Opening opening) (_ : '}' ∉ body)
      (_ : Closing module closing) :
      Imports module body (opening ++ body ++ '}' :: closing)

/-- What an import that has to go has between its braces. -/
def Stale (table : EnumTable) (body : Text) : Prop :=
  (∃ symbol ∈ table.symbols, symbol.toList <:+: body) ∨
    ∃ blank, Blank blank ∧ blank ++ namespaceName.toList <+: body

def StaleImport (table : EnumTable) (text : Text) : Prop :=
  ∃ body, Stale table body ∧ Imports table.module body text

theorem not_mem_of_blank {text : Text} (blank : Blank text) {c : Char}
    (visible : Text.isWhiteSpace c = false) : c ∉ text :=
  fun mem => Bool.false_ne_true (visible.symm.trans (blank c mem))

-- ---------------------------------------------------------------------------
-- What the rules read
-- ---------------------------------------------------------------------------

theorem reads_insideBraces {text : Text} {groups : List (Nat × Text)} :
    insideBraces.Reads text groups ↔ '}' ∉ text ∧ groups = [] := by
  rw [insideBraces, reads_anyNumber]
  refine and_congr_left fun _ => ?_
  simp only [CharClass.has, Bool.not_eq_true', beq_eq_false_iff_ne]
  exact ⟨fun all mem => all _ mem rfl, fun absent c mem same => absent (same ▸ mem)⟩

def LineEnd (text : Text) : Prop := text = [] ∨ text = ['\n'] ∨ text = ['\r', '\n']

theorem reads_lineEnd {text : Text} {groups : List (Nat × Text)} :
    (optional lineEnd).Reads text groups ↔ LineEnd text ∧ groups = [] := by
  simp only [lineEnd, reads_optional, reads_seq, reads_single, LineEnd]
  constructor
  · rintro (⟨rfl, rfl⟩ | ⟨_, _, _, _, rfl, rfl, ⟨rfl, rfl⟩ | ⟨rfl, rfl⟩, rfl, rfl⟩) <;> simp
  · rintro ⟨rfl | rfl | rfl, rfl⟩
    · exact .inl ⟨rfl, rfl⟩
    · exact .inr ⟨[], _, [], [], rfl, rfl, .inl ⟨rfl, rfl⟩, rfl, rfl⟩
    · exact .inr ⟨_, _, [], [], rfl, rfl, .inr ⟨rfl, rfl⟩, rfl, rfl⟩

theorem reads_opening {text : Text} {groups : List (Nat × Text)} :
    (inOrder [literal "import".toList, blanks, one (.single '{')]).Reads text groups ↔
      Opening text ∧ groups = [] := by
  simp only [blanks, reads_inOrder_literal, reads_inOrder_anyNumber, reads_inOrder_single,
    reads_inOrder_nil]
  constructor
  · rintro ⟨_, rfl, blank, _, rfl, isBlank, _, rfl, rfl, rfl⟩
    exact ⟨⟨blank, isBlank, by simp⟩, rfl⟩
  · rintro ⟨⟨blank, isBlank, rfl⟩, rfl⟩
    exact ⟨_, List.append_assoc .., blank, _, rfl, isBlank, [], rfl, rfl, rfl⟩

theorem reads_body {body : Pattern} {text : Text} {groups : List (Nat × Text)} :
    (inOrder [blanks, body, insideBraces]).Reads text groups ↔ ∃ blank named more,
      Blank blank ∧ body.Reads named groups ∧ '}' ∉ more ∧ text = blank ++ named ++ more := by
  rw [blanks, reads_inOrder_anyNumber]
  constructor
  · rintro ⟨blank, _, rfl, isBlank, later⟩
    obtain ⟨named, _, before, _, rfl, rfl, reads, last⟩ := reads_inOrder_cons.mp later
    obtain ⟨more, _, rfl, absent, none⟩ :=
      (reads_inOrder_cons_of_mute reads_insideBraces).mp last
    obtain ⟨rfl, rfl⟩ := reads_inOrder_nil.mp none
    exact ⟨blank, named, more, isBlank, by simpa using reads, absent, by simp⟩
  · rintro ⟨blank, named, more, isBlank, reads, absent, rfl⟩
    refine ⟨blank, named ++ more, by simp, isBlank, reads_inOrder_cons.mpr
      ⟨named, more, groups, [], rfl, by simp, reads, ?_⟩⟩
    exact (reads_inOrder_cons_of_mute reads_insideBraces).mpr
      ⟨more, [], by simp, absent, reads_inOrder_nil.mpr ⟨rfl, rfl⟩⟩

theorem reads_closing {module : String} {text : Text} {groups : List (Nat × Text)} :
    (inOrder [blanks, literal "from".toList, blanks, one (.single '"'), literal module.toList,
      literal "\";".toList]).Reads text groups ↔ Closing module text ∧ groups = [] := by
  simp only [blanks, reads_inOrder_literal, reads_inOrder_anyNumber, reads_inOrder_single,
    reads_inOrder_nil]
  constructor
  · rintro ⟨first, _, rfl, isBlank, _, rfl, second, _, rfl, isBlank', _, rfl, _, rfl, _, rfl, rfl,
      rfl⟩
    exact ⟨⟨first, second, isBlank, isBlank', by simp⟩, rfl⟩
  · rintro ⟨⟨first, second, isBlank, isBlank', rfl⟩, rfl⟩
    refine ⟨first, _, ?_, isBlank, _, rfl, second, _, rfl, isBlank', _, rfl, "\";".toList, rfl, [],
      rfl, rfl, rfl⟩
    simp

theorem reads_importOf {body : Pattern} {module : String} {text : Text}
    {groups : List (Nat × Text)} :
    (importOf body module).Reads text groups ↔ ∃ opening blank named more closing ending,
      Opening opening ∧ Blank blank ∧ body.Reads named groups ∧ '}' ∉ more ∧
        Closing module closing ∧ LineEnd ending ∧
        text = opening ++ (blank ++ named ++ more) ++ '}' :: closing ++ ending := by
  have parts : importOf body module = inOrder
      ([literal "import".toList, blanks, one (.single '{')] ++
        ([blanks, body, insideBraces] ++ one (.single '}') ::
        ([blanks, literal "from".toList, blanks, one (.single '"'), literal module.toList,
          literal "\";".toList] ++ [optional lineEnd]))) := rfl
  simp only [parts, reads_inOrder_append, reads_opening, reads_body, reads_inOrder_single,
    reads_closing, reads_inOrder_cons_of_mute reads_lineEnd, reads_inOrder_nil]
  constructor
  · rintro ⟨opening, _, _, _, rfl, rfl, ⟨isOpening, rfl⟩, _, _, _, _, rfl, rfl,
      ⟨blank, named, more, isBlank, reads, absent, rfl⟩, _, rfl, closing, _, _, _, rfl, rfl,
      ⟨isClosing, rfl⟩, ending, _, rfl, isEnd, rfl, rfl⟩
    exact ⟨opening, blank, named, more, closing, ending, isOpening, isBlank, by simpa using reads,
      absent, isClosing, isEnd, by simp⟩
  · rintro ⟨opening, blank, named, more, closing, ending, isOpening, isBlank, reads, absent,
      isClosing, isEnd, rfl⟩
    refine ⟨opening, _, [], groups, ?_, by simp, ⟨isOpening, rfl⟩, _, _, groups, [], rfl, rfl,
      ⟨blank, named, more, isBlank, reads, absent, rfl⟩, _, rfl, closing, ending, [], [], rfl, rfl,
      ⟨isClosing, rfl⟩, ending, [], by simp, isEnd, rfl, rfl⟩
    simp

theorem turns_importOf {label module : String} {body : Pattern} {wanted has : Text → Prop}
    (mute : ∀ {text groups}, body.Reads text groups ↔ wanted text ∧ groups = [])
    (closed : ∀ named, wanted named → '}' ∉ named)
    (place : ∀ text, '}' ∉ text → (has text ↔ ∃ blank named more, Blank blank ∧ wanted named ∧
      text = blank ++ named ++ more)) {old new : Text} :
    Rule.Turns ⟨label, .reshape (importOf body module) []⟩ old new ↔ new = [] ∧
      ∃ text stmt ending, has text ∧ Imports module text stmt ∧ LineEnd ending ∧
        old = stmt ++ ending := by
  constructor
  · rintro ⟨groups, reads, rfl⟩
    obtain ⟨opening, blank, named, more, closing, ending, h₁, h₂, inner, absent, h₃, h₄, rfl⟩ :=
      reads_importOf.mp reads
    have isWanted := (mute.mp inner).1
    have braceless : '}' ∉ blank ++ named ++ more := by
      simp [not_mem_of_blank h₂ (by decide : Text.isWhiteSpace '}' = false), closed named isWanted,
        absent]
    exact ⟨rfl, _, _, ending, (place _ braceless).mpr ⟨blank, named, more, h₂, isWanted, rfl⟩,
      .mk h₁ braceless h₃, h₄, rfl⟩
  · rintro ⟨rfl, text, stmt, ending, has, ⟨h₁, braceless, h₂⟩, h₃, rfl⟩
    obtain ⟨blank, named, more, h₄, isWanted, rfl⟩ := (place text braceless).mp has
    have absent : '}' ∉ more := fun mem => braceless (List.mem_append_right _ mem)
    exact ⟨[], reads_importOf.mpr ⟨_, blank, named, more, _, ending, h₁, h₄,
      mute.mpr ⟨isWanted, rfl⟩, absent, h₂, h₃, rfl⟩, rfl⟩

theorem turns_importRule {module symbol : String} (closed : '}' ∉ symbol.toList) {old new : Text} :
    (importRule module symbol).Turns old new ↔ new = [] ∧ ∃ body stmt ending,
      symbol.toList <:+: body ∧ Imports module body stmt ∧ LineEnd ending ∧
        old = stmt ++ ending := by
  have mute : ∀ {text groups}, (seq insideBraces (literal symbol.toList)).Reads text groups ↔
      (∃ before, '}' ∉ before ∧ text = before ++ symbol.toList) ∧ groups = [] := by
    intro text groups
    simp only [reads_seq, reads_insideBraces, reads_literal]
    constructor
    · rintro ⟨before, _, _, _, rfl, rfl, ⟨absent, rfl⟩, rfl, rfl⟩
      exact ⟨⟨before, absent, rfl⟩, rfl⟩
    · rintro ⟨⟨before, absent, rfl⟩, rfl⟩
      exact ⟨before, _, [], [], rfl, rfl, ⟨absent, rfl⟩, rfl, rfl⟩
  refine turns_importOf mute ?_ fun text braceless => ⟨?_, ?_⟩
  · rintro _ ⟨before, absent, rfl⟩
    simp [absent, closed]
  · rintro ⟨before, after, rfl⟩
    have absent : '}' ∉ before := fun mem => braceless (by simp [mem])
    exact ⟨[], _, after, by simp [Blank], ⟨before, absent, rfl⟩, by simp⟩
  · rintro ⟨blank, _, more, -, ⟨before, -, rfl⟩, rfl⟩
    exact ⟨blank ++ before, more, by simp⟩

theorem turns_namespaceRule {module : String} {old new : Text} :
    (namespaceRule module).Turns old new ↔ new = [] ∧ ∃ body stmt ending,
      (∃ blank, Blank blank ∧ blank ++ namespaceName.toList <+: body) ∧
        Imports module body stmt ∧ LineEnd ending ∧ old = stmt ++ ending := by
  refine turns_importOf reads_literal ?_ fun text _ => ⟨?_, ?_⟩
  · rintro _ rfl
    decide
  · rintro ⟨blank, isBlank, more, rfl⟩
    exact ⟨blank, _, more, isBlank, rfl, rfl⟩
  · rintro ⟨blank, _, more, isBlank, rfl, rfl⟩
    exact ⟨blank, isBlank, more, rfl⟩

theorem Opening.not_mem {text : Text} (opening : Opening text) {c : Char}
    (absent : c ∉ "import\x7b".toList) (visible : Text.isWhiteSpace c = false) : c ∉ text := by
  obtain ⟨blank, isBlank, rfl⟩ := opening
  simpa [not_mem_of_blank isBlank visible] using absent

theorem Opening.brace {text : Text} (opening : Opening text) : '{' ∈ text := by
  obtain ⟨blank, -, rfl⟩ := opening
  simp

theorem solid_importOf {label module : String} {body : Pattern} {template : Template}
    (plain : body.Plain) : Rule.Solid ⟨label, .reshape (importOf body module) template⟩ := by
  refine ⟨plain_inOrder ?_, fun groups reads => ?_⟩
  · have blanks : blanks.Plain := .anyNumber _ true
    have inside : insideBraces.Plain := .anyNumber _ true
    have ending : (optional lineEnd).Plain :=
      .optional true (.seq (.optional true (.one _)) (.one _))
    simp [plain, blanks, inside, ending, plain_literal, Plain.one]
  · obtain ⟨opening, blank, named, more, closing, ending, -, -, -, -, -, -, text⟩ :=
      reads_importOf.mp reads
    simp at text

theorem solid_of_mem_importRules {table : EnumTable} {rule : Rule Pattern}
    (mem : rule ∈ importRules table) : rule.Solid := by
  simp only [importRules, List.mem_append, List.mem_map, List.mem_singleton] at mem
  rcases mem with ⟨symbol, -, rfl⟩ | rfl
  · exact solid_importOf (.seq (.anyNumber _ true) (plain_literal _))
  · exact solid_importOf (plain_literal _)

theorem brace_of_turns {table : EnumTable} {rule : Rule Pattern} (mem : rule ∈ importRules table)
    {old new : Text} (turn : rule.Turns old new) : '{' ∈ old := by
  simp only [importRules, List.mem_append, List.mem_map, List.mem_singleton] at mem
  rcases mem with ⟨symbol, -, rfl⟩ | rfl
  all_goals
    obtain ⟨groups, reads, -⟩ := turn
    obtain ⟨opening, _, _, _, _, _, isOpening, -, -, -, -, -, rfl⟩ := reads_importOf.mp reads
    simp [isOpening.brace]

/-- The enums are named without braces, as any identifier is. -/
def Braceless (table : EnumTable) : Prop := ∀ symbol ∈ table.symbols, '}' ∉ symbol.toList

theorem stale_of_turns {table : EnumTable} (braceless : Braceless table) {rule : Rule Pattern}
    (mem : rule ∈ importRules table) {old new : Text} (turn : rule.Turns old new) :
    new = [] ∧ ∃ stmt ending, StaleImport table stmt ∧ rule.Turns stmt [] ∧ LineEnd ending ∧
      old = stmt ++ ending := by
  simp only [importRules, List.mem_append, List.mem_map, List.mem_singleton] at mem
  rcases mem with ⟨symbol, known, rfl⟩ | rfl
  · obtain ⟨rfl, body, stmt, ending, named, imports, isEnd, rfl⟩ :=
      (turns_importRule (braceless symbol known)).mp turn
    refine ⟨rfl, stmt, ending, ⟨body, .inl ⟨symbol, known, named⟩, imports⟩, ?_, isEnd, rfl⟩
    exact (turns_importRule (braceless symbol known)).mpr
      ⟨rfl, body, stmt, [], named, imports, .inl rfl, by simp⟩
  · obtain ⟨rfl, body, stmt, ending, leads, imports, isEnd, rfl⟩ := turns_namespaceRule.mp turn
    refine ⟨rfl, stmt, ending, ⟨body, .inr leads, imports⟩, ?_, isEnd, rfl⟩
    exact turns_namespaceRule.mpr ⟨rfl, body, stmt, [], leads, imports, .inl rfl, by simp⟩

theorem turns_of_stale {table : EnumTable} (braceless : Braceless table) {stmt : Text}
    (stale : StaleImport table stmt) : ∃ rule ∈ importRules table, rule.Turns stmt [] := by
  obtain ⟨body, ⟨symbol, known, named⟩ | leads, imports⟩ := stale
  · refine ⟨_, List.mem_append_left _ (List.mem_map.mpr ⟨symbol, known, rfl⟩), ?_⟩
    exact (turns_importRule (braceless symbol known)).mpr
      ⟨rfl, body, stmt, [], named, imports, .inl rfl, by simp⟩
  · refine ⟨namespaceRule table.module, List.mem_append_right _ (by simp), ?_⟩
    exact turns_namespaceRule.mpr ⟨rfl, body, stmt, [], leads, imports, .inl rfl, by simp⟩

/-- The import rules rest exactly on the texts without stale imports. -/
theorem idle_importRules_iff {table : EnumTable} (braceless : Braceless table) {text : Text} :
    (∀ rule ∈ importRules table, rule.Idle text) ↔ ¬ Text.Holds (StaleImport table) text := by
  constructor
  · rintro idle ⟨stmt, stale, stands⟩
    obtain ⟨rule, mem, turn⟩ := turns_of_stale braceless stale
    exact idle rule mem ⟨stmt, ⟨[], turn⟩, stands⟩
  · rintro none rule mem ⟨old, ⟨new, turn⟩, stands⟩
    obtain ⟨rfl, stmt, ending, stale, -, -, rfl⟩ := stale_of_turns braceless mem turn
    exact none ⟨stmt, stale, (List.prefix_append stmt ending).isInfix.trans stands⟩

-- ---------------------------------------------------------------------------
-- Imports under a scan
-- ---------------------------------------------------------------------------

/-- A turn that neither takes nor makes a brace, or an end of an import. -/
structure Spares (module : String) (old new : Text) : Prop where
  brace : '}' ∉ old ∧ '}' ∉ new
  opening {opening : Text} : Opening opening → Clear new opening ∧ Clear opening new
  closing {closing : Text} : Closing module closing → Clear new closing

theorem clear_closing {module : String} {c : Char} {rest closing : Text}
    (absent : c ∉ "from".toList) (visible : Text.isWhiteSpace c = false)
    (clear : Clear (c :: rest) ('"' :: module.toList ++ "\";".toList))
    (h : Closing module closing) : Clear (c :: rest) closing := by
  obtain ⟨first, second, isBlank, isBlank', rfl⟩ := h
  have front : c ∉ first ++ "from".toList ++ second := by
    simpa [not_mem_of_blank isBlank visible, not_mem_of_blank isBlank' visible] using absent
  simpa using clear.append_left front

theorem exists_of_scanned {module : String} {turns : Text → Text → Prop}
    (spares : ∀ old new, turns old new → Spares module old new) {text result : Text}
    (scanned : Scanned turns text result) {body stmt : Text} (imports : Imports module body stmt)
    (stands : stmt <:+: result) :
    ∃ body' stmt', Imports module body' stmt' ∧ stmt' <:+: text ∧ Scanned turns body' body := by
  obtain @⟨opening, closing, isOpening, absent, isClosing⟩ := imports
  obtain ⟨before, after, rfl⟩ := stands
  have ne : opening ≠ [] := List.ne_nil_of_mem isOpening.brace
  have cut : before ++ (opening ++ body ++ '}' :: closing) ++ after =
      before ++ opening ++ (body ++ '}' :: (closing ++ after)) := by simp
  rw [cut] at scanned
  obtain ⟨start, rest, rfl, inner⟩ := scanned.of_append_word ne fun old new turn =>
    (spares old new turn).opening isOpening
  obtain ⟨body', rest, rfl, absent', bodies, tail⟩ := inner.of_append_cons absent
    fun old new turn => (spares old new turn).brace
  obtain ⟨rest, rfl, -⟩ := tail.of_append fun old new turn =>
    (spares old new turn).closing isClosing
  exact ⟨body', _, .mk isOpening absent' isClosing, ⟨start, rest, by simp⟩, bodies⟩

end Codemod.EnumRules
