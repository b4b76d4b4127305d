import Codemod.Migration
import Codemod.Proofs.Annotation
import Codemod.Proofs.Imports
import Codemod.Proofs.Spelling

/-!
# Rules read from their written form

Reading the written rules succeeds for every table, whatever marks its texts
have, and gives rules that act as those of the table (`read_eq_ok`): they have
the same names and make the same edits. So does a group of them, and a run with
them is a run with the rules of the table (`run_of_read`).
-/

namespace Codemod

open Pattern

-- ---------------------------------------------------------------------------
-- Acting alike
-- ---------------------------------------------------------------------------

namespace Rule

/-- Rules of one name that make the same edits in every text. -/
def ActsAs (rule other : Rule Pattern) : Prop := rule.name = other.name ∧ rule.edits = other.edits

theorem ActsAs.refl (rule : Rule Pattern) : rule.ActsAs rule := ⟨rfl, rfl⟩

/-- A rule that is spelled out acts as one whose pattern matches in the same ways and whose template
comes out the same. -/
theorem read_of_spells {name pattern template : String} {opened : Nat} {parts : List Pattern}
    {other : Pattern} {form : Template} (spells : Spells 0 pattern.toList parts opened)
    (plain : other.Plain) (same : (inOrder parts).ways = other.ways)
    (writes : Template.Writes template.toList form) :
    ∃ rule, read name pattern template = .ok rule ∧ rule.ActsAs ⟨name, .reshape other form⟩ := by
  obtain ⟨found, isRead, plain', same'⟩ := read?_of_spells spells
  have matched : Finder.ofPattern found = Finder.ofPattern other :=
    matchAt_congr plain' plain (same'.trans same)
  have edit : editOf ⟨name, .reshape found (.read [] template.toList)⟩ =
      editOf ⟨name, .reshape other form⟩ := by
    funext piece
    simp only [editOf, Action.replacement, Template.read, writes _ (Nat.le_refl _)]
  refine ⟨⟨name, .reshape found (.read [] template.toList)⟩, ?_, rfl, ?_⟩
  · simp [read, PatternLanguage.read?, isRead, pure, Except.pure]
  · funext source
    simp only [edits, pieces_eq_finder, Action.finder, matched, edit]

end Rule

namespace RuleGroup

def ActsAs (group other : RuleGroup Pattern) : Prop :=
  group.category = other.category ∧ List.Forall₂ Rule.ActsAs group.rules other.rules

theorem applyRules_congr {rules others : List (Rule Pattern)}
    (alike : List.Forall₂ Rule.ActsAs rules others) (text : Text) :
    applyRules text rules = applyRules text others := by
  induction alike generalizing text with
  | nil => rfl
  | @cons rule other rules others first later ih =>
    simp only [applyRules, first.1, first.2, ih]

theorem ActsAs.apply_eq {group other : RuleGroup Pattern} (alike : group.ActsAs other) :
    group.apply = other.apply := by
  funext source
  rw [apply, apply, applyRules_congr alike.2]

end RuleGroup

theorem exists_mapM_eq_ok {α β : Type} {read : α → Except RuleError β} {model : α → β}
    {alike : β → β → Prop} {items : List α}
    (each : ∀ item ∈ items, ∃ result, read item = .ok result ∧ alike result (model item)) :
    ∃ results, items.mapM read = .ok results ∧ List.Forall₂ alike results (items.map model) := by
  induction items with
  | nil => exact ⟨[], rfl, .nil⟩
  | cons item items ih =>
    obtain ⟨⟨result, isRead, first⟩, rest⟩ := List.forall_mem_cons.mp each
    obtain ⟨results, areRead, later⟩ := ih rest
    refine ⟨result :: results, ?_, .cons first later⟩
    simp [List.mapM_cons, isRead, areRead, bind, Except.bind, pure, Except.pure]

-- ---------------------------------------------------------------------------
-- Imports
-- ---------------------------------------------------------------------------

namespace EnumRules

theorem spells_writtenImport {before : String} {inner : List Pattern} (symbol module : String)
    (spells : ∀ {rest parts}, Spells 0 rest parts 0 →
      Spells 0 (before.toList ++ rest) (inner ++ parts) 0) :
    Spells 0 (writtenImport before symbol module).toList
      ([literal "import".toList, blanks, one (.single '{'), blanks] ++ (inner ++
        [literal symbol.toList, insideBraces, one (.single '}'), blanks, literal "from".toList,
          blanks, one (.single '"'), literal module.toList, literal "\";".toList,
          optional lineEnd])) 0 := by
  have tail := ((Spells.done 0).lineEnd.verbatim "\";".toList).verbatim module.toList
  have closing := ((tail.single '"').blanks.verbatim "from".toList).blanks.single '}'
  have named := closing.insideBraces.verbatim symbol.toList
  have whole := ((spells named).blanks.single '{').blanks.verbatim "import".toList
  unfold writtenImport
  simpa (disch := decide) [escape_eq_self, escape_mark, blanks] using whole

theorem read_importOf {name before : String} (inner : List Pattern) {body : Pattern}
    (symbol module : String) (plain : body.Plain)
    (spells : ∀ {rest parts}, Spells 0 rest parts 0 →
      Spells 0 (before.toList ++ rest) (inner ++ parts) 0)
    (same : ∀ rest, (inOrder (inner ++ literal symbol.toList :: rest)).ways =
      inTurn body.ways (inOrder rest).ways) :
    ∃ rule, Rule.read name (writtenImport before symbol module) "" = .ok rule ∧
      rule.ActsAs ⟨name, .reshape (importOf body module) []⟩ := by
  have solid : Rule.Solid ⟨name, .reshape (importOf body module) []⟩ := solid_importOf plain
  refine Rule.read_of_spells (spells_writtenImport symbol module spells) solid.1 ?_
    Template.writes_nil
  simp only [importOf, List.cons_append, List.nil_append, ways_inOrder_cons, same]

theorem readImportRule_eq_ok (module symbol : String) :
    ∃ rule, readImportRule module symbol = .ok rule ∧ rule.ActsAs (importRule module symbol) := by
  have plain : (seq insideBraces (literal symbol.toList)).Plain :=
    .seq (.anyNumber _ true) (plain_literal _)
  refine read_importOf [insideBraces] symbol module plain (fun later => later.insideBraces)
    fun rest => ?_
  rw [List.singleton_append, ways_inOrder_cons, ways_inOrder_cons, ways_seq, inTurn_assoc]

theorem readNamespaceRule_eq_ok (module : String) :
    ∃ rule, readNamespaceRule module = .ok rule ∧ rule.ActsAs (namespaceRule module) :=
  read_importOf [] namespaceName module (plain_literal _) id fun rest => ways_inOrder_cons _ rest

theorem read_eq_ok (table : EnumTable) :
    ∃ written, read table = .ok written ∧ written.ActsAs (group table) := by
  obtain ⟨imports, areRead, alike⟩ :=
    exists_mapM_eq_ok fun symbol (_ : symbol ∈ table.symbols) =>
      readImportRule_eq_ok table.module symbol
  obtain ⟨leading, isRead, alike'⟩ := readNamespaceRule_eq_ok table.module
  refine ⟨⟨.enums, imports ++ [leading] ++ tokenRules table⟩, ?_, rfl, ?_⟩
  · simp [read, areRead, isRead, bind, Except.bind, pure, Except.pure]
  · have tokens : List.Forall₂ Rule.ActsAs (tokenRules table) (tokenRules table) :=
      List.forall₂_same.mpr fun rule _ => .refl rule
    exact List.rel_append (List.rel_append alike (.cons alike' .nil)) tokens

end EnumRules

-- ---------------------------------------------------------------------------
-- Calls
-- ---------------------------------------------------------------------------

namespace CallbackRules

theorem escape_of_mem_methods {name : String} (known : name ∈ methods) :
    escape name.toList = '\\' :: name.toList := by
  have all : ∀ name ∈ methods, escape name.toList = '\\' :: name.toList := by decide
  exact all name known

theorem spells_writtenCall {name written : String} {isAsync : Bool} {parameters : List Pattern}
    {opened : Nat} (known : name ∈ methods)
    (spells : ∀ {rest parts}, Spells opened rest parts opened →
      Spells 0 (written.toList ++ rest) (parameters ++ parts) opened) :
    Spells 0 (writtenCall name isAsync written).toList
      ([literal name.toList, blanks, openParenthesis, blanks] ++
        (if isAsync then [literal "async".toList, blanks] else []) ++
        [openParenthesis, blanks] ++ parameters ++ [blanks, closeParenthesis]) opened := by
  have list := ((spells ((Spells.done opened).single ')').blanks).blanks).single '('
  have async := list.blanks.verbatim "async".toList
  have escaped := escape_of_mem_methods known
  unfold writtenCall
  cases isAsync with
  | false =>
    have whole := (list.blanks.single '(').blanks.verbatim name.toList
    simpa (disch := decide) [escaped, escape_mark, blanks, openParenthesis, closeParenthesis]
      using whole
  | true =>
    have whole := (async.blanks.single '(').blanks.verbatim name.toList
    simpa (disch := decide) [escaped, escape_mark, escape_eq_self, blanks, openParenthesis,
      closeParenthesis] using whole

open Template (Writes) in
theorem writes_typed (index : String) (number : Nat) (closed : '}' ∉ index.toList)
    (refers : Template.reference [] index.toList = .group number) (type : Text) {rest : Text}
    {form : Template} (later : Writes rest form) :
    Writes ((writtenTyped index type).toList ++ rest) (typed number type ++ form) := by
  have whole := (later.verbatim (": ".toList ++ type)).reference closed
  have colon : Template.escape ": ".toList = ": ".toList := by decide
  rw [refers, Template.escape_append, colon] at whole
  unfold writtenTyped
  simpa [typed] using whole

open Template (Writes) in
theorem writes_typedCall {written : String} {parameters : Template} (name : String) (isAsync : Bool)
    (writes : ∀ {rest form}, Writes rest form →
      Writes (written.toList ++ rest) (parameters ++ form)) :
    Writes (writtenTypedCall name isAsync written).toList (typedCall name isAsync parameters) := by
  have list := writes (Template.writes_nil.verbatim [')'])
  have whole := list.verbatim (name.toList ++ (if isAsync then "(async (" else "((").toList)
  unfold writtenTypedCall
  cases isAsync <;> simpa (disch := decide) [Template.escape_eq_self, typedCall] using whole

theorem readSingleRule_eq_ok {name : String} (known : name ∈ methods) (label : String)
    (isAsync : Bool) (type : Text) : ∃ rule, readSingleRule type label name isAsync = .ok rule ∧
      rule.ActsAs (singleRule label name isAsync type) := by
  have solid : (singleRule label name isAsync type).Solid :=
    solid_call (by simp [plain_parameter])
  exact Rule.read_of_spells (spells_writtenCall known fun later => later.parameter) solid.1 rfl
    (writes_typedCall name isAsync (writes_typed "1" 1 (by decide) rfl type))

theorem readSortRule_eq_ok (type : Text) :
    ∃ rule, readSortRule type = .ok rule ∧ rule.ActsAs (sortRule type) := by
  have solid : (sortRule type).Solid :=
    solid_call (by simp [plain_parameter, plain_blanks, Plain.one])
  have spells {rest : Text} {parts : List Pattern} (later : Spells 2 rest parts 2) :
      Spells 0 ("(\\w+),\\s*(\\w+)".toList ++ rest)
        ([parameter 1, one (.single ','), blanks, parameter 2] ++ parts) 2 := by
    have pair := (later.parameter.blanks.single ',').parameter
    simpa (disch := decide) [escape_eq_self, blanks] using pair
  refine Rule.read_of_spells (spells_writtenCall (by decide) spells) solid.1 rfl
    (writes_typedCall ".sort" false fun later => ?_)
  have second := writes_typed "2" 2 (by decide) rfl type later
  have pair := writes_typed "1" 1 (by decide) rfl type (second.verbatim ", ".toList)
  simpa (disch := decide) [Template.escape_eq_self] using pair

theorem read_eq_ok (type : String) :
    ∃ written, read type = .ok written ∧ written.ActsAs (group type) := by
  obtain ⟨transaction, isRead, alike⟩ :=
    readSingleRule_eq_ok (by decide : "$transaction" ∈ methods) "$transaction(async (x))" true
      type.toList
  have single : ∀ callback ∈ callbacks, ∃ rule, readCallbackRule type.toList callback = .ok rule ∧
      rule.ActsAs (callbackRule type.toList callback) := fun callback mem =>
    readSingleRule_eq_ok (mem_methods mem) _ callback.isAsync type.toList
  obtain ⟨singles, areRead, alike'⟩ := exists_mapM_eq_ok single
  obtain ⟨sort, isRead', alike''⟩ := readSortRule_eq_ok type.toList
  refine ⟨⟨.types, transaction :: singles ++ [sort]⟩, ?_, rfl, ?_⟩
  · simp [read, isRead, areRead, isRead', bind, Except.bind, pure, Except.pure]
  · exact List.rel_append (.cons alike alike') (.cons alike'' .nil)

end CallbackRules

namespace RuleSet

def ActsAs (rules other : RuleSet Pattern) : Prop :=
  ∀ category, (rules.group category).ActsAs (other.group category)

/-- Whatever the texts of a table are, its rules can be read, and act as they should. -/
theorem read_eq_ok (table : EnumTable) :
    ∃ written, read table = .ok written ∧ written.ActsAs (ofTable table) := by
  obtain ⟨enums, isRead, alike⟩ := EnumRules.read_eq_ok table
  obtain ⟨types, isRead', alike'⟩ := CallbackRules.read_eq_ok table.fallbackType
  refine ⟨⟨enums, types⟩, ?_, fun category => ?_⟩
  · simp [read, isRead, isRead', bind, Except.bind, pure, Except.pure]
  · cases category with
    | enums => exact alike
    | types => exact alike'

end RuleSet

-- ---------------------------------------------------------------------------
-- Runs
-- ---------------------------------------------------------------------------

namespace Migration

variable {rules others : RuleSet Pattern}

theorem applyGroup_congr (alike : rules.ActsAs others) (category : Category) :
    applyGroup (rules.group category) = applyGroup (others.group category) := by
  funext path source
  rw [applyGroup, applyGroup, (alike category).apply_eq, (alike category).1]

theorem fixPasses_congr (alike : rules.ActsAs others) (path : Path) (categories : List Category)
    (tree : FileTree) :
    fixPasses rules path categories tree = fixPasses others path categories tree := by
  induction categories generalizing tree with
  | nil => rfl
  | cons category rest ih => simp only [fixPasses, fixFile, applyGroup_congr alike, ih]

theorem dryPasses_congr (alike : rules.ActsAs others) (tree : FileTree) (path : Path)
    (categories : List Category) (staged : Option Text) :
    dryPasses rules tree path categories staged = dryPasses others tree path categories staged := by
  induction categories generalizing staged with
  | nil => rfl
  | cons category rest ih => simp only [dryPasses, applyGroup_congr alike, ih]

theorem runFiles_congr (alike : rules.ActsAs others) (options : Options) (paths : List Path)
    (progress : Progress) :
    runFiles rules options paths progress = runFiles others options paths progress := by
  induction paths generalizing progress with
  | nil => rfl
  | cons path rest ih =>
    simp only [runFiles, filePasses, fixPasses_congr alike, dryPasses_congr alike, ih]

/-- The rules of a table may be read from their written form or be made directly. -/
theorem run_of_read {table : EnumTable} (isRead : RuleSet.read table = .ok rules)
    (options : Options) (tree : FileTree) :
    run rules options tree = run (.ofTable table) options tree := by
  obtain ⟨written, isRead', alike⟩ := RuleSet.read_eq_ok table
  cases isRead.symm.trans isRead'
  simp only [run, runFiles_congr alike]

end Migration

end Codemod
