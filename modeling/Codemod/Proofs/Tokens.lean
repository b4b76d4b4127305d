import Codemod.Proofs.Imports
import Codemod.Proofs.Passes

/-!
# Registered tokens

An entry of a table is a dotted name and the part behind the dot in quotes. All
entries are built in or come from a registration, so any table that can be
reached holds such entries only, and no token twice (`Registered`).

Tokens are replaced wherever they stand, also inside longer names, and in the
order of the table. A dotted name therefore goes to the first entry whose token
it contains (`rewritten_of_first`). That is its own entry exactly if no earlier
token is a part of it.
-/

namespace Codemod

namespace EnumTable

-- ---------------------------------------------------------------------------
-- Tables that can be reached
-- ---------------------------------------------------------------------------

def dividers : List Char := ['.', '"', '{', '}', '@', ';']

def Undivided (text : Text) : Prop := ∀ c ∈ text, c ∉ dividers

theorem Undivided.not_mem {text : Text} (h : Undivided text) {c : Char} (divider : c ∈ dividers) :
    c ∉ text := fun mem => h c mem divider

theorem undivided_of_isIdentifier {name : String} (identifier : isIdentifier name = true) :
    Undivided name.toList ∧ name.toList ≠ [] := by
  have none : ∀ c ∈ dividers,
      (!(Text.isAlphabetic c || Text.isNumeric c || c == '_' || c == '$')) = true :=
    List.all_eq_true.mp (by decide)
  rw [isIdentifier] at identifier
  split at identifier
  next => cases identifier
  next c rest spelled =>
    simp only [Bool.and_eq_true, List.all_eq_true] at identifier
    rw [spelled]
    refine ⟨fun d mem divider => ?_, by simp⟩
    have letter : (Text.isAlphabetic d || Text.isNumeric d || d == '_' || d == '$') = true := by
      rcases List.mem_cons.mp mem with rfl | mem
      · have first := identifier.1
        simp only [Bool.or_eq_true] at first
        rcases first with (h | h) | h <;> simp [h]
      · exact identifier.2 d mem
    simpa [letter] using none d divider

inductive IsEntry : String × String → Prop
  | mk {name value : String} (_ : isIdentifier name = true) (_ : isIdentifier value = true) :
      IsEntry (token name value, quoted value)

structure Registered (table : EnumTable) : Prop where
  entries : ∀ entry ∈ table.replacements, IsEntry entry
  nodup : (table.replacements.map Prod.fst).Nodup

theorem identifiers_builtInEnums : ∀ enum ∈ builtInEnums, isIdentifier enum.1 = true ∧
    ∀ value ∈ enum.2, isIdentifier value = true := by decide +kernel

theorem registered_builtIn : Registered builtIn where
  entries := by
    intro entry mem
    simp only [builtIn, List.mem_flatMap, List.mem_map] at mem
    obtain ⟨enum, known, value, mem, rfl⟩ := mem
    have identifiers := identifiers_builtInEnums enum known
    exact .mk identifiers.1 (identifiers.2 value mem)
  nodup := by decide +kernel

theorem Registered.addSymbol {table : EnumTable} (h : Registered table) (name : String) :
    Registered (table.addSymbol name) := by
  rw [EnumTable.addSymbol]
  split
  · exact h
  · exact ⟨h.entries, h.nodup⟩

theorem Registered.addValue {table : EnumTable} (h : Registered table) {name value : String}
    (identifier : isIdentifier name = true) (identifier' : isIdentifier value = true) :
    Registered (table.addValue name value) := by
  rw [EnumTable.addValue]
  split
  next => exact h
  next new =>
    have fresh : token name value ∉ table.replacements.map Prod.fst := by
      simpa [List.mem_map] using new
    refine ⟨List.forall_mem_append.mpr ⟨h.entries, ?_⟩, ?_⟩
    · exact List.forall_mem_singleton.mpr (.mk identifier identifier')
    · rw [List.map_append, List.map_singleton]
      exact h.nodup.append (List.nodup_singleton _) (List.disjoint_singleton.mpr fresh)

theorem refusal?_eq_none_iff {enum : String × List String} :
    refusal? enum = none ↔
      isIdentifier enum.1 = true ∧ ∀ value ∈ enum.2, isIdentifier value = true := by
  by_cases named : isIdentifier enum.1 = true <;> simp [refusal?, named]

theorem Registered.attempt {table : EnumTable} (h : Registered table)
    (enum : String × List String) : Registered (table.attempt enum).2 := by
  rw [EnumTable.attempt]
  split
  next => exact h
  next accepted =>
    obtain ⟨identifier, identifiers⟩ := refusal?_eq_none_iff.mp accepted
    refine List.foldlRecOn enum.2 _ (h.addSymbol enum.1) fun table registered value mem => ?_
    exact registered.addValue identifier (identifiers value mem)

theorem register_eq_ok_iff {table next : EnumTable} {enum : String × List String} :
    table.register enum = .ok next ↔ table.attempt enum = (none, next) := by
  rw [register]
  cases table.attempt enum with
  | mk refusal after => cases refusal <;> simp [pure, Except.pure]

theorem Registered.registerAll {table next : EnumTable} (h : Registered table)
    {enums : List (String × List String)} (done : table.registerAll enums = .ok next) :
    Registered next := by
  induction enums generalizing table with
  | nil =>
    cases done
    exact h
  | cons enum rest ih =>
    simp only [EnumTable.registerAll, List.foldlM_cons] at done
    cases first : table.register enum with
    | error cause =>
      rw [first] at done
      cases done
    | ok middle =>
      rw [first] at done
      have registered := h.attempt enum
      rw [register_eq_ok_iff.mp first] at registered
      exact ih registered done

theorem IsEntry.parts {entry : String × String} (h : IsEntry entry) :
    ∃ name value, Undivided name ∧ Undivided value ∧ entry.1.toList = name ++ '.' :: value ∧
      entry.2.toList = '"' :: value ++ ['"'] := by
  obtain @⟨name, value, identifier, identifier'⟩ := h
  exact ⟨name.toList, value.toList, (undivided_of_isIdentifier identifier).1,
    (undivided_of_isIdentifier identifier').1, by simp [token], by simp [quoted]⟩

end EnumTable

namespace EnumRules

open EnumTable
open RuleGroup (rewritten rewritten_of_idle)

-- ---------------------------------------------------------------------------
-- Where a dotted name goes
-- ---------------------------------------------------------------------------

theorem solid_literal (needle replacement : String) : (Rule.literal needle replacement).Solid :=
  trivial

theorem idle_literal {needle replacement : String} {text : Text}
    (absent : ¬ needle.toList <:+: text) : (Rule.literal needle replacement).Idle text := by
  rintro ⟨old, ⟨new, -, rfl, -⟩, stands⟩
  exact absent stands

theorem rewritten_importRules (table : EnumTable) {text : Text} (absent : '{' ∉ text) :
    rewritten (importRules table) text = text := by
  refine rewritten_of_idle (fun rule mem => solid_of_mem_importRules mem) fun rule mem => ?_
  rintro ⟨old, ⟨new, turn⟩, stands⟩
  exact absent (stands.mem (brace_of_turns mem turn))

theorem rewritten_tokenRules {entries : List (String × String)} {fallback : String}
    (isEntry : ∀ entry ∈ entries, IsEntry entry) {text : Text} (absent : '.' ∉ text) :
    rewritten (entries.map tokenRule ++ [.literal requestError fallback]) text = text := by
  refine rewritten_of_idle (fun rule mem => ?_) fun rule mem => ?_
  all_goals
    simp only [List.mem_append, List.mem_map, List.mem_singleton] at mem
    rcases mem with ⟨entry, mem, rfl⟩ | rfl
  · exact solid_literal _ _
  · exact solid_literal _ _
  · obtain ⟨name, value, -, -, dotted, -⟩ := (isEntry entry mem).parts
    exact idle_literal fun stands => absent (stands.mem (by simp [dotted]))
  · exact idle_literal fun stands => absent (stands.mem (by decide))

theorem rewrite_tokenRule {entry : String × String} (isEntry : IsEntry entry) {stem tail : Text}
    (undivided : Undivided stem) (undivided' : Undivided tail) :
    (tokenRule entry).rewrite (stem ++ entry.1.toList ++ tail) =
      stem ++ entry.2.toList ++ tail := by
  obtain ⟨name, value, h₁, -, dotted, -⟩ := isEntry.parts
  have ne : entry.1.toList ≠ [] := by simp [dotted]
  have scanned : Scanned (tokenRule entry).Turns (stem ++ entry.1.toList ++ tail) _ :=
    Rule.scanned_rewrite (solid_literal _ _) _
  have turn : (tokenRule entry).Turns entry.1.toList entry.2.toList := ⟨ne, rfl, rfl⟩
  rw [dotted] at scanned turn ⊢
  refine scanned.eq_of_once turn (fun found => ⟨found.2.1.trans dotted, found.2.2⟩) ?_ ?_
  · simp [undivided.not_mem (by decide : '.' ∈ dividers), h₁.not_mem (by decide : '.' ∈ dividers)]
  · exact undivided'.not_mem (by decide)

/-- A dotted name goes to the first entry whose token it contains. -/
theorem rewritten_of_first {table : EnumTable} (registered : table.Registered)
    {before after : List (String × String)} {entry : String × String}
    (split : table.replacements = before ++ entry :: after) {stem tail : Text}
    (undivided : Undivided stem) (undivided' : Undivided tail)
    (first : ∀ other ∈ before, ¬ other.1.toList <:+: stem ++ entry.1.toList ++ tail) :
    rewritten (group table).rules (stem ++ entry.1.toList ++ tail) =
      stem ++ entry.2.toList ++ tail := by
  have isEntry : ∀ other ∈ before ++ entry :: after, IsEntry other := split ▸ registered.entries
  simp only [List.forall_mem_append, List.forall_mem_cons] at isEntry
  obtain ⟨name, value, h₁, h₂, dotted, quoted⟩ := isEntry.2.1.parts
  have start : '{' ∉ stem ++ entry.1.toList ++ tail := by
    have brace {text : Text} (h : Undivided text) : '{' ∉ text := h.not_mem (by decide)
    simp [dotted, brace undivided, brace h₁, brace h₂, brace undivided']
  have stop : '.' ∉ stem ++ entry.2.toList ++ tail := by
    have dot {text : Text} (h : Undivided text) : '.' ∉ text := h.not_mem (by decide)
    simp [quoted, dot undivided, dot h₂, dot undivided']
  have passed : rewritten (before.map tokenRule) (stem ++ entry.1.toList ++ tail) =
      stem ++ entry.1.toList ++ tail := by
    refine rewritten_of_idle (List.forall_mem_map.mpr fun other _ => solid_literal _ _) ?_
    exact List.forall_mem_map.mpr fun other mem => idle_literal (first other mem)
  have rules : (group table).rules = importRules table ++ (before.map tokenRule ++
      tokenRule entry :: (after.map tokenRule ++ [.literal requestError table.fallbackType])) := by
    simp [group, tokenRules, split]
  calc rewritten (group table).rules (stem ++ entry.1.toList ++ tail)
    _ = rewritten (after.map tokenRule ++ [.literal requestError table.fallbackType])
          ((tokenRule entry).rewrite (stem ++ entry.1.toList ++ tail)) := by
      rw [rules, RuleGroup.rewritten_append, rewritten_importRules table start,
        RuleGroup.rewritten_append, passed, RuleGroup.rewritten_cons]
    _ = stem ++ entry.2.toList ++ tail := by
      rw [rewrite_tokenRule isEntry.2.1 undivided undivided', rewritten_tokenRules isEntry.2.2 stop]

theorem undivided_of_infix {entry other : String × String} (isEntry : IsEntry entry)
    (isEntry' : IsEntry other) {stem tail : Text}
    (whole : entry.1.toList = stem ++ other.1.toList ++ tail) :
    Undivided stem ∧ Undivided tail := by
  obtain ⟨name, value, h₁, h₂, dotted, -⟩ := isEntry.parts
  obtain ⟨name', value', -, -, dotted', -⟩ := isEntry'.parts
  rw [dotted, dotted'] at whole
  have dot {text : Text} (h : Undivided text) : '.' ∉ text := h.not_mem (by decide)
  have count := congrArg (List.count '.') whole
  simp only [List.count_append, List.count_cons_self, List.count_eq_zero_of_not_mem (dot h₁),
    List.count_eq_zero_of_not_mem (dot h₂)] at count
  have before : '.' ∉ stem ++ name' := List.count_eq_zero.mp (by rw [List.count_append]; omega)
  have same : name ++ '.' :: value = (stem ++ name') ++ '.' :: (value' ++ tail) := by
    simpa using whole
  obtain ⟨rfl, -, rfl⟩ := append_cons_inj same before (dot h₁)
  exact ⟨(List.forall_mem_append.mp h₁).1, (List.forall_mem_append.mp h₂).2⟩

theorem eq_nil_of_quoted {entry other : String × String} (isEntry : IsEntry entry)
    (isEntry' : IsEntry other) {stem tail : Text} (undivided : Undivided stem)
    (whole : stem ++ other.2.toList ++ tail = entry.2.toList) : stem = [] ∧ tail = [] := by
  obtain ⟨_, value, -, h₁, -, quoted⟩ := isEntry.parts
  obtain ⟨_, value', -, h₂, -, quoted'⟩ := isEntry'.parts
  have quote {text : Text} (h : Undivided text) : '"' ∉ text := h.not_mem (by decide)
  have same : stem ++ '"' :: (value' ++ '"' :: tail) = [] ++ '"' :: (value ++ '"' :: []) := by
    simpa [quoted, quoted'] using whole
  obtain ⟨rfl, -, inner⟩ := append_cons_inj same (by simp) (quote undivided)
  obtain ⟨-, -, rfl⟩ := append_cons_inj inner (quote h₁) (quote h₂)
  exact ⟨rfl, rfl⟩

/-- However enums are registered, a token becomes its literal exactly if no token before it in the
table is a part of it. -/
theorem revised_token_iff {enums : List (String × List String)} {table : EnumTable}
    (done : EnumTable.builtIn.registerAll enums = .ok table)
    {before after : List (String × String)} {token literal : String}
    (split : table.replacements = before ++ (token, literal) :: after) :
    (group table).revised token.toList = literal.toList ↔
      ∀ entry ∈ before, ¬ entry.1.toList <:+: token.toList := by
  have registered := registered_builtIn.registerAll done
  rw [RuleGroup.revised_eq_rewritten]
  constructor
  · intro becomes
    have none : before.find? (·.1.toList <:+: token.toList) = none := by
      by_contra some
      obtain ⟨other, found⟩ := Option.ne_none_iff_exists'.mp some
      obtain ⟨inside, earlier, later, rfl, first⟩ := List.find?_eq_some_iff_append.mp found
      obtain ⟨stem, tail, whole⟩ := of_decide_eq_true inside
      have isEntry : IsEntry (token, literal) := registered.entries _ (by simp [split])
      have isEntry' : IsEntry other := registered.entries _ (by simp [split])
      obtain ⟨undivided, undivided'⟩ := undivided_of_infix isEntry isEntry' whole.symm
      -- the token went to the entry before it, of which nothing but the literal may be left
      have went := rewritten_of_first registered (by simpa using split) undivided undivided'
        (by simpa [whole] using first)
      rw [whole, becomes] at went
      obtain ⟨rfl, rfl⟩ := eq_nil_of_quoted isEntry isEntry' undivided went.symm
      have twice := registered.nodup
      have same : other.1 = token := String.toList_inj.mp (by simpa using whole)
      simp [split, same, List.nodup_append] at twice
    simpa using none
  · intro first
    have none : Undivided [] := by simp [Undivided]
    simpa using rewritten_of_first registered split none none (by simpa using first)

theorem revised_token_longer_first :
    ∃ table before, EnumTable.builtIn.registerAll [("Role", ["ADMIN_2", "ADMIN"])] = .ok table ∧
      table.replacements = before ++ [("Role.ADMIN", "\"ADMIN\"")] ∧
      (group table).revised "Role.ADMIN".toList = "\"ADMIN\"".toList := by
  have done : EnumTable.builtIn.registerAll [("Role", ["ADMIN_2", "ADMIN"])] = .ok
      { EnumTable.builtIn with
        symbols := EnumTable.builtIn.symbols ++ ["Role"]
        replacements := (EnumTable.builtIn.replacements ++ [("Role.ADMIN_2", "\"ADMIN_2\"")]) ++
          [("Role.ADMIN", "\"ADMIN\"")] } := by decide +kernel
  exact ⟨_, _, done, rfl, (revised_token_iff done rfl).mpr (by decide +kernel)⟩

/-- A value that only extends a built-in one never becomes its literal. -/
theorem token_not_revised_to_literal :
    ∃ table, EnumTable.builtIn.registerAll [("OrderStatus", ["PAID_OUT"])] = .ok table ∧
      ("OrderStatus.PAID_OUT", "\"PAID_OUT\"") ∈ table.replacements ∧
      (group table).revised "OrderStatus.PAID_OUT".toList = "\"PAID\"_OUT".toList ∧
      "\"PAID\"_OUT".toList ≠ "\"PAID_OUT\"".toList := by
  refine ⟨{ EnumTable.builtIn with
    replacements := EnumTable.builtIn.replacements ++
      [("OrderStatus.PAID_OUT", "\"PAID_OUT\"")] }, ?_, ?_, ?_, ?_⟩
  all_goals decide +kernel

end EnumRules

end Codemod
