import Codemod.Proofs.Tokens

/-!
# Registering one enum after the other

A registration is refused for the first of its names that is no identifier, the
enum's own name before those of its values, and the table stays as it was. All
others add to the table what it does not have yet (`appendNew`).

A token tells the enum from the value, as no identifier has a dot. A table that
is reached by registrations is therefore known by two lists without repetitions:
its symbols, and the pairs of an enum and a value that its tokens stand for
(`listing`). Each registration appends to these two lists what is new to them
(`attempt_listing`), and so does a sequence of them (`attemptAll_builtIn`).
-/

namespace Codemod

-- ---------------------------------------------------------------------------
-- Lists without repetitions
-- ---------------------------------------------------------------------------

section

variable {α : Type} [BEq α] [LawfulBEq α]

def appendNew (items : List α) (item : α) : List α :=
  if item ∈ items then items else items ++ [item]

theorem foldl_appendNew (items more : List α) :
    more.foldl appendNew items = items ++ (more.filter (· ∉ items)).eraseDups := by
  induction more generalizing items with
  | nil => simp
  | cons item rest ih =>
    rw [List.foldl_cons, ih, appendNew]
    split
    next known => simp [known]
    next new =>
      have later : rest.filter (· ∉ items ++ [item]) =
          (rest.filter (· ∉ items)).filter (!· == item) := by
        rw [List.filter_filter]
        refine List.filter_congr fun other _ => ?_
        rw [Bool.eq_iff_iff]
        simp [and_comm]
      rw [later, List.filter_cons_of_pos (by simpa using new), List.eraseDups_cons]
      simp

theorem mem_foldl_appendNew {items more : List α} {item : α} :
    item ∈ more.foldl appendNew items ↔ item ∈ items ∨ item ∈ more := by
  by_cases known : item ∈ items <;> simp [foldl_appendNew, known]

theorem foldl_appendNew_of_subset {items more : List α} (known : ∀ item ∈ more, item ∈ items) :
    more.foldl appendNew items = items := by
  have none : more.filter (· ∉ items) = [] := by simpa using known
  rw [foldl_appendNew, none, List.eraseDups_nil, List.append_nil]

theorem nodup_foldl_appendNew {items : List α} (nodup : items.Nodup) (more : List α) :
    (more.foldl appendNew items).Nodup := by
  refine List.foldlRecOn more _ nodup fun items nodup item _ => ?_
  rw [appendNew]
  split
  next => exact nodup
  next new => exact nodup.append (List.nodup_singleton _) (List.disjoint_singleton.mpr new)

end

namespace EnumTable

-- ---------------------------------------------------------------------------
-- What a registration answers
-- ---------------------------------------------------------------------------

/-- The name for which a registration is refused. -/
inductive Refused : (name : String) → (values : List String) → RuleError → Prop
  | name {name : String} {values : List String} (_ : isIdentifier name = false) :
      Refused name values (.notIdentifier "enum" name)
  | value {name value : String} {before after : List String} (_ : isIdentifier name = true)
      (_ : ∀ other ∈ before, isIdentifier other = true) (_ : isIdentifier value = false) :
      Refused name (before ++ value :: after) (.notIdentifier "enum value" value)

def isAccepted (enum : String × List String) : Bool :=
  isIdentifier enum.1 && enum.2.all isIdentifier

theorem isAccepted_iff {enum : String × List String} :
    isAccepted enum = true ↔ refusal? enum = none := by
  simp [refusal?_eq_none_iff, isAccepted]

theorem refused_of_refusal? {enum : String × List String} {cause : RuleError}
    (h : refusal? enum = some cause) : Refused enum.1 enum.2 cause := by
  rw [refusal?] at h
  split at h
  next unnamed =>
    cases h
    exact .name (by simpa using unnamed)
  next named =>
    obtain ⟨value, found, rfl⟩ := Option.map_eq_some_iff.mp h
    obtain ⟨bad, before, after, split, first⟩ := List.find?_eq_some_iff_append.mp found
    rw [split]
    exact .value (by simpa using named) (by simpa using first) (by simpa using bad)

def attemptAll (table : EnumTable) (enums : List (String × List String)) : EnumTable :=
  enums.foldl (fun table enum => (table.attempt enum).2) table

theorem attempt_of_accepted (table : EnumTable) {enum : String × List String}
    (accepted : isAccepted enum = true) :
    table.attempt enum = (none, enum.2.foldl (addValue enum.1) (table.addSymbol enum.1)) := by
  rw [attempt, isAccepted_iff.mp accepted]

theorem attempt_of_not_accepted (table : EnumTable) {enum : String × List String}
    (faulty : isAccepted enum = false) :
    ∃ cause, Refused enum.1 enum.2 cause ∧ table.attempt enum = (some cause, table) := by
  cases refusal : refusal? enum with
  | none => simp [isAccepted_iff.mpr refusal] at faulty
  | some cause => exact ⟨cause, refused_of_refusal? refusal, by rw [attempt, refusal]⟩

theorem registerAll_eq_ok_iff {table next : EnumTable} {enums : List (String × List String)} :
    table.registerAll enums = .ok next ↔
      (∀ enum ∈ enums, isAccepted enum = true) ∧ next = table.attemptAll enums := by
  induction enums generalizing table with
  | nil =>
    simp only [registerAll, attemptAll, List.foldlM_nil, List.foldl_nil, List.not_mem_nil,
      false_implies, implies_true, true_and]
    exact ⟨fun done => (Except.ok.inj done).symm, fun same => congrArg _ same.symm⟩
  | cons enum rest ih =>
    have step : table.registerAll (enum :: rest) =
        (table.register enum >>= fun table => table.registerAll rest) := rfl
    have step' : table.attemptAll (enum :: rest) = (table.attempt enum).2.attemptAll rest := rfl
    rw [step, step', register]
    by_cases accepted : isAccepted enum = true
    · rw [attempt_of_accepted table accepted]
      simp [bind, Except.bind, pure, Except.pure, ih, accepted]
    · obtain ⟨cause, -, refused⟩ := table.attempt_of_not_accepted (by simpa using accepted)
      simp [refused, bind, Except.bind, accepted]

-- ---------------------------------------------------------------------------
-- Tables told by their pairs
-- ---------------------------------------------------------------------------

def pairs (enum : String × List String) : List (String × String) := enum.2.map (enum.1, ·)

def builtInPairs : List (String × String) := builtInEnums.flatMap pairs

def entry (pair : String × String) : String × String := (token pair.1 pair.2, quoted pair.2)

def Identifiers (pair : String × String) : Prop :=
  isIdentifier pair.1 = true ∧ isIdentifier pair.2 = true

theorem identifiers_of_accepted {enum : String × List String} (accepted : isAccepted enum = true) :
    ∀ pair ∈ pairs enum, Identifiers pair := by
  simp only [isAccepted, Bool.and_eq_true, List.all_eq_true] at accepted
  simpa [pairs, Identifiers, accepted.1] using accepted.2

theorem identifiers_builtInPairs : ∀ pair ∈ builtInPairs, Identifiers pair := by
  intro pair mem
  obtain ⟨enum, known, mem⟩ := List.mem_flatMap.mp mem
  refine identifiers_of_accepted ?_ pair mem
  simpa [isAccepted] using identifiers_builtInEnums enum known

theorem eq_of_token_eq {pair other : String × String} (identifiers : Identifiers pair)
    (identifiers' : Identifiers other) (same : token pair.1 pair.2 = token other.1 other.2) :
    pair = other := by
  have dot {name : String} (h : isIdentifier name = true) : '.' ∉ name.toList :=
    (undivided_of_isIdentifier h).1.not_mem (by decide)
  have spelled : pair.1.toList ++ '.' :: pair.2.toList =
      other.1.toList ++ '.' :: other.2.toList := by
    simpa [token] using congrArg String.toList same
  obtain ⟨first, -, second⟩ := append_cons_inj spelled (dot identifiers'.1) (dot identifiers.1)
  exact Prod.ext (String.toList_inj.mp first) (String.toList_inj.mp second)

/-- The table with other symbols, and with the entries of the pairs. -/
def listing (table : EnumTable) (symbols : List String) (pairs : List (String × String)) :
    EnumTable := { table with symbols, replacements := pairs.map entry }

theorem replacements_builtIn : builtIn.replacements = builtInPairs.map entry := by
  simp [builtIn, builtInPairs, pairs, List.map_flatMap, Function.comp_def, entry]

theorem builtIn_eq_listing (module fallbackType : String) :
    { builtIn with module, fallbackType } =
      EnumTable.listing { builtIn with module, fallbackType } builtIn.symbols builtInPairs := by
  simp [listing, replacements_builtIn]

variable {table : EnumTable} {symbols : List String} {known : List (String × String)}

theorem addSymbol_listing (name : String) :
    (table.listing symbols known).addSymbol name =
      table.listing (appendNew symbols name) known := by
  rw [addSymbol, appendNew]
  split
  next mem => rw [if_pos (by exact mem)]
  next new => rw [if_neg (by exact new)]; rfl

theorem addValue_listing (identifiers : ∀ pair ∈ known, Identifiers pair) {name value : String}
    (identifier : Identifiers (name, value)) :
    (table.listing symbols known).addValue name value =
      table.listing symbols (appendNew known (name, value)) := by
  have found : (table.listing symbols known).replacements.any (·.1 = token name value) = true ↔
      (name, value) ∈ known := by
    simp only [listing, List.any_map, List.any_eq_true, Function.comp, entry]
    constructor
    · rintro ⟨pair, mem, same⟩
      exact eq_of_token_eq (identifiers pair mem) identifier (of_decide_eq_true same) ▸ mem
    · exact fun mem => ⟨_, mem, decide_eq_true rfl⟩
  rw [addValue, appendNew]
  split
  next mem => rw [if_pos (found.mp mem)]
  next new =>
    rw [if_neg (mt found.mpr new)]
    simp [listing, entry]

theorem foldl_addValue_listing (identifiers : ∀ pair ∈ known, Identifiers pair)
    {enum : String × List String} (accepted : isAccepted enum = true) :
    enum.2.foldl (addValue enum.1) (table.listing symbols known) =
      table.listing symbols ((pairs enum).foldl appendNew known) := by
  obtain ⟨name, values⟩ := enum
  have new := identifiers_of_accepted accepted
  clear accepted
  induction values generalizing known with
  | nil => rfl
  | cons value rest ih =>
    simp only [pairs, List.map_cons, List.forall_mem_cons] at new
    simp only [List.foldl_cons, pairs, List.map_cons, addValue_listing identifiers new.1]
    refine ih (fun pair mem => ?_) new.2
    have mem : pair ∈ [(name, value)].foldl appendNew known := mem
    rcases mem_foldl_appendNew.mp mem with mem | mem
    · exact identifiers pair mem
    · exact List.mem_singleton.mp mem ▸ new.1

theorem attempt_listing (identifiers : ∀ pair ∈ known, Identifiers pair)
    {enum : String × List String} (accepted : isAccepted enum = true) :
    (table.listing symbols known).attempt enum =
      (none, table.listing (appendNew symbols enum.1) ((pairs enum).foldl appendNew known)) := by
  rw [attempt_of_accepted _ accepted, addSymbol_listing,
    foldl_addValue_listing identifiers accepted]

theorem attempt_listing_of_mem (identifiers : ∀ pair ∈ known, Identifiers pair)
    {enum : String × List String} (accepted : isAccepted enum = true) (named : enum.1 ∈ symbols)
    (paired : ∀ pair ∈ pairs enum, pair ∈ known) :
    (table.listing symbols known).attempt enum = (none, table.listing symbols known) := by
  rw [attempt_listing identifiers accepted, foldl_appendNew_of_subset paired, appendNew,
    if_pos named]

theorem nodup_tokens_listing (identifiers : ∀ pair ∈ known, Identifiers pair)
    (nodup : known.Nodup) : ((table.listing symbols known).replacements.map Prod.fst).Nodup := by
  have tokens : (known.map fun pair => token pair.1 pair.2).Nodup :=
    nodup.map_on fun pair mem other mem' =>
      eq_of_token_eq (identifiers pair mem) (identifiers other mem')
  simpa [listing, entry, Function.comp_def] using tokens

theorem identifiers_foldl (identifiers : ∀ pair ∈ known, Identifiers pair)
    {enums : List (String × List String)} (accepted : ∀ enum ∈ enums, isAccepted enum = true) :
    ∀ pair ∈ (enums.flatMap pairs).foldl appendNew known, Identifiers pair := by
  intro pair mem
  rcases mem_foldl_appendNew.mp mem with mem | mem
  · exact identifiers pair mem
  · obtain ⟨enum, mem, inside⟩ := List.mem_flatMap.mp mem
    exact identifiers_of_accepted (accepted enum mem) pair inside

theorem attemptAll_listing (identifiers : ∀ pair ∈ known, Identifiers pair)
    (enums : List (String × List String)) :
    (table.listing symbols known).attemptAll enums =
      table.listing (((enums.filter isAccepted).map Prod.fst).foldl appendNew symbols)
        (((enums.filter isAccepted).flatMap pairs).foldl appendNew known) := by
  induction enums generalizing symbols known with
  | nil => rfl
  | cons enum rest ih =>
    have step : (table.listing symbols known).attemptAll (enum :: rest) =
      ((table.listing symbols known).attempt enum).2.attemptAll rest := rfl
    rw [step]
    by_cases accepted : isAccepted enum = true
    · have new := identifiers_foldl identifiers (List.forall_mem_singleton.mpr accepted)
      simp only [List.flatMap_cons, List.flatMap_nil, List.append_nil] at new
      rw [attempt_listing identifiers accepted, ih new]
      simp [accepted, List.foldl_append]
    · obtain ⟨cause, -, stays⟩ :=
        (table.listing symbols known).attempt_of_not_accepted (by simpa using accepted)
      rw [stays, ih identifiers]
      simp [accepted]

theorem fallbackType_of_registerAll {module fallbackType : String}
    {enums : List (String × List String)} {table : EnumTable}
    (done : registerAll { builtIn with module, fallbackType } enums = .ok table) :
    table.fallbackType = fallbackType := by
  obtain ⟨-, rfl⟩ := registerAll_eq_ok_iff.mp done
  rw [builtIn_eq_listing, attemptAll_listing identifiers_builtInPairs]
  rfl

/-- A refusal names the first name that is at fault, and the table stays. -/
theorem attempt_refuses (table : EnumTable) (enum : String × List String) :
    ((table.attempt enum).1 ≠ none ↔
      isIdentifier enum.1 = false ∨ ∃ value ∈ enum.2, isIdentifier value = false) ∧
    ∀ cause, (table.attempt enum).1 = some cause →
      Refused enum.1 enum.2 cause ∧ (table.attempt enum).2 = table := by
  have faulty_iff : isAccepted enum = false ↔
      isIdentifier enum.1 = false ∨ ∃ value ∈ enum.2, isIdentifier value = false := by
    simp [isAccepted, imp_iff_not_or]
  rw [← faulty_iff]
  cases accepted : isAccepted enum with
  | true => simp [attempt_of_accepted table accepted]
  | false =>
    obtain ⟨cause, refused, stays⟩ := table.attempt_of_not_accepted accepted
    simp [stays, refused]

theorem attemptAll_builtIn_eq_listing (enums : List (String × List String)) :
    builtIn.attemptAll enums = builtIn.listing
      (((enums.filter isAccepted).map Prod.fst).foldl appendNew builtIn.symbols)
      (((enums.filter isAccepted).flatMap pairs).foldl appendNew builtInPairs) := by
  have start : builtIn = builtIn.listing builtIn.symbols builtInPairs :=
    builtIn_eq_listing builtIn.module builtIn.fallbackType
  rw [← attemptAll_listing identifiers_builtInPairs, ← start]

/-- However often and with whatever names enums are registered: a registration fails exactly if one
of its names is no identifier, for the first such name, and changes nothing then. The table is the
built-in one, followed by what is new in the registrations that succeeded, in the order in which it
came first. So nothing stands in it twice, and a registration that has succeeded adds nothing when
it is made again. -/
theorem attemptAll_builtIn (enums : List (String × List String)) :
    (∀ (before : EnumTable) (enum : String × List String),
      ((before.attempt enum).1 ≠ none ↔
        isIdentifier enum.1 = false ∨ ∃ value ∈ enum.2, isIdentifier value = false) ∧
      ∀ cause, (before.attempt enum).1 = some cause →
        Refused enum.1 enum.2 cause ∧ (before.attempt enum).2 = before) ∧
    (builtIn.symbols.length = 7 ∧ builtIn.replacements.length = 24) ∧
    let accepted := enums.filter isAccepted
    let table := builtIn.attemptAll enums
    table = { builtIn with
      symbols := builtIn.symbols ++
        ((accepted.map Prod.fst).filter (· ∉ builtIn.symbols)).eraseDups
      replacements := builtIn.replacements ++
        ((accepted.flatMap pairs).filter (· ∉ builtInPairs)).eraseDups.map entry } ∧
    table.symbols.Nodup ∧ (table.replacements.map Prod.fst).Nodup ∧
    (∀ pair ∈ builtInPairs ++ accepted.flatMap pairs,
      ∀ other ∈ builtInPairs ++ accepted.flatMap pairs,
        token pair.1 pair.2 = token other.1 other.2 → pair = other) ∧
    ∀ enum ∈ accepted, table.attempt enum = (none, table) := by
  refine ⟨attempt_refuses, by decide +kernel, ?_⟩
  intro accepted table
  let known := (accepted.flatMap pairs).foldl appendNew builtInPairs
  have listed : table =
      builtIn.listing ((accepted.map Prod.fst).foldl appendNew builtIn.symbols) known :=
    attemptAll_builtIn_eq_listing enums
  have each : ∀ enum ∈ accepted, isAccepted enum = true := by simp [accepted]
  have identifiers : ∀ pair ∈ known, Identifiers pair :=
    identifiers_foldl identifiers_builtInPairs each
  have nodup : builtIn.symbols.Nodup ∧ builtInPairs.Nodup := by decide +kernel
  rw [listed]
  refine ⟨?_, nodup_foldl_appendNew nodup.1 _,
    nodup_tokens_listing identifiers (nodup_foldl_appendNew nodup.2 _),
    fun pair mem other mem' => ?_, fun enum mem => ?_⟩
  · rw [listing, foldl_appendNew]
    simp [known, foldl_appendNew, replacements_builtIn]
  · rw [List.mem_append, ← mem_foldl_appendNew] at mem mem'
    exact eq_of_token_eq (identifiers pair mem) (identifiers other mem')
  · refine attempt_listing_of_mem identifiers (each enum mem) ?_ fun pair inside => ?_
    · exact mem_foldl_appendNew.mpr (.inr (List.mem_map_of_mem mem))
    · exact mem_foldl_appendNew.mpr (.inr (List.mem_flatMap.mpr ⟨enum, mem, inside⟩))

theorem attemptAll_builtIn_mixed :
    let enums := [("Role", ["ADMIN", "USER", "ADMIN"]), ("Plan", ["FREE", "2"]),
      ("OrderStatus", ["PAID", "LOST"])]
    let table := builtIn.attemptAll enums
    table = { builtIn with
      symbols := builtIn.symbols ++ ["Role"]
      replacements := builtIn.replacements ++ [("Role.ADMIN", "\"ADMIN\""),
        ("Role.USER", "\"USER\""), ("OrderStatus.LOST", "\"LOST\"")] } ∧
    (table.attempt ("Plan", ["FREE", "2"])).1 = some (.notIdentifier "enum value" "2") ∧
    (table.attempt ("Plan", ["FREE", "2"])).2 = table ∧
    table.attempt ("OrderStatus", ["PAID", "LOST"]) = (none, table) := by
  intro enums table
  obtain ⟨answers, -, listed, -, -, -, again⟩ := attemptAll_builtIn enums
  have refused : (table.attempt ("Plan", ["FREE", "2"])).1 =
      some (.notIdentifier "enum value" "2") := by decide +kernel
  exact ⟨listed.trans (by decide +kernel), refused,
    ((answers table ("Plan", ["FREE", "2"])).2 _ refused).2,
    again ("OrderStatus", ["PAID", "LOST"]) (by decide +kernel)⟩

end EnumTable

end Codemod
