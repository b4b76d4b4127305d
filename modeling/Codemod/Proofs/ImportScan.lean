import Codemod.Proofs.Shapes
import Codemod.Proofs.WrittenRules
import Mathlib.Data.List.Infix
import Mathlib.Data.Option.Basic

/-!
# Imports by a plain scan

The patterns for imports have several repetitions one after the other. What
they find is found by a scan that goes through an import once: each run of
blanks is taken as a whole, the names end at the first closing brace, and the
end of the line is taken if it follows (`importShape`). The rules of a table
make the edits of that scan (`follows_importRule`).
-/

namespace Codemod

-- ---------------------------------------------------------------------------
-- A last part that may be left out
-- ---------------------------------------------------------------------------

namespace Pattern

theorem ways_inOrder_append (first second : List Pattern) :
    (inOrder (first ++ second)).ways = inTurn (inOrder first).ways (inOrder second).ways := by
  induction first with
  | nil => exact (nothing_inTurn _).symm
  | cons part rest ih =>
    rw [List.cons_append, ways_inOrder_cons, ih, ways_inOrder_cons, inTurn_assoc]

theorem ways_optional (body : Pattern) (text : Text) :
    (optional body).ways text = body.ways text ++ [.nothing text] := by
  rw [optional, ways, inTurn_roundsWays_zero, Nat.sub_zero, upToWays_one]
  rfl

theorem matchAt_optional {parts : List Pattern} {body : Pattern} {offset : Nat} {piece : Match}
    {after : Text} (plain : body.Plain) (whole : (inOrder (parts ++ [optional body])).Plain)
    (found : (inOrder (parts ++ [optional body])).matchAt offset (piece.text ++ after) =
      some piece) :
    (∃ front last groups, body.Reads last groups ∧ piece.text = front ++ last) ∨
      ∀ last groups, body.Reads last groups → ¬ last <+: after := by
  have last : (inOrder [optional body]).ways = (optional body).ways := by
    rw [ways_inOrder_cons]
    exact inTurn_nothing _
  rw [matchAt_eq_head? whole, ways_inOrder_append, last] at found
  obtain ⟨way, head, rfl⟩ := Option.map_eq_some_iff.mp found
  rw [inTurn] at head
  -- the preferred way reads the other parts in their first way, and the last part if it can
  cases before : (inOrder parts).ways (way.taken ++ after) with
  | nil => simp [before] at head
  | cons start others =>
    have split := splits_ways (inOrder parts) _ start (by rw [before]; exact List.mem_cons_self)
    rw [before, List.flatMap_cons, ways_optional] at head
    cases ended : body.ways start.rest with
    | nil =>
      right
      rw [ended] at head
      obtain rfl : start.andThen (.nothing start.rest) = way := by simpa using head
      have rest : after = start.rest := by simpa [Way.andThen, Way.nothing] using split
      rintro stop groups reads ⟨later, remains⟩
      have mem : ⟨stop, later, groups⟩ ∈ body.ways start.rest :=
        (mem_ways_iff plain).mpr ⟨rest.symm.trans remains.symm, reads⟩
      rw [ended] at mem
      cases mem
    | cons stop more =>
      left
      rw [ended] at head
      obtain rfl : start.andThen stop = way := by simpa using head
      have mem : stop ∈ body.ways start.rest := by rw [ended]; exact List.mem_cons_self
      exact ⟨start.taken, stop.taken, stop.groups, ((mem_ways_iff plain).mp mem).2, rfl⟩

end Pattern

namespace EnumRules

open Pattern
open Text (Blank Stops stops_cons skipBlanks upTo dropPrefix?_eq_some)

-- ---------------------------------------------------------------------------
-- The scan
-- ---------------------------------------------------------------------------

/-- The text behind an import from the module, if what is between the braces is wanted. -/
def afterImport (module : String) (wanted : Text → Bool) (text : Text) : Option Text := do
  let text ← text.dropPrefix? "import".toList
  let text ← (skipBlanks text).dropPrefix? ['{']
  guard (wanted (text.takeWhile (· != '}')))
  let text ← (text.dropWhile (· != '}')).dropPrefix? ['}']
  let text ← (skipBlanks text).dropPrefix? "from".toList
  (skipBlanks text).dropPrefix? ('"' :: module.toList ++ "\";".toList)

def afterLineEnd (text : Text) : Text :=
  (text.dropPrefix? ['\r', '\n'] <|> text.dropPrefix? ['\n']).getD text

def importShape (module : String) (wanted : Text → Bool) : Shape := fun text => do
  let rest ← afterImport module wanted text
  return (upTo (afterLineEnd rest) text, [])

def naming (symbol : String) (body : Text) : Bool := symbol.toList <:+: body

def leading (symbol : String) (body : Text) : Bool := symbol.toList.isPrefixOf (skipBlanks body)

theorem afterImport_eq_some {module : String} {wanted : Text → Bool} {text rest : Text} :
    afterImport module wanted text = some rest ↔
      ∃ body stmt, wanted body = true ∧ Imports module body stmt ∧ text = stmt ++ rest := by
  simp only [afterImport, Option.bind_eq_bind, Option.bind_eq_some_iff, dropPrefix?_eq_some,
    Option.guard_eq_some']
  constructor
  · rintro ⟨start, rfl, inside, opens, -, isWanted, behind, closes, named, word, quoted⟩
    obtain ⟨blank, isBlank, split⟩ := Text.exists_blank start
    obtain ⟨first, isBlank₁, split₁⟩ := Text.exists_blank behind
    obtain ⟨second, isBlank₂, split₂⟩ := Text.exists_blank named
    have absent : '}' ∉ inside.takeWhile (· != '}') := fun mem => by
      simpa using List.mem_takeWhile_imp mem
    have whole : inside = inside.takeWhile (· != '}') ++ '}' :: behind := by
      rw [← List.singleton_append, ← closes, List.takeWhile_append_dropWhile]
    generalize inside.takeWhile (· != '}') = body at isWanted absent whole
    refine ⟨body, _, isWanted, .mk ⟨blank, isBlank, rfl⟩ absent
      ⟨first, second, isBlank₁, isBlank₂, rfl⟩, ?_⟩
    rw [split, opens, whole, split₁, word, split₂, quoted]
    simp
  · rintro ⟨body, _, isWanted, ⟨⟨blank, isBlank, rfl⟩, absent, first, second, h₁, h₂, rfl⟩, rfl⟩
    have kept : ∀ c ∈ body, (c != '}') = true := fun c mem => by
      simpa using fun same : c = '}' => absent (same ▸ mem)
    have stops (rest : Text) : Stops (· != '}') ('}' :: rest) := stops_cons rfl
    refine ⟨_, by simp, _, Text.skipBlanks_append isBlank (stops_cons (by decide)), (), ?_, _,
      Text.dropWhile_append kept (stops _), _,
      Text.skipBlanks_append h₁ (stops_cons (by decide)),
      Text.skipBlanks_append h₂ (stops_cons (by decide))⟩
    exact (Text.takeWhile_append kept (stops _)).symm ▸ isWanted

theorem importShape_eq_some {module : String} {wanted : Text → Bool} {text old new : Text} :
    importShape module wanted text = some (old, new) ↔
      ∃ rest, afterImport module wanted text = some rest ∧
        upTo (afterLineEnd rest) text = old ∧ [] = new := by
  simp [importShape, Option.bind_eq_some_iff]

-- ---------------------------------------------------------------------------
-- The end of the line
-- ---------------------------------------------------------------------------

theorem exists_lineEnd (text : Text) :
    ∃ ending, LineEnd ending ∧ text = ending ++ afterLineEnd text := by
  cases long : text.dropPrefix? ['\r', '\n'] with
  | some rest =>
    refine ⟨['\r', '\n'], .inr (.inr rfl), ?_⟩
    simpa [afterLineEnd, long] using dropPrefix?_eq_some.mp long
  | none =>
    cases short : text.dropPrefix? ['\n'] with
    | some rest =>
      refine ⟨['\n'], .inr (.inl rfl), ?_⟩
      simpa [afterLineEnd, long, short] using dropPrefix?_eq_some.mp short
    | none => exact ⟨[], .inl rfl, by simp [afterLineEnd, long, short]⟩

theorem afterLineEnd_append {ending after : Text} (isEnd : LineEnd ending)
    (none : ending = [] → ∀ last, LineEnd last → last ≠ [] → ¬ last <+: after) :
    afterLineEnd (ending ++ after) = after := by
  rcases isEnd with rfl | rfl | rfl
  · have absent (last : Text) (isEnd : LineEnd last) (ne : last ≠ []) :
        after.dropPrefix? last = .none :=
      Option.eq_none_iff_forall_ne_some.mpr fun rest found =>
        none rfl last isEnd ne ⟨rest, (dropPrefix?_eq_some.mp found).symm⟩
    simp [afterLineEnd, absent _ (.inr (.inl rfl)), absent _ (.inr (.inr rfl))]
  · simp [afterLineEnd, List.dropPrefix?]
  · simp [afterLineEnd, List.dropPrefix?]

theorem newline_of_reads {last : Text} {groups : List (Nat × Text)}
    (reads : lineEnd.Reads last groups) : ∃ front, last = front ++ ['\n'] := by
  obtain ⟨front, _, _, _, rfl, -, -, newline⟩ := reads_seq.mp reads
  exact ⟨front, by rw [(reads_single.mp newline).1]⟩

theorem reads_of_lineEnd {last : Text} (isEnd : LineEnd last) (ne : last ≠ []) :
    lineEnd.Reads last [] :=
  (reads_optional.mp (reads_lineEnd.mpr ⟨isEnd, rfl⟩)).resolve_left fun empty => ne empty.1

theorem Imports.semicolon {module : String} {body stmt : Text}
    (imports : Imports module body stmt) : ∃ front, stmt = front ++ [';'] := by
  obtain @⟨opening, -, -, -, first, second, -, -, rfl⟩ := imports
  exact ⟨opening ++ body ++ '}' ::
    (first ++ "from".toList ++ second ++ '"' :: module.toList ++ ['"']), by simp⟩

-- ---------------------------------------------------------------------------
-- The rules
-- ---------------------------------------------------------------------------

theorem plain_lineEnd : lineEnd.Plain := .seq (.optional true (.one _)) (.one _)

theorem exists_importOf_eq (body : Pattern) (module : String) :
    ∃ parts, importOf body module = inOrder (parts ++ [optional lineEnd]) :=
  ⟨[literal "import".toList, blanks, one (.single '{'), blanks, body, insideBraces,
    one (.single '}'), blanks, literal "from".toList, blanks, one (.single '"'),
    literal module.toList, literal "\";".toList], rfl⟩

theorem follows_importOf {label module : String} {body : Pattern} {wanted : Text → Bool}
    (plain : body.Plain)
    (turns : ∀ {old new}, Rule.Turns ⟨label, .reshape (importOf body module) []⟩ old new ↔
      new = [] ∧ ∃ text stmt ending, wanted text = true ∧ Imports module text stmt ∧
        LineEnd ending ∧ old = stmt ++ ending) :
    Rule.Follows ⟨label, .reshape (importOf body module) []⟩ (importShape module wanted) := by
  have solid : Rule.Solid ⟨label, .reshape (importOf body module) []⟩ := solid_importOf plain
  refine Rule.follows_of_turns solid ?_ ?_ ?_
  · intro old new turn same
    exact solid.not_turns_nil ⟨new, (turns.mp turn).1 ▸ same ▸ turn⟩
  · intro offset after piece found
    obtain ⟨new, text, stmt, ending, isWanted, imports, isEnd, old⟩ :=
      turns.mp (Rule.turns_of_found solid found).2
    have none : ending = [] → ∀ last, LineEnd last → last ≠ [] → ¬ last <+: after := by
      rintro rfl last isEnd ne
      obtain ⟨parts, same⟩ := exists_importOf_eq body module
      have whole : (importOf body module).Plain := solid.1
      have matched : (importOf body module).matchAt offset (piece.text ++ after) = some piece :=
        found
      rw [same] at whole matched
      rcases matchAt_optional plain_lineEnd whole matched with
        ⟨front, tail, groups, reads, text⟩ | none
      · obtain ⟨inner, rfl⟩ := newline_of_reads reads
        obtain ⟨before, rfl⟩ := imports.semicolon
        have last := congrArg List.getLast? (old.symm.trans text)
        simp at last
      · exact none last [] (reads_of_lineEnd isEnd ne)
    refine importShape_eq_some.mpr ⟨ending ++ after, afterImport_eq_some.mpr
      ⟨text, stmt, isWanted, imports, by rw [old, List.append_assoc]⟩, ?_, new.symm⟩
    rw [afterLineEnd_append isEnd none, Text.upTo_append]
  · intro text old new shaped
    obtain ⟨rest, found, rfl, rfl⟩ := importShape_eq_some.mp shaped
    obtain ⟨body, stmt, isWanted, imports, rfl⟩ := afterImport_eq_some.mp found
    obtain ⟨ending, isEnd, split⟩ := exists_lineEnd rest
    have whole : stmt ++ rest = (stmt ++ ending) ++ afterLineEnd rest := by
      rw [List.append_assoc, ← split]
    rw [whole, Text.upTo_append]
    exact ⟨List.prefix_append ..,
      turns.mpr ⟨rfl, body, stmt, ending, isWanted, imports, isEnd, rfl⟩⟩

theorem follows_importRule {module symbol : String} (closed : '}' ∉ symbol.toList) :
    (importRule module symbol).Follows (importShape module (naming symbol)) := by
  refine follows_importOf (.seq (.anyNumber _ true) (plain_literal _)) fun {old new} => ?_
  exact (turns_importRule closed).trans (by simp only [naming, decide_eq_true_eq])

theorem leading_namespaceName {body : Text} : leading namespaceName body = true ↔
    ∃ blank, Blank blank ∧ blank ++ namespaceName.toList <+: body := by
  rw [leading, List.isPrefixOf_iff_prefix]
  constructor
  · rintro ⟨rest, found⟩
    obtain ⟨blank, isBlank, split⟩ := Text.exists_blank body
    exact ⟨blank, isBlank, rest, by rw [List.append_assoc, found, ← split]⟩
  · rintro ⟨blank, isBlank, rest, rfl⟩
    have stops : Stops Text.isWhiteSpace (namespaceName.toList ++ rest) :=
      stops_cons (by decide : Text.isWhiteSpace 'P' = false)
    rw [List.append_assoc, Text.skipBlanks_append isBlank stops]
    exact List.prefix_append ..

theorem follows_namespaceRule (module : String) :
    (namespaceRule module).Follows (importShape module (leading namespaceName)) := by
  refine follows_importOf (plain_literal _) fun {old new} => ?_
  exact turns_namespaceRule.trans (by simp only [leading_namespaceName])

def importScans (table : EnumTable) (source : Text) : List (List Edit) :=
  table.symbols.map (fun symbol => (importShape table.module (naming symbol)).edits
    (importRule table.module symbol).name source) ++
  [(importShape table.module (leading namespaceName)).edits (namespaceRule table.module).name
    source]

/-- The rules of a table can be read from their written form, whatever marks its texts have, and
each import rule makes the edits of a plain scan. -/
theorem read_and_edits_importRules (table : EnumTable) (braceless : Braceless table) :
    (∃ written, RuleSet.read table = .ok written ∧ written.ActsAs (.ofTable table)) ∧
      ∀ source, (importRules table).map (·.edits source) = importScans table source := by
  refine ⟨RuleSet.read_eq_ok table, fun source => ?_⟩
  rw [importRules, importScans, List.map_append, List.map_map]
  congr 1
  · refine List.map_congr_left fun symbol known => ?_
    exact (follows_importRule (braceless symbol known)).edits_eq source
  · exact congrArg (fun edits => [edits]) ((follows_namespaceRule table.module).edits_eq source)

theorem edits_importRules_marked :
    Braceless ⟨"a+b$", ["(x|y)*"], [], "T"⟩ ∧
      (importRules ⟨"a+b$", ["(x|y)*"], [], "T"⟩).map
        (·.edits "import\n\x7b z,(x|y)* as w\x7dfrom \"a+b$\";\r\n\n".toList) =
          [[⟨0, 37, [], some "import \x7b (x|y)* \x7d"⟩], []] := by
  have braceless : Braceless ⟨"a+b$", ["(x|y)*"], [], "T"⟩ := by simp [Braceless]
  refine ⟨braceless, ?_⟩
  rw [(read_and_edits_importRules _ braceless).2]
  decide +kernel

end EnumRules

end Codemod
