import Codemod.Proofs.Runs

/-!
# Dry runs

A dry run is to report what a real run would do. It reads each file as it was
found, while a real run that comes to a file by a second path finds it revised.
So the two agree exactly if files that are found again are changed again in the
same way (`Steady`), and always if no two paths lead to one file
(`steady_of_apart`). A link to a file that the built-in rules change is enough
to tell the runs apart.
-/

namespace Codemod

namespace Migration

variable {ρ : Type} [PatternLanguage ρ]

theorem append_inj_of_forall {α : Type} (p : α → Bool) {a b c d : List α}
    (ha : ∀ x ∈ a, p x) (hb : ∀ x ∈ b, ¬ p x) (hc : ∀ x ∈ c, p x) (hd : ∀ x ∈ d, ¬ p x) :
    a ++ b = c ++ d ↔ a = c ∧ b = d := by
  constructor
  · intro same
    have first : a = c := by
      have kept := congrArg (List.filter p) same
      rwa [List.filter_append, List.filter_append, List.filter_eq_self.mpr ha,
        List.filter_eq_self.mpr hc, List.filter_eq_nil_iff.mpr hb, List.filter_eq_nil_iff.mpr hd,
        List.append_nil, List.append_nil] at kept
    subst first
    exact ⟨rfl, List.append_cancel_left same⟩
  · rintro ⟨rfl, rfl⟩
    rfl

def Fix.report (fix : Fix) : Path × Category × Nat :=
  (fix.file, fix.category, fix.revision.editCount)

def reports (fixes : List Fix) : List (Path × Category × Nat) := fixes.map Fix.report

section

variable {rules : RuleSet ρ} {categories : List Category} {tree : FileTree}

theorem file_of_mem_reports_fixesAt {times : Nat} {path : Path} {report : Path × Category × Nat}
    (mem : report ∈ reports (fixesAt rules categories tree times path)) : report.1 = path := by
  obtain ⟨fix, made, rfl⟩ := List.mem_map.mp mem
  rw [fixesAt] at made
  split at made
  next =>
    obtain ⟨⟨category, revision⟩, -, made⟩ := List.mem_filterMap.mp made
    obtain ⟨revision, -, rfl⟩ := Option.map_eq_some_iff.mp made
    rfl
  next => cases made

theorem file_of_mem_reports_fixesFrom {options : Options} {before paths : List Path}
    {report : Path × Category × Nat}
    (mem : report ∈ reports (fixesFrom rules options tree before paths)) : report.1 ∈ paths := by
  induction paths generalizing before with
  | nil => cases mem
  | cons path rest ih =>
    rw [fixesFrom, reports, List.map_append, List.mem_append] at mem
    rcases mem with here | later
    · exact List.mem_cons.mpr (.inl (file_of_mem_reports_fixesAt here))
    · exact List.mem_cons_of_mem _ (ih later)

theorem reports_fixesFrom_inj {left right : Options} {before paths : List Path}
    (nodup : paths.Nodup) :
    reports (fixesFrom rules left tree before paths) =
        reports (fixesFrom rules right tree before paths) ↔
      ∀ earlier path later, paths = earlier ++ path :: later →
        reports (fixesAt rules left.categories tree
            (visits tree (written left (before ++ earlier)) (tree.place? path)) path) =
          reports (fixesAt rules right.categories tree
            (visits tree (written right (before ++ earlier)) (tree.place? path)) path) := by
  induction paths generalizing before with
  | nil => simp [fixesFrom]
  | cons first rest ih =>
    obtain ⟨fresh, nodup⟩ := List.nodup_cons.mp nodup
    have here : ∀ categories times, ∀ report ∈ reports (fixesAt rules categories tree times first),
        decide (report.1 = first) := fun _ _ _ mem => by simpa using file_of_mem_reports_fixesAt mem
    have elsewhere : ∀ options before,
        ∀ report ∈ reports (fixesFrom rules options tree before rest),
          ¬ decide (report.1 = first) := by
      intro options before report mem same
      have inRest := file_of_mem_reports_fixesFrom mem
      rw [of_decide_eq_true same] at inRest
      exact fresh inRest
    have apart := append_inj_of_forall
      (fun report : Path × Category × Nat => decide (report.1 = first))
      (here left.categories (visits tree (written left before) (tree.place? first)))
      (elsewhere left (before ++ [first]))
      (here right.categories (visits tree (written right before) (tree.place? first)))
      (elsewhere right (before ++ [first]))
    simp only [reports] at apart ih ⊢
    rw [fixesFrom, fixesFrom, List.map_append, List.map_append, apart, ih nodup]
    constructor
    · rintro ⟨same, more⟩ earlier path later split
      rcases List.cons_eq_append_iff.mp split with ⟨rfl, at_first⟩ | ⟨middle, rfl, inside⟩
      · obtain ⟨rfl, -⟩ := List.cons.inj at_first
        simpa using same
      · simpa using more middle path later inside
    · intro all
      refine ⟨by simpa using all [] first rest rfl, fun earlier path later split => ?_⟩
      simpa using all (first :: earlier) path later (by rw [split, List.cons_append])

theorem notices_eq_of_reports {left right : List Fix} (same : reports left = reports right) :
    notices left = notices right := by
  have ofReports : ∀ fixes, notices fixes = String.join ((reports fixes).map fun report =>
      Report.fixNotice report.2.1 report.1) := by
    intro fixes
    simp [notices, reports, Fix.report, Function.comp_def]
  rw [ofReports, ofReports, same]

theorem fixCount_eq_of_reports {left right : List Fix} (same : reports left = reports right)
    (category : Category) : fixCount left category = fixCount right category := by
  have ofReports : ∀ fixes, fixCount fixes category =
      (reports fixes).countP fun report => report.2.1 = category := by
    intro fixes
    rw [reports, List.countP_map]
    rfl
  rw [ofReports, ofReports, same]

end

-- ---------------------------------------------------------------------------
-- Two runs
-- ---------------------------------------------------------------------------

def Options.dry (options : Options) : Options := { options with dryRun := true }

def Options.real (options : Options) : Options := { options with dryRun := false }

/-- A dry run and a real run over the same tree have the same outcome, and print the same but for
the notice of the dry run. -/
structure Agrees (options : Options) (dry real : Run) : Prop where
  failure : dry.progress.failure = real.progress.failure
  scanned : real.progress.failure = none → dry.filesScanned = real.filesScanned
  counts : real.progress.failure = none →
    ∀ category, dry.filesFixed category = real.filesFixed category
  fixes : real.progress.failure = none →
    reports dry.progress.fixes = reports real.progress.fixes
  stdout : ∀ color, dry.stdout options.dry color =
    Report.dryRunNotice color ++ real.stdout options.real color

/-- A file that is found again is changed again in the same way as at first. Where the run fails,
only what is printed about the files before has to be the same. -/
structure Steady (rules : RuleSet ρ) (options : Options) (tree : FileTree) : Prop where
  complete : (∀ path ∈ options.files tree, Passable options tree path) →
    ∀ before path after, options.files tree = before ++ path :: after →
      reports (fixesAt rules options.categories tree
          (visits tree before (tree.place? path)) path) =
        reports (fixesAt rules options.categories tree 0 path)
  stopped : ∀ before path after, options.files tree = before ++ path :: after →
    (∀ earlier ∈ before, Passable options tree earlier) → ¬ Passable options tree path →
      notices (fixesFrom rules options.real tree [] before) =
        notices (fixesFrom rules options.dry tree [] before)

section

variable {rules : RuleSet ρ} {options : Options} {tree : FileTree} {paths : List Path}
variable {dry real : Run}

theorem agrees_iff_reports (outcomeDry : Outcome rules options.dry tree paths none dry)
    (outcomeReal : Outcome rules options.real tree paths none real) :
    Agrees options dry real ↔
      reports (fixesFrom rules options.real tree [] paths) =
        reports (fixesFrom rules options.dry tree [] paths) := by
  constructor
  · intro agrees
    rw [← outcomeDry.fixes, ← outcomeReal.fixes, agrees.fixes outcomeReal.result]
  · intro same
    rw [← outcomeDry.fixes, ← outcomeReal.fixes] at same
    have counts : ∀ category, dry.filesFixed category = real.filesFixed category := by
      intro category
      rw [outcomeDry.counts, outcomeReal.counts, fixCount_eq_of_reports same]
    refine ⟨outcomeDry.result.trans outcomeReal.result.symm,
      fun _ => outcomeDry.scanned.trans outcomeReal.scanned.symm, fun _ => counts,
      fun _ => same.symm, fun color => ?_⟩
    simp only [Run.stdout, outcomeDry.printed, outcomeReal.printed, notices_eq_of_reports same,
      Run.ending, counts]
    rfl

theorem agrees_iff_notices {cause : Failure}
    (outcomeDry : Outcome rules options.dry tree paths (some cause) dry)
    (outcomeReal : Outcome rules options.real tree paths (some cause) real) :
    Agrees options dry real ↔
      notices (fixesFrom rules options.real tree [] paths) =
        notices (fixesFrom rules options.dry tree [] paths) := by
  have fails : real.progress.failure ≠ none := by simp [outcomeReal.result]
  have stdoutDry : ∀ color, dry.stdout options.dry color = Report.dryRunNotice color ++
      (Report.header (options.files tree).length ++
        notices (fixesFrom rules options.dry tree [] paths)) := by
    intro color
    rw [Run.stdout, outcomeDry.printed, outcomeDry.fixes, Run.ending, String.append_empty]
    rfl
  have stdoutReal : ∀ color, real.stdout options.real color =
      Report.header (options.files tree).length ++
        notices (fixesFrom rules options.real tree [] paths) := by
    intro color
    rw [Run.stdout, outcomeReal.printed, outcomeReal.fixes, Run.ending, String.append_empty]
    exact String.empty_append
  constructor
  · intro agrees
    have same := agrees.stdout true
    rw [stdoutDry, stdoutReal, String.append_right_inj, String.append_right_inj] at same
    exact same.symm
  · intro same
    refine ⟨outcomeDry.result.trans outcomeReal.result.symm, fun succeeds => absurd succeeds fails,
      fun succeeds => absurd succeeds fails, fun succeeds => absurd succeeds fails, fun color => ?_⟩
    rw [stdoutDry, stdoutReal, same]

theorem agrees_iff_of_passable [PatternLanguage.Lawful ρ] (rules : RuleSet ρ) (wf : tree.WellFormed)
    (passable : ∀ path ∈ options.files tree, Passable options tree path) :
    Agrees options (run rules options.dry tree) (run rules options.real tree) ↔
      ∀ before path after, options.files tree = before ++ path :: after →
        reports (fixesAt rules options.categories tree
            (visits tree before (tree.place? path)) path) =
          reports (fixesAt rules options.categories tree 0 path) := by
  have dry : Outcome rules options.dry tree (options.files tree) none _ :=
    run_completed rules wf passable
  have real : Outcome rules options.real tree (options.files tree) none _ :=
    run_completed rules wf passable
  have nodup : (options.files tree).Nodup := Discovery.nodup_files wf
  rw [agrees_iff_reports dry real, reports_fixesFrom_inj nodup]
  exact Iff.rfl

theorem agrees_iff_of_first [PatternLanguage.Lawful ρ] (rules : RuleSet ρ) (wf : tree.WellFormed)
    {before after : List Path} {path : Path} (found : options.files tree = before ++ path :: after)
    (passable : ∀ earlier ∈ before, Passable options tree earlier)
    (ne : options.categories ≠ []) (notText : tree.readText path = .error .notText) :
    Agrees options (run rules options.dry tree) (run rules options.real tree) ↔
      notices (fixesFrom rules options.real tree [] before) =
        notices (fixesFrom rules options.dry tree [] before) := by
  have dry : Outcome rules options.dry tree before _ _ :=
    run_stopped rules wf found passable ne notText
  have real : Outcome rules options.real tree before _ _ :=
    run_stopped rules wf found passable ne notText
  exact agrees_iff_notices dry real

theorem steady_of_apart (rules : RuleSet ρ) (apart : Apart tree (options.files tree)) :
    Steady rules options tree := by
  constructor
  · intro _ before path after found
    rw [found] at apart
    have across := (List.pairwise_append.mp apart).2.2
    have unvisited : visits tree before (tree.place? path) = 0 :=
      visits_eq_zero_iff.mpr fun other mem => across other mem path List.mem_cons_self
    rw [unvisited]
  · intro before path after found _ _
    rw [found] at apart
    have first : Apart tree ([] ++ before) := (List.pairwise_append.mp apart).1
    rw [fixesFrom_eq_flatMap rules (.inr first), fixesFrom_eq_flatMap rules (.inl rfl)]
    rfl

/-- A dry run and a real run agree exactly if files that are found again are changed again in the
same way. So they always do in a tree without links. -/
theorem dryRun_agrees_iff_steady [PatternLanguage.Lawful ρ] (wf : tree.WellFormed) :
    (Agrees options (run rules options.dry tree) (run rules options.real tree) ↔
      Steady rules options tree) ∧
    (tree.Unlinked →
      Agrees options (run rules options.dry tree) (run rules options.real tree)) := by
  have iff : Agrees options (run rules options.dry tree) (run rules options.real tree) ↔
      Steady rules options tree := by
    constructor
    · intro agrees
      constructor
      · intro passable
        exact (agrees_iff_of_passable rules wf passable).mp agrees
      · intro before path after found passable stops
        obtain ⟨ne, notText⟩ : options.categories ≠ [] ∧ tree.readText path = .error .notText := by
          simpa [Passable] using stops
        exact (agrees_iff_of_first rules wf found passable ne notText).mp agrees
    · intro steady
      rcases passable_or_first options tree (options.files tree) with
        all | ⟨before, path, after, found, earlier, ne, notText⟩
      · exact (agrees_iff_of_passable rules wf all).mpr (steady.complete all)
      · have stops : ¬ Passable options tree path := by simp [Passable, ne, notText]
        exact (agrees_iff_of_first rules wf found earlier ne notText).mpr
          (steady.stopped before path after found earlier stops)
  exact ⟨iff, fun unlinked => iff.mpr (steady_of_apart rules (apart_files wf unlinked))⟩

end

def linkedTree : FileTree where
  entries := [(["a.ts"], .file (FileTree.encode "OrderStatus.PAID".toList)),
    (["b.ts"], .link "a.ts")]

theorem dryRun_agrees_at_link :
    linkedTree.WellFormed ∧
    Agrees { root := "b.ts" } (run (.ofTable .builtIn) { root := "b.ts", dryRun := true } linkedTree)
      (run (.ofTable .builtIn) { root := "b.ts" } linkedTree) := by
  have wf : linkedTree.WellFormed := by decide +kernel
  have files : Options.files { root := "b.ts" } linkedTree = ["b.ts"] := by decide +kernel
  have apart : Apart linkedTree (Options.files { root := "b.ts" } linkedTree) := by
    rw [files]
    exact List.pairwise_singleton _ _
  exact ⟨wf, (dryRun_agrees_iff_steady wf).1.mpr (steady_of_apart _ apart)⟩

theorem files_linkedTree :
    Discovery.files linkedTree {} "." = ["./a.ts", "./b.ts"] := by
  have names : linkedTree.namesIn [] = ["a.ts", "b.ts"] :=
    List.mergeSort_of_pairwise (by decide +kernel)
  have seen : Discovery.look linkedTree [] "." = .directory [] := by decide +kernel
  rw [Discovery.files_of_directory (by decide +kernel) rfl seen, names]
  decide +kernel

/-- The dry run counts the file at both paths, while the real run finds nothing to change at the
second. -/
theorem dryRun_disagrees_at_file_and_link :
    ¬ Agrees { root := "." } (run (.ofTable .builtIn) { root := ".", dryRun := true } linkedTree)
      (run (.ofTable .builtIn) { root := "." } linkedTree) := by
  intro agrees
  have real : (run (.ofTable .builtIn) { root := "." } linkedTree).progress.failure = none ∧
      (run (.ofTable .builtIn) { root := "." } linkedTree).progress.tally.enumFiles = 1 := by
    rw [run_progress, Options.files, files_linkedTree]
    decide +kernel
  have dry : (run (.ofTable .builtIn) { root := ".", dryRun := true }
      linkedTree).progress.tally.enumFiles = 2 := by
    rw [run_progress, Options.files, files_linkedTree]
    decide +kernel
  have same : 2 = 1 := dry.symm.trans ((agrees.counts real.1 .enums).trans real.2)
  cases same

end Migration

end Codemod
