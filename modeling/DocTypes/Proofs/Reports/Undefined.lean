import DocTypes.Proofs.Hierarchy.Passes
import DocTypes.Proofs.Reports.Names
import DocTypes.Proofs.Reports.Reporting
import DocTypes.Proofs.Reports.Types
import DocTypes.Tree.Builder

/-!
# Runs that report undefined names, and runs that do not

Two runs of one tree, of which only one reports the names that are bound nowhere, end with the
same values, types, scopes and tables, and with the same problems apart from these reports. The
option is heeded by the first pass alone. The problems of the later passes are the same in both
runs, and there may be dotted type names among them whose root is bound and which lead nowhere.
These are reported by both.

## Main statements

* `Analysis.run_undefined_names`: the two runs, and when they differ in nothing but the reports of
  undefined names.
* `Analysis.missingMember_reported`: a tree for which the option does not silence the report.
-/

namespace DocTypes

namespace Analysis

variable {a : Arena} {root : NodeRef}

theorem drops_filter (p : Diagnostic → Bool) : Redress.Drops (·.filter p) (p · = false) :=
  fun _ _ hd => Array.filter_push_of_neg (by simpa using hd) (Array.size_push _)

/-! ## The passes after the first -/

/-- The passes after the first. -/
def laterPasses (a : Arena) (root : NodeRef) : Analyze Unit := do
  Hierarchy.build a
  Typing.run a root

theorem laterPasses_reporting (a : Arena) (root : NodeRef) :
    Reporting (ReportedLate a) (laterPasses a root) := fun _ hg =>
  .bind (Hierarchy.build_tolerates hg) fun _ => Typing.run_tolerates hg root

/-- The later passes add to the problems what they report from a state without any. -/
theorem laterPasses_redress (a : Arena) (root : NodeRef) (x : Analysis) (g : Redress) :
    (laterPasses a root (x.redress g)).2 =
      (laterPasses a root x.unreported).2.redress (g x.diagnostics ++ ·) := by
  rw [(laterPasses_reporting a root).run_eq, unreported_redress]
  rfl

/-! ## Whole runs -/

theorem redress_id (x : Analysis) : x.redress id = x := rfl

/-- Three passes in a row are one pass and then the other two. -/
theorem foldl_passes (p q r : Analyze Unit) (x : Analysis) :
    [p, q, r].foldl (fun x pass => (pass x).2) x = ((q >>= fun _ => r) (p x).2).2 := rfl

theorem run_eq_laterPasses (o : Options) :
    run a root o = (laterPasses a root (runPasses a (o.reports a root) root 1)).2 :=
  foldl_passes (bindNames a (o.reports a root) root) (Hierarchy.build a) (Typing.run a root) (new a)

/-- The first pass without reports of undefined names. -/
theorem runPasses_silent (a : Arena) (root : NodeRef) :
    runPasses a false root 1 =
      (runPasses a true root 1).redress (·.filter Diagnostic.isOrdinary) := by
  have hrun := bindNames_mirrors (a := a) (keeps_filter Diagnostic.isOrdinary)
    (drops_filter Diagnostic.isOrdinary) root (new a)
  rw [show (new a).redress (·.filter Diagnostic.isOrdinary) = new a by
    simp [redress, new]] at hrun
  rw [runPasses_one, runPasses_one, hrun]

theorem filter_append_eq_iff (before later : Array Diagnostic) :
    before.filter Diagnostic.isOrdinary ++ later =
        (before ++ later).filter Diagnostic.isOrdinary ↔
      ∀ d ∈ later, d.isOrdinary = true := by
  rw [Array.filter_append Array.size_append, Array.append_right_inj, eq_comm, Array.filter_eq_self]

/-- The second run is the first one without the reports of undefined names that are among the
problems found before, in the first pass. The problems found later are reported by both, and the
only undefined names among them are dotted type names. -/
def Silences (a : Arena) (before : Array Diagnostic) (x y : Analysis) : Prop :=
  ∃ later : Array Diagnostic,
    x.diagnostics = before ++ later ∧
    y = { x with diagnostics := before.filter Diagnostic.isOrdinary ++ later } ∧
    (∀ d ∈ later, d.isOrdinary = false →
      ∃ n, a.isDottedTypeName n = true ∧ d = a.dottedProblem n) ∧
    (y.diagnostics = x.diagnostics.filter Diagnostic.isOrdinary ↔
      ∀ d ∈ later, d.isOrdinary = true)

/-- Both runs are the later passes from a state without problems, with the problems of the first
pass put before theirs. -/
theorem run_reporting_silent {reporting silent : Options}
    (hreporting : reporting.reports a root = true)
    (hsilent : silent.reports a root = false) : ∃ z : Analysis,
      (∀ d ∈ z.diagnostics, ReportedLate a d) ∧
      run a root reporting = z.redress ((runPasses a true root 1).diagnostics ++ ·) ∧
      run a root silent =
        z.redress ((runPasses a true root 1).diagnostics.filter Diagnostic.isOrdinary ++ ·) := by
  have hlater := laterPasses_redress a root (runPasses a true root 1) id
  rw [redress_id, id_eq] at hlater
  refine ⟨(laterPasses a root (runPasses a true root 1).unreported).2,
    fun d => (laterPasses_reporting a root).mem_diagnostics, ?_, ?_⟩
  · rw [run_eq_laterPasses, hreporting, hlater]
  · rw [run_eq_laterPasses, hsilent, runPasses_silent, laterPasses_redress]

theorem silences_redress (before : Array Diagnostic) {z : Analysis}
    (hz : ∀ d ∈ z.diagnostics, ReportedLate a d) :
    Silences a before (z.redress (before ++ ·))
      (z.redress (before.filter Diagnostic.isOrdinary ++ ·)) := by
  refine ⟨z.diagnostics, rfl, rfl, fun d hd hundefined => ?_, filter_append_eq_iff _ _⟩
  exact hz d hd (by simpa [Diagnostic.isOrdinary] using hundefined)

/-- **Switching off the reports of undefined names.** For every tree, a run that does not report
names that are bound nowhere ends with the same values, types, scopes and tables as a run that
does. Its problems are those of the first pass of that run without the undefined names, and all
those of the later passes. So its problems are those of the other run without the undefined
names, in the same order, if and only if the later passes report no dotted type name as
undefined. -/
theorem run_undefined_names (a : Arena) (root : NodeRef) (reporting silent : Options)
    (hreporting : reporting.reports a root = true) (hsilent : silent.reports a root = false) :
    Silences a (runPasses a true root 1).diagnostics (run a root reporting)
      (run a root silent) := by
  obtain ⟨z, hz, hx, hy⟩ := run_reporting_silent hreporting hsilent
  rw [hx, hy]
  exact silences_redress _ hz

/-! ## A dotted type name that leads nowhere -/

/-- `var ns = {}; /** @type {ns.Missing} */ var x;` -/
def missingMember : Build NodeRef := do
  let ns ← Builder.varStatement "ns" (← Builder.object [])
  let type ← Builder.simple .typeName
    [← Builder.member (← Builder.identifier "ns") "Missing"]
  let comment ← Builder.document [← Builder.tag "type" [type]]
  let x ← Builder.varStatement "x" none
  Builder.script [ns, ← Builder.annotated comment x]

/-- Both sorts of run on this tree, the second one as externs. -/
theorem missingMember_silences :
    let tree := missingMember Builder.new
    ({} : Options).reports tree.2.arena tree.1 = true ∧
      Options.externs.reports tree.2.arena tree.1 = false ∧
      Silences tree.2.arena (runPasses tree.2.arena true tree.1 1).diagnostics
        (run tree.2.arena tree.1 {}) (run tree.2.arena tree.1 Options.externs) :=
  have hreporting : ({} : Options).reports (missingMember Builder.new).2.arena
      (missingMember Builder.new).1 = true := by decide +kernel
  have hsilent : Options.externs.reports (missingMember Builder.new).2.arena
      (missingMember Builder.new).1 = false := by decide +kernel
  And.intro hreporting (And.intro hsilent (run_undefined_names _ _ _ _ hreporting hsilent))

/-- The dotted name in this tree is reported by a run that does not report undefined names just
as by one that does. -/
theorem missingMember_reported :
    let tree := missingMember Builder.new
    let silent : Options := { reportUndefined := false }
    (run tree.2.arena tree.1 {}).diagnostics = #[tree.2.arena.dottedProblem 7] ∧
      (run tree.2.arena tree.1 silent).diagnostics = #[tree.2.arena.dottedProblem 7] ∧
      (run tree.2.arena tree.1 silent).diagnostics ≠
        (run tree.2.arena tree.1 {}).diagnostics.filter Diagnostic.isOrdinary := by
  decide +kernel

end Analysis

end DocTypes
