import DocTypes.Proofs.Reports.Mirroring
import Mathlib.Data.List.Basic

/-!
# What a step reports

A step that takes no notice of the problems found so far does the same from every state that
differs in nothing but these. So what it reports can be read off a run from a state without
problems (`Analysis.reports`), and every other run puts just that after the problems it starts
with. The reports of two steps in a row are those of the first, then those of the second.

## Main statements

* `Analysis.Reporting.diagnostics_eq`: a run adds the reports of the step to the problems.
* `Analysis.Reporting.mem_reports`: a step reports only such problems as it may.
* `Analysis.reports_bind`: two steps in a row.
-/

namespace DocTypes

namespace Analysis

variable {α β ι : Type} {P Q : Diagnostic → Prop}

/-- The analysis without its problems. -/
def unreported (x : Analysis) : Analysis := x.redress fun _ => #[]

/-- What is reported later is put after what was reported before. -/
theorem keeps_append (before : Array Diagnostic) (reported : Diagnostic → Prop) :
    Redress.Keeps (before ++ ·) reported := by
  intro problems d _
  show before ++ problems.push d = (before ++ problems).push d
  exact Array.append_push

theorem keeps_filter (p : Diagnostic → Bool) : Redress.Keeps (·.filter p) (p · = true) :=
  fun _ _ hd => Array.filter_push_of_pos hd (Array.size_push _)

@[simp] theorem unreported_redress (x : Analysis) (g : Redress) :
    (x.redress g).unreported = x.unreported := rfl

@[simp] theorem unreported_unreported (x : Analysis) : x.unreported.unreported = x.unreported := rfl

theorem redress_unreported (x : Analysis) (before : Array Diagnostic) :
    x.unreported.redress (before ++ ·) = x.redress fun _ => before := by
  simp [redress, unreported]

/-- The step takes no notice of the problems found before, and reports only such problems. -/
def Reporting (P : Diagnostic → Prop) (m : Analyze α) : Prop :=
  ∀ g : Redress, g.Keeps P → Tolerates (redress g) m

/-- What a step reports. -/
def reports (m : Analyze α) (x : Analysis) : List Diagnostic :=
  (m x.unreported).2.diagnostics.toList

/-- Nothing depends on what was reported before. -/
theorem reports_congr (m : Analyze α) {x y : Analysis} (h : x.unreported = y.unreported) :
    reports m x = reports m y := by
  rw [reports, h, reports]

namespace Reporting

variable {m : Analyze α} {f : α → Analyze β}

theorem pure (y : α) : Reporting P (Pure.pure y : Analyze α) := fun _ _ => .pure y

theorem bind (hm : Reporting P m) (hf : ∀ y, Reporting P (f y)) : Reporting P (m >>= f) :=
  fun g hg => .bind (hm g hg) fun y => hf y g hg

theorem foldlM {f : β → ι → Analyze β} {is : List ι}
    (h : ∀ y, ∀ i ∈ is, Reporting P (f y i)) (y : β) :
    Reporting P (is.foldlM f y) :=
  fun g hg => .foldlM (fun z i hi => h z i hi g hg) y

/-- A run puts its reports after the problems it starts with. -/
theorem run_eq (h : Reporting P m) (x : Analysis) :
    m x = ((m x.unreported).1, (m x.unreported).2.redress (x.diagnostics ++ ·)) := by
  have hrun := h _ (keeps_append x.diagnostics P) x.unreported
  rwa [redress_unreported] at hrun

theorem fst_eq (h : Reporting P m) {x y : Analysis} (hxy : x.unreported = y.unreported) :
    (m x).1 = (m y).1 := by
  rw [h.run_eq x, hxy, h.run_eq y]

theorem unreported_eq (h : Reporting P m) {x y : Analysis} (hxy : x.unreported = y.unreported) :
    (m x).2.unreported = (m y).2.unreported := by
  rw [h.run_eq x, hxy, h.run_eq y]
  rfl

theorem diagnostics_eq (h : Reporting P m) (x : Analysis) :
    (m x).2.diagnostics = x.diagnostics ++ (reports m x).toArray := by
  rw [h.run_eq x]
  rfl

theorem mem_diagnostics (h : Reporting P m) {x : Analysis} {d : Diagnostic}
    (hd : d ∈ (m x.unreported).2.diagnostics) : P d := by
  classical
  -- Dropping all other problems leaves the state as it is.
  have hkeeps : Redress.Keeps (·.filter fun d => decide (P d)) P :=
    fun problems d hd => keeps_filter _ problems d (decide_eq_true hd)
  have hrun := h _ hkeeps x.unreported
  rw [show x.unreported.redress (·.filter fun d => decide (P d)) = x.unreported by
    simp [redress, unreported]] at hrun
  have hsame : (m x.unreported).2.diagnostics =
      (m x.unreported).2.diagnostics.filter fun d => decide (P d) :=
    congrArg (fun r => r.2.diagnostics) hrun
  rw [hsame] at hd
  exact of_decide_eq_true (Array.mem_filter.1 hd).2

theorem mem_reports (h : Reporting P m) {x : Analysis} {d : Diagnostic} (hd : d ∈ reports m x) :
    P d :=
  h.mem_diagnostics (Array.mem_toList_iff.1 hd)

/-- No report is of a sort that the step does not report. -/
theorem filter_reports (h : Reporting P m) {p : Diagnostic → Bool} (hp : ∀ d, P d → p d = false)
    (x : Analysis) : (reports m x).filter p = [] :=
  List.filter_eq_nil_iff.2 fun d hd => by simp [hp d (h.mem_reports hd)]

end Reporting

@[simp] theorem reports_pure (y : α) (x : Analysis) : reports (pure y) x = [] := rfl

@[simp] theorem reports_reportAt (a : Arena) (problem : Problem) (node : NodeRef) (x : Analysis) :
    reports (reportAt a problem node) x = [{ problem, span := a.span node }] := rfl

/-- The reports of the first step come first. -/
theorem reports_bind {m : Analyze α} {f : α → Analyze β} (hm : Reporting P m)
    (hf : ∀ y, Reporting Q (f y)) (x : Analysis) :
    reports (m >>= f) x = reports m x ++ reports (f (m x).1) (m x).2 := by
  have hfst : (m x.unreported).1 = (m x).1 := hm.fst_eq (unreported_unreported x)
  have hsnd : (m x.unreported).2.unreported = (m x).2.unreported :=
    hm.unreported_eq (unreported_unreported x)
  show (f (m x.unreported).1 (m x.unreported).2).2.diagnostics.toList = _
  rw [(hf _).diagnostics_eq, Array.toList_append, hfst, reports_congr _ hsnd]
  rfl

/-- The reports of one sort in a loop, if each round reports of it what its item says. -/
theorem filter_reports_foldlM {f : β → ι → Analyze β} {p : Diagnostic → Bool}
    {found : ι → List Diagnostic} {is : List ι} (h : ∀ y i, Reporting P (f y i))
    (hfound : ∀ y, ∀ i ∈ is, ∀ x, (reports (f y i) x).filter p = found i) (y : β) (x : Analysis) :
    (reports (is.foldlM f y) x).filter p = is.flatMap found := by
  induction is generalizing y x with
  | nil => rfl
  | cons i is ih =>
    rw [List.foldlM_cons, reports_bind (h y i) fun z => .foldlM (fun w j _ => h w j) z,
      List.filter_append, hfound y i List.mem_cons_self,
      ih fun z j hj => hfound z j (List.mem_cons_of_mem i hj), List.flatMap_cons]

/-- The reports of a loop that reports at each node. -/
theorem reports_forM_reportAt (a : Arena) (problem : Problem) (nodes : List Nat) (x : Analysis) :
    reports (nodes.forM fun node => reportAt a problem (some node)) x =
      nodes.map fun node => { problem, span := a.span (some node) } := by
  induction nodes generalizing x with
  | nil => rfl
  | cons node nodes ih =>
    have hreport (node : Nat) : Reporting (fun _ => True) (reportAt a problem (some node)) :=
      fun _ hg => report_tolerates hg trivial
    have hloop : Reporting (fun _ => True) (nodes.forM fun node =>
      reportAt a problem (some node)) :=
      fun g hg => .forM fun node _ => hreport node g hg
    show reports (reportAt a problem (some node) >>= fun _ =>
      nodes.forM fun node => reportAt a problem (some node)) x = _
    rw [reports_bind (hreport node) fun _ => hloop, ih, reports_reportAt]
    rfl

end Analysis

end DocTypes
