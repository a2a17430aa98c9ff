import DocTypes.Proofs.Comment.Accounting
import DocTypes.Proofs.Reports.Reporting
import DocTypes.Proofs.Reports.Types
import DocTypes.Tree.Builder
import Mathlib.Data.List.Forall2

/-!
# Parameter lists and the tags for them

The parameter list of a function is held against the `@param` tags of its comment. Each entry
makes one parameter, whose type is that of the tag for its name, and each entry and each tag that
has no counterpart is reported once (`reports_ofList`). The type expressions of the tags report
nothing of that sort, whatever they are (`ReportedInside`).

A list whose names are those of the tags, in order, has the parameters that the tags say without a
list. The two routines do the same things in a different order: without a list a parameter that is
out of order is reported at its tag, before the type expression of the tag is worked out, and with
one it is reported at its entry, after that. So they report the same problems, and where no type
expression has parameters out of order itself, the problems of order come in the same sequence.

## Main statements

* `Signature.types_ofEntries`: the types of the entries, in order.
* `Signature.reports_ofList`: the entries and the tags without a counterpart.
* `Signature.paired_of_beside`: lists whose entries have the tags beside them.
* `Signature.parameters_crossCheck`: the parameters of a function with a comment.
-/

namespace DocTypes

/-- The kind that the type expression of a `@param` tag says. -/
def Arena.documentedKind (a : Arena) (tag : Nat) : ParameterKind :=
  .ofTypeKind (a.kind? (a.typeOperand (some tag)))

/-- That a parameter comes where one of its kind must not. -/
def Problem.isOfOrder : Problem → Bool
  | .unexpectedRequired | .unexpectedOptional | .unexpectedRest => true
  | _ => false

/-- What is out of order in a list of kinds, place by place. -/
def ArityCount.problems (c : ArityCount) : List ParameterKind → List (Option Problem)
  | [] => []
  | kind :: kinds => (c.push kind).1 :: (c.push kind).2.problems kinds

namespace Signature

open Analysis DocComment

variable (a : Arena)

/-! ## Counting -/

/-- A problem at a node, if there is one. -/
def anyProblemAt (problem? : Option Problem) (node : NodeRef) : List Diagnostic :=
  problem?.toList.map fun problem => problemAt a problem node

theorem countKind_reporting (s : Parameters) (kind : ParameterKind) (node : NodeRef) :
    Reporting (ReportedLate a) (s.countKind a kind node) :=
  fun _ hg => countKind_tolerates hg s kind node

theorem countKind_unreported (s : Parameters) (kind : ParameterKind) (node : NodeRef)
    (x : Analysis) : (s.countKind a kind node x).2.unreported = x.unreported := by
  unfold Parameters.countKind
  rcases s.count.push kind with ⟨_ | problem, count⟩ <;> rfl

theorem reports_countKind (s : Parameters) (kind : ParameterKind) (node : NodeRef) (x : Analysis) :
    reports (s.countKind a kind node) x = anyProblemAt a (s.count.push kind).1 node := by
  unfold Parameters.countKind
  rcases s.count.push kind with ⟨_ | problem, count⟩ <;> rfl

/-- One sort of problems, each at the node of an item. -/
theorem filter_flatMap_anyProblemAt {ι : Type} (found : ι → Option Problem) (node : ι → NodeRef)
    (items : List ι) (problem : Problem) :
    (items.flatMap fun i => anyProblemAt a (found i) (node i)).filter (·.problem == problem) =
      (items.filter fun i => found i == some problem).map fun i =>
        problemAt a problem (node i) := by
  induction items with
  | nil => rfl
  | cons i items ih =>
    rw [List.flatMap_cons, List.filter_append, ih, List.filter_cons]
    cases hi : found i with
    | none => rfl
    | some p =>
      by_cases hp : p = problem
      · subst hp
        simp [anyProblemAt, problemAt]
      · simp [anyProblemAt, problemAt, hp]

/-! ## Entries -/

/-- The kind and the type that an entry has by its tag, or by its having none. -/
def typeEntry (doc : DocComment) (e : Entry) : Analyze (ParameterKind × TypeId) :=
  match doc.paramTag? a (a.atom e.binding) with
  | some tag => taggedType a e tag
  | none => untaggedType a (some doc) e

/-- The parameters of the first entries of a list. -/
def ofEntries (doc : DocComment) (list : List Entry) : Analyze Parameters :=
  list.foldlM (pushEntry a (some doc)) {}

theorem transform_reporting (tag : Nat) :
    Reporting (ReportedInside a) (TypeExpr.transform a (a.typeOperand (some tag)) .parameter) :=
  fun _ hg => TypeExpr.transform_tolerates hg _ _

theorem typeEntry_reporting (doc : DocComment) (e : Entry) :
    Reporting (ReportedLate a) (typeEntry a doc e) := by
  intro g hg
  unfold typeEntry
  split
  · exact taggedType_tolerates hg e _
  · exact untaggedType_tolerates hg _ e

/-- An entry is typed first, and then it is counted. -/
theorem pushEntry_eq (doc : DocComment) (s : Parameters) (e : Entry) :
    pushEntry a (some doc) s e = typeEntry a doc e >>= fun typed =>
      s.countKind a (e.kind typed.1) e.node >>= fun s => pure (s.addType typed.2) := by
  unfold pushEntry typeEntry
  rw [Option.bind_some]
  cases doc.paramTag? a (a.atom e.binding) <;> rfl

theorem pushEntry_reporting (doc : DocComment) (s : Parameters) (e : Entry) :
    Reporting (ReportedLate a) (pushEntry a (some doc) s e) :=
  fun _ hg => pushEntry_tolerates hg _ s e

theorem pushEntry_fst (doc : DocComment) (s : Parameters) (e : Entry) (x : Analysis) :
    (pushEntry a (some doc) s e x).1 =
      { types := s.types ++ [(typeEntry a doc e x).1.2]
        count := (s.count.push (e.kind (typeEntry a doc e x).1.1)).2 } := by
  rw [pushEntry_eq]
  show (s.countKind a (e.kind (typeEntry a doc e x).1.1) e.node _).1.addType _ = _
  rw [countKind_fst]
  rfl

theorem pushEntry_unreported (doc : DocComment) (s : Parameters) (e : Entry) (x : Analysis) :
    (pushEntry a (some doc) s e x).2.unreported = (typeEntry a doc e x).2.unreported := by
  rw [pushEntry_eq]
  exact countKind_unreported a s _ _ _

theorem reports_pushEntry (doc : DocComment) (s : Parameters) (e : Entry) (x : Analysis) :
    reports (pushEntry a (some doc) s e) x = reports (typeEntry a doc e) x ++
      anyProblemAt a (s.count.push (e.kind (typeEntry a doc e x).1.1)).1 e.node := by
  have hcount (typed : ParameterKind × TypeId) : Reporting (ReportedLate a)
      (s.countKind a (e.kind typed.1) e.node >>= fun s => pure (s.addType typed.2)) :=
    (countKind_reporting a s _ _).bind fun _ => .pure _
  rw [pushEntry_eq, reports_bind (typeEntry_reporting a doc e) hcount,
    reports_bind (countKind_reporting a s _ _) fun _ => .pure (P := ReportedLate a) _,
    reports_countKind, reports_pure, List.append_nil]

theorem ofEntries_concat (doc : DocComment) (list : List Entry) (e : Entry) (x : Analysis) :
    ofEntries a doc (list ++ [e]) x =
      pushEntry a (some doc) (ofEntries a doc list x).1 e (ofEntries a doc list x).2 := by
  rw [ofEntries, List.foldlM_append]
  rfl

/-- One type for each entry, worked out after those of the entries before it. -/
theorem types_ofEntries (doc : DocComment) (list : List Entry) (x : Analysis) :
    (ofEntries a doc list x).1.types = (withPast [] list).map fun p =>
      (typeEntry a doc p.2 (ofEntries a doc p.1 x).2).1.2 := by
  induction list using List.reverseRecOn with
  | nil => rfl
  | append_singleton list e ih =>
    rw [ofEntries_concat, pushEntry_fst, withPast_concat, List.map_append, ← ih]
    rfl

/-! ## Entries and tags without a counterpart -/

/-- Whether a `@param` tag is for the name of an entry. -/
def Entry.isNamedBy (e : Entry) (tag : Nat) : Bool := a.documentedName tag == a.atom e.binding

/-- The type that a tag gives to an entry. A default value makes up for `undefined`. -/
def typeByTag (e : Entry) (tag : Nat) : Analyze (ParameterKind × TypeId) := do
  let type ← TypeExpr.transform a (a.typeOperand (some tag)) .parameter
  if e.hasDefault && a.documentedKind tag = .required then
    return (a.documentedKind tag, ← TypeExpr.union2 type .void)
  else return (a.documentedKind tag, type)

theorem taggedType_eq (e : Entry) (tag : Nat) : taggedType a e tag =
    if e.hasDefault && a.documentedKind tag ≠ .required then
      reportAt a .unexpectedInitializer e.node >>= fun _ => typeByTag a e tag
    else typeByTag a e tag := rfl

theorem typeByTag_reporting (e : Entry) (tag : Nat) :
    Reporting (ReportedInside a) (typeByTag a e tag) :=
  (transform_reporting a tag).bind fun _ _ _ =>
    .ite (fun _ => .bind (TypeExpr.union2_tolerates _ _) fun _ => .pure _) fun _ => .pure _

/-- What is reported at an entry that is held against the tags. -/
def Entry.mismatch? (doc : DocComment) (e : Entry) : Option Problem :=
  match doc.paramTags.find? (e.isNamedBy a) with
  | some tag =>
    if e.hasDefault && a.documentedKind tag ≠ .required then some .unexpectedInitializer else none
  | none => if doc.paramTags.isEmpty then none else some .expectedParameterTag

theorem filter_reports_typeEntry (doc : DocComment) (e : Entry) (x : Analysis) :
    (reports (typeEntry a doc e) x).filter (·.problem.isOfParameterList) =
      anyProblemAt a (e.mismatch? a doc) e.node := by
  have hinside {d : Diagnostic} (hd : ReportedInside a d) :
      d.problem.isOfParameterList = false := hd.1
  have hfind : doc.paramTag? a (a.atom e.binding) = doc.paramTags.find? (e.isNamedBy a) := rfl
  unfold typeEntry Entry.mismatch?
  rw [hfind]
  cases doc.paramTags.find? (e.isNamedBy a) with
  | some tag =>
    have htype (x : Analysis) :
        (reports (typeByTag a e tag) x).filter (·.problem.isOfParameterList) = [] :=
      (typeByTag_reporting a e tag).filter_reports (fun d => hinside) x
    dsimp only
    rw [taggedType_eq]
    split
    · have hreport : Reporting (fun _ => True) (reportAt a .unexpectedInitializer e.node) :=
        fun _ hg => report_tolerates hg trivial
      rw [reports_bind hreport fun _ => typeByTag_reporting a e tag, List.filter_append, htype]
      rfl
    · exact htype x
  | none =>
    dsimp only
    unfold untaggedType
    rw [Option.any_some]
    cases doc.paramTags.isEmpty <;> rfl

/-- Parameters that are out of order are another matter. -/
theorem filter_anyProblemAt_push (reached kind : ParameterKind) (node : NodeRef) :
    (anyProblemAt a (ArityCount.problem? reached kind) node).filter
      (·.problem.isOfParameterList) = [] := by
  cases reached <;> cases kind <;> rfl

theorem filter_reports_pushEntry (doc : DocComment) (s : Parameters) (e : Entry) (x : Analysis) :
    (reports (pushEntry a (some doc) s e) x).filter (·.problem.isOfParameterList) =
      anyProblemAt a (e.mismatch? a doc) e.node := by
  rw [reports_pushEntry, List.filter_append, filter_reports_typeEntry]
  exact (congrArg _ (filter_anyProblemAt_push a _ _ _)).trans (List.append_nil _)

theorem ofList_eq (doc : DocComment) (function : NodeRef) : ofList a (some doc) function =
    ofEntries a doc (entries a function) >>= fun parameters =>
      ((strayTags a doc (entries a function)).forM fun tag =>
        reportAt a .undefinedParameter (some tag)) >>= fun _ => pure parameters := rfl

theorem ofEntries_reporting (doc : DocComment) (list : List Entry) :
    Reporting (ReportedLate a) (ofEntries a doc list) :=
  .foldlM (fun s e _ => pushEntry_reporting a doc s e) _

theorem reportStray_reporting (tags : List Nat) : Reporting (fun _ => True)
    (tags.forM fun tag => reportAt a .undefinedParameter (some tag)) :=
  fun _ hg => .forM fun _ _ => report_tolerates hg trivial

/-- The entries are held against the tags first. -/
theorem reports_ofList_eq (doc : DocComment) (function : NodeRef) (x : Analysis) :
    reports (ofList a (some doc) function) x =
      reports (ofEntries a doc (entries a function)) x ++
        problemsAt a .undefinedParameter (strayTags a doc (entries a function)) := by
  have hstray := reportStray_reporting a (strayTags a doc (entries a function))
  rw [ofList_eq, reports_bind (ofEntries_reporting a doc _) fun _ => hstray.bind fun _ => .pure _,
    reports_bind hstray fun _ => .pure (P := fun _ => True) _, reports_pure, List.append_nil,
    reports_forM_reportAt]
  rfl

/-- The entries without a tag, those whose tag does not go with their default value, and the tags
without an entry are reported, in order. -/
theorem reports_ofList (doc : DocComment) (function : NodeRef) (x : Analysis) :
    (reports (ofList a (some doc) function) x).filter (·.problem.isOfParameterList) =
      ((entries a function).flatMap fun e => anyProblemAt a (e.mismatch? a doc) e.node) ++
        problemsAt a .undefinedParameter (strayTags a doc (entries a function)) := by
  rw [reports_ofList_eq, List.filter_append, ofEntries,
    filter_reports_foldlM (pushEntry_reporting a doc)
      fun s e _ x => filter_reports_pushEntry a doc s e x]
  congr 1
  exact List.filter_eq_self.2 fun d hd => by
    obtain ⟨tag, -, rfl⟩ := List.mem_map.1 hd
    rfl

/-- One sort of these reports. -/
theorem reports_ofList_of (doc : DocComment) (function : NodeRef) (x : Analysis) {problem : Problem}
    (hproblem : problem.isOfParameterList = true) :
    (reports (ofList a (some doc) function) x).filter (·.problem == problem) =
      (((entries a function).filter fun e => e.mismatch? a doc == some problem).map
          fun e => problemAt a problem e.node) ++
        if problem = .undefinedParameter then
          problemsAt a .undefinedParameter (strayTags a doc (entries a function)) else [] := by
  have hsort : (reports (ofList a (some doc) function) x).filter (·.problem == problem) =
      ((reports (ofList a (some doc) function) x).filter (·.problem.isOfParameterList)).filter
        (·.problem == problem) := by
    rw [List.filter_filter]
    refine List.filter_congr fun d _ => ?_
    cases h : d.problem == problem with
    | false => rw [Bool.false_and]
    | true => rw [eq_of_beq h, hproblem, Bool.true_and]
  rw [hsort, reports_ofList, List.filter_append]
  congr 1
  · exact filter_flatMap_anyProblemAt a _ _ _ problem
  · split
    · next h =>
      subst h
      exact List.filter_eq_self.2 fun d hd => by
        obtain ⟨tag, -, rfl⟩ := List.mem_map.1 hd
        rfl
    · next h =>
      refine List.filter_eq_nil_iff.2 fun d hd hsame => h ?_
      obtain ⟨tag, -, rfl⟩ := List.mem_map.1 hd
      exact (eq_of_beq hsame).symm

/-! ## Lists that name the tags -/

theorem pushTag_eq (s : Parameters) (tag : Nat) : pushTag a s tag =
    s.countKind a (a.documentedKind tag) (some tag) >>= fun s =>
      TypeExpr.transform a (a.typeOperand (some tag)) .parameter >>= fun type =>
        pure (s.addType type) := rfl

theorem pushTag_reporting (s : Parameters) (tag : Nat) :
    Reporting (ReportedLate a) (pushTag a s tag) :=
  fun _ hg => pushTag_tolerates hg s tag

theorem pushTag_fst (s : Parameters) (tag : Nat) (x : Analysis) : (pushTag a s tag x).1 =
    { types := s.types ++ [(TypeExpr.transform a (a.typeOperand (some tag)) .parameter x).1]
      count := (s.count.push (a.documentedKind tag)).2 } := by
  rw [← (transform_reporting a tag).fst_eq (countKind_unreported a s _ (some tag) x)]
  show (s.countKind a (a.documentedKind tag) (some tag) x).1.addType _ = _
  rw [countKind_fst]
  rfl

theorem pushTag_unreported (s : Parameters) (tag : Nat) (x : Analysis) :
    (pushTag a s tag x).2.unreported =
      (TypeExpr.transform a (a.typeOperand (some tag)) .parameter x).2.unreported :=
  (transform_reporting a tag).unreported_eq (countKind_unreported a s _ (some tag) x)

/-- A tag is counted first, and then its type expression is worked out. -/
theorem reports_pushTag (s : Parameters) (tag : Nat) (x : Analysis) :
    reports (pushTag a s tag) x =
      anyProblemAt a (s.count.push (a.documentedKind tag)).1 (some tag) ++
        reports (TypeExpr.transform a (a.typeOperand (some tag)) .parameter) x := by
  have htype (s : Parameters) : Reporting (ReportedInside a)
      (TypeExpr.transform a (a.typeOperand (some tag)) .parameter >>= fun type =>
        pure (s.addType type)) := (transform_reporting a tag).bind fun _ => .pure _
  rw [pushTag_eq, reports_bind (countKind_reporting a s _ _) htype, reports_countKind,
    reports_bind (transform_reporting a tag) fun _ => .pure (P := ReportedInside a) _, reports_pure,
    List.append_nil, reports_congr _ (countKind_unreported a s _ _ x)]

/-- The entry is a name without more, and the tag is the one for it. -/
structure Entry.Beside (doc : DocComment) (e : Entry) (tag : Nat) : Prop where
  hasDefault : e.hasDefault = false
  isRest : e.isRest = false
  find : doc.paramTags.find? (e.isNamedBy a) = some tag

variable {a} in
theorem Entry.Beside.typeEntry_eq {doc : DocComment} {e : Entry} {tag : Nat}
    (h : e.Beside a doc tag) : typeEntry a doc e =
      TypeExpr.transform a (a.typeOperand (some tag)) .parameter >>= fun type =>
        pure (a.documentedKind tag, type) := by
  have hfind : doc.paramTag? a (a.atom e.binding) = some tag := h.find
  rw [typeEntry, hfind]
  dsimp only
  rw [taggedType_eq, typeByTag, h.hasDefault]
  rfl

/-- What the type expressions of tags report, worked out one after the other. -/
def insideReports : List Nat → Analysis → List (List Diagnostic)
  | [], _ => []
  | tag :: tags, x =>
    reports (TypeExpr.transform a (a.typeOperand (some tag)) .parameter) x ::
      insideReports tags (TypeExpr.transform a (a.typeOperand (some tag)) .parameter x).2

theorem insideReports_congr (tags : List Nat) {x y : Analysis} (h : x.unreported = y.unreported) :
    insideReports a tags x = insideReports a tags y := by
  induction tags generalizing x y with
  | nil => rfl
  | cons tag tags ih =>
    rw [insideReports, insideReports, reports_congr _ h,
      ih ((transform_reporting a tag).unreported_eq h)]

/-- The list and the tags make the same parameters. For each one they report what is reported inside
the type expression of the tag, the list before and the tags after whether it is out of order. -/
structure Paired (list : List Entry) (tags : List Nat) (s : Parameters) (x y : Analysis)
    (listed tagged : Analyze Parameters) : Prop where
  parameters : (listed x).1 = (tagged y).1
  unreported : (listed x).2.unreported = (tagged y).2.unreported
  listReports : reports listed x =
    (((s.count.problems (tags.map a.documentedKind)).zip (insideReports a tags x)).zip list).flatMap
      fun p => p.1.2 ++ anyProblemAt a p.1.1 p.2.node
  tagReports : reports tagged y =
    (((s.count.problems (tags.map a.documentedKind)).zip (insideReports a tags x)).zip tags).flatMap
      fun p => anyProblemAt a p.1.1 (some p.2) ++ p.1.2
  problems : ((reports listed x).map (·.problem)).Perm ((reports tagged y).map (·.problem))
  order : (∀ inside ∈ insideReports a tags x, ∀ d ∈ inside, d.problem.isOfOrder = false) →
    ((reports listed x).map (·.problem)).filter (·.isOfOrder) =
      ((reports tagged y).map (·.problem)).filter (·.isOfOrder)

variable {a} in
theorem map_problem_anyProblemAt (problem? : Option Problem) (node : NodeRef) :
    (anyProblemAt a problem? node).map (·.problem) = problem?.toList := by
  cases problem? <;> rfl

theorem paired_of_beside (doc : DocComment) {list : List Entry} {tags : List Nat}
    (h : List.Forall₂ (Entry.Beside a doc) list tags) (s : Parameters) {x y : Analysis}
    (hxy : x.unreported = y.unreported) : Paired a list tags s x y
      (list.foldlM (pushEntry a (some doc)) s) (tags.foldlM (pushTag a) s) := by
  induction h generalizing s x y with
  | nil => exact ⟨rfl, hxy, rfl, rfl, .nil, fun _ => rfl⟩
  | @cons e tag list tags he _ ih =>
    let type := TypeExpr.transform a (a.typeOperand (some tag)) .parameter
    let order := (s.count.push (a.documentedKind tag)).1
    have htype : typeEntry a doc e x = ((a.documentedKind tag, (type x).1), (type x).2) := by
      rw [he.typeEntry_eq]
      rfl
    have hreports : reports (typeEntry a doc e) x = reports type x := by
      rw [he.typeEntry_eq, reports_bind (transform_reporting a tag) fun _ =>
        .pure (P := ReportedInside a) _, reports_pure, List.append_nil]
    have hkind : e.kind (a.documentedKind tag) = a.documentedKind tag := by
      rw [Entry.kind, he.isRest, he.hasDefault]
      rfl
    have hfst : (pushEntry a (some doc) s e x).1 = (pushTag a s tag y).1 := by
      rw [pushEntry_fst, pushTag_fst, htype, hkind, ← (transform_reporting a tag).fst_eq hxy]
    have hsnd : (pushEntry a (some doc) s e x).2.unreported = (pushTag a s tag y).2.unreported := by
      rw [pushEntry_unreported, pushTag_unreported, htype]
      exact (transform_reporting a tag).unreported_eq hxy
    have hrest := ih (pushTag a s tag y).1 hsnd
    -- the first parameter and the others
    have hlisted : reports ((e :: list).foldlM (pushEntry a (some doc)) s) x =
        (reports type x ++ anyProblemAt a order e.node) ++
          reports (list.foldlM (pushEntry a (some doc)) (pushTag a s tag y).1)
            (pushEntry a (some doc) s e x).2 := by
      rw [List.foldlM_cons, reports_bind (pushEntry_reporting a doc s e) fun s =>
        .foldlM (fun s e _ => pushEntry_reporting a doc s e) s, hfst, reports_pushEntry, htype,
        hreports, hkind]
    have htagged : reports ((tag :: tags).foldlM (pushTag a) s) y =
        (anyProblemAt a order (some tag) ++ reports type x) ++
          reports (tags.foldlM (pushTag a) (pushTag a s tag y).1) (pushTag a s tag y).2 := by
      rw [List.foldlM_cons, reports_bind (pushTag_reporting a s tag) fun s =>
        .foldlM (fun s tag _ => pushTag_reporting a s tag) s, reports_pushTag,
        ← reports_congr _ hxy]
    have hinside : insideReports a (tag :: tags) x =
        reports type x :: insideReports a tags (pushEntry a (some doc) s e x).2 := by
      rw [insideReports, insideReports_congr a tags (pushEntry_unreported a doc s e x), htype]
    have horder : s.count.problems ((tag :: tags).map a.documentedKind) =
        order :: (pushTag a s tag y).1.count.problems (tags.map a.documentedKind) := by
      rw [pushTag_fst]
      rfl
    refine ⟨?_, ?_, ?_, ?_, ?_, fun hnone => ?_⟩
    · rw [List.foldlM_cons, List.foldlM_cons]
      show (list.foldlM (pushEntry a (some doc)) (pushEntry a (some doc) s e x).1 _).1 = _
      rw [hfst]
      exact hrest.parameters
    · rw [List.foldlM_cons, List.foldlM_cons]
      show (list.foldlM (pushEntry a (some doc))
        (pushEntry a (some doc) s e x).1 _).2.unreported = _
      rw [hfst]
      exact hrest.unreported
    · rw [hlisted, hrest.listReports, horder, hinside]
      rfl
    · rw [htagged, hrest.tagReports, horder, hinside]
      rfl
    · rw [hlisted, htagged]
      simp only [List.map_append, map_problem_anyProblemAt]
      exact List.perm_append_comm.append hrest.problems
    · rw [hinside, List.forall_mem_cons] at hnone
      have hfirst : ((reports type x).map (·.problem)).filter (·.isOfOrder) = [] := by
        rw [List.filter_map, List.map_eq_nil_iff]
        exact List.filter_eq_nil_iff.2 fun d hd => by simp [hnone.1 d hd]
      rw [hlisted, htagged]
      simp only [List.map_append, List.filter_append, map_problem_anyProblemAt, hfirst,
        List.nil_append, List.append_nil, hrest.order hnone.2]

variable {a} in
theorem find?_isNamedBy {tags : List Nat} (hnames : (tags.map a.documentedName).Nodup) {tag : Nat}
    (htag : tag ∈ tags) {e : Entry} (he : a.atom e.binding = a.documentedName tag) :
    tags.find? (e.isNamedBy a) = some tag := by
  cases hfind : tags.find? (e.isNamedBy a) with
  | none => exact absurd (beq_iff_eq.2 he.symm) (List.find?_eq_none.1 hfind tag htag)
  | some found =>
    have hfound : a.documentedName found = a.documentedName tag :=
      (beq_iff_eq.1 (List.find?_some (p := e.isNamedBy a) hfind)).trans he
    rw [List.inj_on_of_nodup_map hnames (List.mem_of_find?_eq_some hfind) htag hfound]

/-- An entry that is a name without more. -/
theorem plain_of_mem_entries {function : NodeRef} {e : Entry} (he : e ∈ entries a function)
    (hkind : a.kind? e.node = some .bindingName) : e.hasDefault = false ∧ e.isRest = false := by
  obtain ⟨node, -, hnode⟩ := List.mem_filterMap.1 he
  unfold Entry.ofNode? at hnode
  split at hnode
  · cases hnode
    exact ⟨rfl, rfl⟩
  · next h =>
    cases hnode
    rw [h] at hkind
    cases hkind
  · next h =>
    cases hnode
    rw [h] at hkind
    cases hkind
  · cases hnode

theorem forall₂_beside (doc : DocComment) {list : List Entry}
    (hplain : ∀ e ∈ list, e.hasDefault = false ∧ e.isRest = false)
    (hsame : list.map (fun e => a.atom e.binding) = doc.paramTags.map a.documentedName)
    (hnames : (doc.paramTags.map a.documentedName).Nodup) :
    List.Forall₂ (Entry.Beside a doc) list doc.paramTags := by
  have hzip : List.Forall₂ (fun e tag => a.atom e.binding = a.documentedName tag) list
      doc.paramTags := by
    rwa [← List.forall₂_map_right_iff, ← List.forall₂_map_left_iff, List.forall₂_eq_eq_eq]
  rw [List.forall₂_iff_zip] at hzip ⊢
  refine ⟨hzip.1, fun {e tag} hmem => ?_⟩
  obtain ⟨he, htag⟩ := List.of_mem_zip hmem
  exact ⟨(hplain e he).1, (hplain e he).2, find?_isNamedBy hnames htag (hzip.2 hmem)⟩

/-- Where every tag has an entry beside it, no tag is left. -/
theorem strayTags_eq_nil (doc : DocComment) {list : List Entry}
    (hsame : list.map (fun e => a.atom e.binding) = doc.paramTags.map a.documentedName) :
    strayTags a doc list = [] := by
  refine List.filter_eq_nil_iff.2 fun tag htag => ?_
  obtain ⟨e, he, hname⟩ := List.mem_map.1 (hsame ▸ List.mem_map_of_mem htag)
  simpa using ⟨e, he, hname⟩

theorem strayTags_eq (doc : DocComment) (list : List Entry) : strayTags a doc list =
    doc.paramTags.filter fun tag => !list.any (·.isNamedBy a tag) := by
  refine List.filter_congr fun tag _ => congrArg _ ?_
  simp only [Entry.isNamedBy, Arena.documentedName, eq_comm, Bool.beq_eq_decide_eq]

/-! ### Sorts of mismatches -/

theorem mismatch?_eq_expectedParameterTag (doc : DocComment) (e : Entry) :
    (e.mismatch? a doc == some .expectedParameterTag) =
      (!doc.paramTags.isEmpty && !doc.paramTags.any (e.isNamedBy a)) := by
  rw [← List.isSome_find?]
  unfold Entry.mismatch?
  cases doc.paramTags.find? (e.isNamedBy a) with
  | none => cases doc.paramTags.isEmpty <;> rfl
  | some tag =>
    dsimp only
    split <;> simp

theorem mismatch?_eq_unexpectedInitializer (doc : DocComment) (e : Entry) :
    (e.mismatch? a doc == some .unexpectedInitializer) = (e.hasDefault &&
      (doc.paramTags.find? (e.isNamedBy a)).any (a.documentedKind · != .required)) := by
  unfold Entry.mismatch?
  cases doc.paramTags.find? (e.isNamedBy a) with
  | none => cases doc.paramTags.isEmpty <;> cases e.hasDefault <;> rfl
  | some tag => cases h : a.documentedKind tag <;> cases e.hasDefault <;> simp [h]

theorem mismatch?_ne_undefinedParameter (doc : DocComment) (e : Entry) :
    (e.mismatch? a doc == some .undefinedParameter) = false := by
  unfold Entry.mismatch?
  cases doc.paramTags.find? (e.isNamedBy a) with
  | none => cases doc.paramTags.isEmpty <;> rfl
  | some tag =>
    dsimp only
    split <;> rfl

/-- **A parameter list held against its comment.** Each entry makes one parameter, typed in the
state that the entries before it leave. If the comment has `@param` tags, the entries that none of
them is for are reported, and so are the tags that are for none of the entries, and the entries with
a default value whose tag says they may be left out, each once and in order. If the list is of plain
names, all different, that are those of the tags in order, it makes the parameters and the arity
that the tags make without a function. Then the same parameters are out of order, and for each of
them the list reports it after, and the tags before what is reported inside the type expression of
the tag. So the same problems are reported, and if no type expression of a tag has parameters out of
order, those of order are reported in the same sequence. -/
theorem parameters_crossCheck (doc : DocComment) (f : Nat) (x : Analysis) :
    let list := entries a (some f)
    let listed := parameters a (some doc) (some f)
    let tagged := parameters a (some doc) none
    (listed x).1.types = ((withPast [] list).map fun p =>
        (typeEntry a doc p.2 (ofEntries a doc p.1 x).2).1.2) ∧
      (listed x).2.diagnostics = x.diagnostics ++ (reports listed x).toArray ∧
      (reports listed x).filter (·.problem == .expectedParameterTag) =
        ((list.filter fun e => !doc.paramTags.isEmpty && !doc.paramTags.any (e.isNamedBy a)).map
          fun e => problemAt a .expectedParameterTag e.node) ∧
      (reports listed x).filter (·.problem == .undefinedParameter) =
        problemsAt a .undefinedParameter
          (doc.paramTags.filter fun tag => !list.any (·.isNamedBy a tag)) ∧
      (reports listed x).filter (·.problem == .unexpectedInitializer) =
        ((list.filter fun e => e.hasDefault &&
            (doc.paramTags.find? (e.isNamedBy a)).any (a.documentedKind · != .required)).map
          fun e => problemAt a .unexpectedInitializer e.node) ∧
      ((∀ e ∈ list, a.kind? e.node = some .bindingName) →
        list.map (fun e => a.atom e.binding) = doc.paramTags.map a.documentedName →
        (doc.paramTags.map a.documentedName).Nodup →
        let orders := ArityCount.problems {} (doc.paramTags.map a.documentedKind)
        let insides := insideReports a doc.paramTags x
        (listed x).1 = (tagged x).1 ∧
        reports listed x = ((orders.zip insides).zip list).flatMap
          (fun p => p.1.2 ++ anyProblemAt a p.1.1 p.2.node) ∧
        reports tagged x = ((orders.zip insides).zip doc.paramTags).flatMap
          (fun p => anyProblemAt a p.1.1 (some p.2) ++ p.1.2) ∧
        ((reports listed x).map (·.problem)).Perm ((reports tagged x).map (·.problem)) ∧
        ((∀ inside ∈ insides, ∀ d ∈ inside, d.problem.isOfOrder = false) →
          ((reports listed x).map (·.problem)).filter (·.isOfOrder) =
            ((reports tagged x).map (·.problem)).filter (·.isOfOrder))) := by
  intro list listed tagged
  refine ⟨types_ofEntries a doc list x, ?_, ?_, ?_, ?_, fun hplain hsame hnames => ?_⟩
  · exact Reporting.diagnostics_eq (P := ReportedLate a) (fun _ hg => parameters_tolerates hg _ _) x
  · show (reports (ofList a (some doc) (some f)) x).filter _ = _
    rw [reports_ofList_of a doc _ x rfl, if_neg (by decide), List.append_nil]
    simp only [mismatch?_eq_expectedParameterTag, list]
  · show (reports (ofList a (some doc) (some f)) x).filter _ = _
    rw [reports_ofList_of a doc _ x rfl, if_pos rfl, strayTags_eq]
    simp only [mismatch?_ne_undefinedParameter, List.filter_false, List.map_nil,
      List.nil_append, list]
  · show (reports (ofList a (some doc) (some f)) x).filter _ = _
    rw [reports_ofList_of a doc _ x rfl, if_neg (by decide), List.append_nil]
    simp only [mismatch?_eq_unexpectedInitializer, list]
  · have hbeside := forall₂_beside a doc (fun e he => plain_of_mem_entries a he (hplain e he)) hsame
      hnames
    have h := paired_of_beside a doc hbeside {} (x := x) rfl
    -- no tag is left over when the entries are through
    have hlisted : reports listed x = reports (ofEntries a doc list) x := by
      show reports (ofList a (some doc) (some f)) x = _
      rw [reports_ofList_eq, strayTags_eq_nil a doc hsame]
      exact List.append_nil _
    rw [hlisted]
    exact ⟨h.parameters, h.listReports, h.tagReports, h.problems, h.order⟩

/-- `/** @param {number=} p @param {number} q */ function f(p, q) {}`. -/
def requiredAfterOptional : Build NodeRef := do
  let number ← Builder.simple .typeName [← Builder.identifier "number"]
  let optional ← Builder.optionalType number
  let first ← Builder.tag "param" [optional, ← Builder.documentName "p"]
  let other ← Builder.simple .typeName [← Builder.identifier "number"]
  let second ← Builder.tag "param" [other, ← Builder.documentName "q"]
  let document ← Builder.document [first, second]
  let function ← Builder.functionDeclaration "f" (← Builder.parameterNames ["p", "q"]) []
  Builder.script [← Builder.annotated document function]

/-- In this tree the list is that of the tags, and the second parameter is out of order. -/
theorem requiredAfterOptional_paired :
    let a := (requiredAfterOptional Builder.new).2.arena
    let doc := (compile a (some 9) (some 15) none).1
    let x := Analysis.new a
    let listed := parameters a (some doc) (some 15)
    let tagged := parameters a (some doc) none
    (entries a (some 15)).map (fun e => a.atom e.binding) = doc.paramTags.map a.documentedName ∧
      ArityCount.problems {} (doc.paramTags.map a.documentedKind) =
        [none, some .unexpectedRequired] ∧
      (listed x).1 = (tagged x).1 ∧
      ((reports listed x).map (·.problem)).filter (·.isOfOrder) =
        ((reports tagged x).map (·.problem)).filter (·.isOfOrder) := by
  intro a doc x listed tagged
  have hsame : (entries a (some 15)).map (fun e => a.atom e.binding) =
      doc.paramTags.map a.documentedName := by decide +kernel
  obtain ⟨hparameters, -, -, -, horder⟩ := (parameters_crossCheck a doc 15 x).2.2.2.2.2
    (by decide +kernel) hsame (by decide +kernel)
  exact ⟨hsame, by decide +kernel, hparameters, horder (by decide +kernel)⟩

/-- `/** @param {number=} p @param {function(...number, number=)} q */ function f(p, q) {}`. -/
def outOfOrderInside : Build NodeRef := do
  let number : Build NodeRef := do Builder.simple .typeName [← Builder.identifier "number"]
  let first ← Builder.tag "param" [← Builder.optionalType (← number), ← Builder.documentName "p"]
  let rest ← Builder.restType (← number)
  let type ← Builder.functionType none none [rest, ← Builder.optionalType (← number)] none
  let second ← Builder.tag "param" [type, ← Builder.documentName "q"]
  let document ← Builder.document [first, second]
  let function ← Builder.functionDeclaration "f" (← Builder.parameterNames ["p", "q"]) []
  Builder.script [← Builder.annotated document function]

/-- In this tree the list is that of the tags, and a parameter is out of order both in
the list and inside the type expression of its tag. The list and the tags report the two
in different sequences. -/
theorem outOfOrderInside_reordered :
    let a := (outOfOrderInside Builder.new).2.arena
    let doc := (compile a (some 15) (some 21) none).1
    let x := Analysis.new a
    let listed := parameters a (some doc) (some 21)
    let tagged := parameters a (some doc) none
    (∀ e ∈ entries a (some 21), a.kind? e.node = some .bindingName) ∧
      (entries a (some 21)).map (fun e => a.atom e.binding) = doc.paramTags.map a.documentedName ∧
      (doc.paramTags.map a.documentedName).Nodup ∧
      ((reports listed x).map (·.problem)).filter (·.isOfOrder) =
        [.unexpectedOptional, .unexpectedRequired] ∧
      ((reports tagged x).map (·.problem)).filter (·.isOfOrder) =
        [.unexpectedRequired, .unexpectedOptional] := by
  decide +kernel

end Signature

end DocTypes
