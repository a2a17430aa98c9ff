import DocTypes.Proofs.Binding.Variables
import DocTypes.Proofs.Lifecycle.Moments
import DocTypes.Tree.Builder

/-!
# Hoisting and visiting agree

When the scope of a unit or of a function opens, the names that its statements hoist are declared in
it. The walk meets the same names later, in the same order: it visits the `var` lists and function
declarations that declare them, and the scope is the nearest one for them then
(`Moment.Meets`). So at every moment the names that were met are a first part of those that were
hoisted, and all of them once the scope is closed.

The invariant is about the work that is left. Each piece of it is done in a scope, which is the
current one or, after the requests to close scopes before it, one further out. The names that are
hoisted out of the work that is done for a scope are those that are still to be met for it
(`dueIn`).

## Main statements

* `Moment.Advance.due_eq`, `Moment.Advance.due_opened`: what one step does to the
  names that are due.
* `Analysis.hoisting_agrees`: the whole walk.
-/

namespace DocTypes

open Relation

/-! ## Owners -/

namespace ScopeTree

variable {t t' : ScopeTree} {s : ScopeId} {cs : List ScopeId} {site : Site}

/-- The innermost scope of a chain that takes `var` and function declarations. -/
def ownerIn (t : ScopeTree) (cs : List ScopeId) : Option ScopeId :=
  cs.find? fun s => ((t.get? s).map Scope.site).any (·.kind.isFunctionScope)

theorem mem_of_ownerIn (h : t.ownerIn cs = some s) : s ∈ cs := List.mem_of_find?_eq_some h

theorem ownerIn_congr (h : ∀ r ∈ cs, (t'.get? r).map Scope.site = (t.get? r).map Scope.site) :
    t'.ownerIn cs = t.ownerIn cs :=
  List.find?_congr fun r hr => by rw [h r hr]

/-- The chain of a scope that has just opened. -/
theorem OpensAt.ownerIn_cons (h : t.OpensAt s site t') (hcs : ∀ r ∈ cs, (t.get? r).isSome) :
    t'.ownerIn (s :: cs) = if site.kind.isFunctionScope then some s else t.ownerIn cs := by
  have hcongr : t'.ownerIn cs = t.ownerIn cs := ownerIn_congr fun r hr =>
    h.sites_of_isSome (hcs r hr)
  rw [← hcongr, ownerIn, List.find?_cons, h.sites, if_pos rfl, Option.any_some]
  cases site.kind.isFunctionScope <;> rfl

end ScopeTree

/-! ## Names that are still to be met -/

namespace Work

/-- The names that are declared by a piece of work in the scope of the function around it. -/
def own (a : Arena) : Work → List Nat
  | .visit n => a.ownNames n
  | .exitScope | .typeNames _ => []

/-- The names that are hoisted out of the work that follows. -/
def inner (a : Arena) : Work → List Nat
  | .visit n => a.innerNames n
  | .exitScope | .typeNames _ => []

/-- Whether a piece of work opens the scope of a function. -/
def opensFunction (a : Arena) : Work → Bool
  | .visit n => a.isOf NodeKind.isFunctionLike (some n)
  | .exitScope | .typeNames _ => false

theorem names_eq (a : Arena) (work : Work) :
    work.names a = work.own a ++ if work.opensFunction a then [] else work.inner a := by
  cases work with
  | visit n => exact a.hoistedNames_eq n
  | exitScope | typeNames => rfl

end Work

section Due

variable {a : Arena} {t t' : ScopeTree} {s : ScopeId} {works rest : List Work} {cs : List ScopeId}

/-- The names for a scope that are hoisted out of the work that is left. -/
def dueIn (a : Arena) (t : ScopeTree) (s : ScopeId) : List Work → List ScopeId → List Nat
  | [], _ => []
  | .exitScope :: works, cs => dueIn a t s works cs.tail
  | work :: works, cs => (if t.ownerIn cs = some s then work.names a else []) ++
      dueIn a t s works cs

theorem dueIn_cons {work : Work} (hwork : work ≠ .exitScope) : dueIn a t s (work :: works) cs =
    (if t.ownerIn cs = some s then work.names a else []) ++ dueIn a t s works cs := by
  cases work with
  | exitScope => exact absurd rfl hwork
  | visit | typeNames => rfl

/-- Work that closes no scope is all done for one scope. -/
theorem dueIn_append (hworks : .exitScope ∉ works) : dueIn a t s (works ++ rest) cs =
    (if t.ownerIn cs = some s then works.flatMap (Work.names a) else []) ++
      dueIn a t s rest cs := by
  induction works with
  | nil =>
    rw [List.nil_append, List.flatMap_nil, ite_self, List.nil_append]
  | cons work works ih =>
    obtain ⟨hwork, hworks⟩ := not_or.1 fun hmem => hworks (List.mem_cons.2 hmem)
    rw [List.cons_append, dueIn_cons (Ne.symm hwork), ih hworks, ← List.append_assoc,
      List.flatMap_cons]
    split
    · rfl
    · rfl

theorem dueIn_congr (h : ∀ r ∈ cs, (t'.get? r).map Scope.site = (t.get? r).map Scope.site) :
    dueIn a t' s works cs = dueIn a t s works cs := by
  induction works generalizing cs with
  | nil => rfl
  | cons work works ih =>
    by_cases hwork : work = .exitScope
    · subst hwork
      exact ih fun r hr => h r (List.mem_of_mem_tail hr)
    · rw [dueIn_cons hwork, dueIn_cons hwork, ScopeTree.ownerIn_congr h, ih h]

/-- Nothing is done for a scope that is not on the chain. -/
theorem dueIn_eq_nil (hs : s ∉ cs) : dueIn a t s works cs = [] := by
  induction works generalizing cs with
  | nil => rfl
  | cons work works ih =>
    by_cases hwork : work = .exitScope
    · subst hwork
      exact ih fun hmem => hs (List.mem_of_mem_tail hmem)
    · rw [dueIn_cons hwork, ih hs, if_neg fun h => hs (ScopeTree.mem_of_ownerIn h)]
      rfl

end Due

/-! ## What one step does -/

namespace Moment

variable {a : Arena} {root : NodeRef} {reportUndefined : Bool} {c s : ScopeId} {cs : List ScopeId}
  {m m' : Moment} {work : Work} {rest : List Work} {b : Binder}

/-- A step of the walk on a chain of scopes: it stays there, or opens a scope, or closes one. -/
inductive Advance (a : Arena) (root : NodeRef) (c : ScopeId) (cs : List ScopeId) (work : Work)
    (rest : List Work) (b : Binder) : Moment → Prop
  | stay {works : List Work} {b' : Binder} (hwork : work ≠ .exitScope) (hon : b'.On c cs)
      (hsites : b.analysis.scopes.SameSites b'.analysis.scopes) (hplain : .exitScope ∉ works)
      (hfunction : work.opensFunction a = false) (hhoists : Hoists a root (work.inner a) works) :
    Advance a root c cs work rest b ⟨works ++ rest, b'⟩
  | enter {n : Nat} {s : ScopeId} {works : List Work} {b' : Binder} (hwork : work = .visit n)
      (hon : b'.On s (s :: cs))
      (hopens : b.analysis.scopes.OpensAt s ⟨a.scopeKind n, some n⟩ b'.analysis.scopes)
      (hplain : .exitScope ∉ works) (hhoists : Hoists a root (a.innerNames n) works)
      (hbody : a.isOf NodeKind.isFunctionLike (some n) = true →
        Binder.BodyOpened a s (a.scopeStatements (some n)) b') :
    Advance a root c cs work rest b ⟨works ++ .exitScope :: rest, b'⟩
  | leave {o : ScopeId} {outer : List ScopeId} {b' : Binder} (hwork : work = .exitScope)
      (hcs : cs = c :: outer) (hon : b'.On o outer)
      (hsites : b.analysis.scopes.SameSites b'.analysis.scopes) :
    Advance a root c cs work rest b ⟨rest, b'⟩
  | finish {b' : Binder} (hwork : work = .exitScope) (hrest : rest = [])
      (hsites : b.analysis.scopes.SameSites b'.analysis.scopes) :
    Advance a root c cs work rest b ⟨[], b'⟩

end Moment

namespace Binder

variable {a : Arena} {root : NodeRef} {c : ScopeId} {cs : List ScopeId} {n : Nat} {kind : NodeKind}
  {b : Binder}

/-- Closing a scope leaves all scopes where they were opened. -/
theorem On.exitScope_sites (hb : b.On c cs) (a : Arena) (reportUndefined : Bool) :
    b.analysis.scopes.SameSites (Binder.exitScope a reportUndefined b).2.analysis.scopes := by
  intro s
  obtain ⟨scope, hscope⟩ := Option.isSome_iff_exists.1 (hb.known c hb.mem_current)
  rw [hb.get?_exitScope hscope]
  by_cases hs : c = s
  · rw [if_pos hs, ← hs, hscope]
    rfl
  · rw [if_neg hs, Option.map_map]
    refine Option.map_congr fun old _ => ?_
    show Scope.site (if scope.outer = some s then _ else old) = old.site
    split <;> rfl

/-- A function asks for the closing of a scope. -/
theorem visit_closes (hkind : a.kind? (some n) = some kind)
    (hfunction : kind.isFunctionLike = true) :
    Yields (.exitScope ∈ ·) (visit a n) := by
  have hlast (m : Bind (List Work)) :
      Yields (Work.exitScope ∈ ·) (do return (← m) ++ [.exitScope]) :=
    .after fun works => .pure (List.mem_append_right works (List.mem_singleton_self _))
  have hfunctions (kind : NodeKind) : Yields (.exitScope ∈ ·) (visitFunction a n kind) := by
    have hbody : Yields (.exitScope ∈ ·) (do
        let works ←
          if kind = .arrowFunction then enterBody a (a.child (some n) 0) (a.child (some n) 1)
          else enterBody a (a.child (some n) 1) (a.child (some n) 2)
        return works ++ [Work.exitScope]) := .ite (fun _ => hlast _) fun _ => hlast _
    have hfinish : Yields (.exitScope ∈ ·) (finishFunction a n kind) :=
      .after fun _ => .ite (fun _ => .after fun _ => .after fun _ => hbody) fun _ => hbody
    have hname : Yields (.exitScope ∈ ·) (do
        let name := a.child (some n) 0
        if kind = .functionDeclaration && name.isSome then
          if ((← get).analysis.valueOf? name).isNone then
            let variableId ← declareVariable a (← functionScope) name
            Analysis.modifyValues (·.addWrite variableId (some n))
        finishFunction a n kind) := by
      refine .ite (fun _ => .after fun b => .ite (fun _ => ?_) fun _ => hfinish) fun _ => hfinish
      exact .after fun _ => .after fun _ => .after fun _ => hfinish
    exact .after fun b => .ite (fun _ => .after fun _ => hname) fun _ => hname
  have hmethod : Yields (.exitScope ∈ ·) (visitMethod a n) := by
    have hfinish : Yields (.exitScope ∈ ·) (finishMethod a n) := .after fun _ => hlast _
    refine .after fun _ => .after fun _ => .after fun b => ?_
    dsimp only
    split
    · exact hfinish
    · split
      · exact hfinish
      · exact .after fun _ => .after fun _ => .after fun _ => hfinish
  unfold visit
  rw [hkind]
  cases kind with
  | functionDeclaration | functionExpression | arrowFunction => exact hfunctions _
  | method => exact hmethod
  | _ => cases hfunction

end Binder

namespace Moment

variable {a : Arena} {root : NodeRef} {c : ScopeId} {cs : List ScopeId}

/-- The request to close the last scope is the last piece of work. -/
theorem rest_eq_nil {rest init : List Work} (hworks : .exitScope :: rest = init ++ [.exitScope])
    (hcount : [c].length = init.count .exitScope + 1) : rest = [] := by
  cases init with
  | nil => exact (List.cons.inj hworks).2
  | cons first init =>
    obtain ⟨rfl, -⟩ := List.cons.inj hworks
    rw [List.count_cons_self] at hcount
    cases Nat.succ.inj hcount

/-- **One step.** -/
theorem advance (h : a.Shaped root) (reportUndefined : Bool) {work : Work} {rest init : List Work}
    {b : Binder} (hb : b.On c cs) (hworks : work :: rest = init ++ [.exitScope])
    (hcount : cs.length = init.count .exitScope + 1)
    (hpart : ∀ n, work = .visit n → a.IsPart root n) :
    Advance a root c cs work rest b
      ⟨(act a reportUndefined work b).1 ++ rest, (act a reportUndefined work b).2⟩ := by
  have hplain {n : Nat} {works : List Work} (hworks : Below n works) : .exitScope ∉ works :=
    fun hmem => (hworks _ hmem).1 rfl
  cases work with
  | exitScope =>
    have hsites := hb.exitScope_sites a reportUndefined
    rcases hb.exitScope a reportUndefined with ⟨o, outer, hcs, hon⟩ | ⟨rfl, -⟩
    · exact .leave rfl hcs hon hsites
    · have hrest := rest_eq_nil hworks hcount
      subst hrest
      exact .finish rfl rfl hsites
  | typeNames document =>
    obtain ⟨hon, -, hsites⟩ := Binder.visitTypeNames_stays (a := a) document b hb
    exact .stay nofun hon hsites List.not_mem_nil rfl hoists_nil
  | visit n =>
    have hhoists := Binder.visit_hoists h (hpart n rfl) b
    obtain ⟨-, ⟨hon, hsites, hworks⟩ | ⟨s, hon, hopens, works, hworks, heq⟩⟩ :=
      Binder.visit_opens (a := a) n b hb
    · refine .stay nofun hon hsites (hplain hworks) ?_ hhoists
      refine Bool.eq_false_iff.2 fun hfunction => ?_
      obtain ⟨kind, hkind, hlike⟩ := Arena.kind?_of_isOf hfunction
      exact hplain hworks (Binder.visit_closes hkind hlike b)
    · show Advance a root c cs (.visit n) rest b
        ⟨(Binder.visit a n b).1 ++ rest, (Binder.visit a n b).2⟩
      rw [heq, List.append_assoc]
      rw [heq] at hhoists
      refine .enter rfl hon hopens (hplain hworks) ⟨fun m hm => ?_, ?_⟩ fun hfunction => ?_
      · exact hhoists.parts m (List.mem_append_left _ hm)
      · rw [← hhoists.names, List.flatMap_append]
        exact (List.append_nil _).symm
      · obtain ⟨kind, hkind, hlike⟩ := Arena.kind?_of_isOf hfunction
        have hbody := Binder.visit_opensBody hkind hlike b hb
        rwa [hon.current] at hbody

/-! ## What was met and what is due -/

/-- The names that are declared for a scope by the work that is done next. -/
def meets (a : Arena) (s : ScopeId) (m : Moment) : List Nat :=
  match m.works with
  | [] => []
  | work :: _ =>
    if m.state.analysis.scopes.nearestFunction m.state.current = s then work.own a else []

/-- A run of the machine up to a moment, with the names that were met for a scope until then. -/
inductive Meets (a : Arena) (reportUndefined : Bool) (s : ScopeId) (start : Moment) :
    Moment → List Nat → Prop
  | start : Meets a reportUndefined s start start []
  | step {m m' : Moment} {names : List Nat} (h : Meets a reportUndefined s start m names)
      (hstep : m.Step a reportUndefined m') :
    Meets a reportUndefined s start m' (names ++ m.meets a s)

/-- The names that are still to be met for a scope. -/
def due (a : Arena) (s : ScopeId) (m : Moment) : List Nat :=
  dueIn a m.state.analysis.scopes s m.works m.chain

/-- The walk goes on in the unit of a tree. -/
structure Travels (a : Arena) (root : NodeRef) (m : Moment) : Prop where
  held : m.Held
  closed : m.state.analysis.Closed
  parts : ∀ n, .visit n ∈ m.works → a.IsPart root n
  unit : (m.state.analysis.scopes.get? ⟨0⟩).map Scope.site = some ⟨.global, root⟩
  inside : m.works ≠ [] → ⟨0⟩ ∈ m.chain

/-- What was met for a scope and what is due make up what was hoisted in it, and that
has variables. -/
structure Agrees (a : Arena) (s : ScopeId) (m : Moment) (names : List Nat) : Prop where
  unopened : m.state.analysis.scopes.get? s = none → names = []
  hoisted : ∀ scope, m.state.analysis.scopes.get? s = some scope →
    scope.kind.isFunctionScope = true → names ++ m.due a s = a.scopeNames scope.node
  furnished : ∀ scope, m.state.analysis.scopes.get? s = some scope →
    scope.kind.isFunctionScope = true →
      ∀ n ∈ a.scopeNames scope.node, Analysis.HasVariable a s n m.state.analysis

section OnChain

variable {m : Moment} {s f : ScopeId} {b : Binder} {work : Work} {works rest : List Work}

theorem due_on (hb : b.On c cs) :
    (⟨works, b⟩ : Moment).due a s = dueIn a b.analysis.scopes s works cs := by
  cases works with
  | nil => rfl
  | cons work works => rw [due, chain_on hb (List.cons_ne_nil work works)]

/-- The nearest scope for `var` and function declarations. -/
theorem nearestFunction_eq (hb : b.On c cs) (howner : b.analysis.scopes.ownerIn cs = some f) :
    b.analysis.scopes.nearestFunction b.current = f := by
  have hfind : (fun s => (b.analysis.scopes.get? s).any (·.kind.isFunctionScope)) =
      fun s => ((b.analysis.scopes.get? s).map Scope.site).any (·.kind.isFunctionScope) :=
    funext fun s => by cases b.analysis.scopes.get? s <;> rfl
  rw [ScopeTree.nearestFunction, ScopeTree.nearest, hb.current, hb.chain, hfind]
  rw [ScopeTree.ownerIn] at howner
  rw [howner]

theorem meets_on (hb : b.On c cs) (howner : b.analysis.scopes.ownerIn cs = some f) :
    (⟨work :: rest, b⟩ : Moment).meets a s =
      if b.analysis.scopes.ownerIn cs = some s then work.own a else [] := by
  rw [meets, nearestFunction_eq hb howner, howner]
  simp only [Option.some.injEq]

end OnChain

/-- A node opens the scope of a function if it is one. -/
theorem scopeKind_isFunctionScope (a : Arena) (n : Nat) :
    (a.scopeKind n).isFunctionScope = a.isOf NodeKind.isFunctionLike (some n) := by
  unfold Arena.scopeKind Arena.isOf
  cases a.kind? (some n) with
  | none => rfl
  | some kind => cases kind <;> rfl

namespace Advance

variable {m' : Moment} {s f : ScopeId} {b : Binder} {work : Work} {rest : List Work} {scope : Scope}

/-- The scopes that are there stay where they were opened. -/
theorem site (hm : Advance a root c cs work rest b m')
    (hs : b.analysis.scopes.get? s = some scope) :
    (m'.state.analysis.scopes.get? s).map Scope.site = some scope.site := by
  have hsame {b' : Binder} (hsites : b.analysis.scopes.SameSites b'.analysis.scopes) :
      (b'.analysis.scopes.get? s).map Scope.site = some scope.site := by
    rw [hsites s, hs]
    rfl
  cases hm with
  | stay _ _ hsites | leave _ _ _ hsites | finish _ _ hsites => exact hsame hsites
  | enter _ _ hopens =>
    rw [hopens.sites_of_isSome (Option.isSome_of_eq_some hs), hs]
    rfl

/-- **What is due.** The names that a step meets for a scope that is there are due no more. -/
theorem due_eq (hm : Advance a root c cs work rest b m') (hb : b.On c cs)
    (howner : b.analysis.scopes.ownerIn cs = some f) (hs : b.analysis.scopes.get? s = some scope) :
    (⟨work :: rest, b⟩ : Moment).due a s =
      (⟨work :: rest, b⟩ : Moment).meets a s ++ m'.due a s := by
  rw [due_on hb, meets_on hb howner]
  have hnames := work.names_eq a
  cases hm with
  | @stay works b' hwork hon hsites hplain hfunction hhoists =>
    rw [due_on hon, dueIn_congr fun r _ => hsites r, dueIn_cons hwork, dueIn_append hplain, hnames,
      hfunction, hhoists.names, ← List.append_assoc]
    split
    · rfl
    · rfl
  | @enter n s' works b' hwork hon hopens hplain hhoists =>
    subst hwork
    have hne : some s' ≠ some s := by
      rintro heq
      cases heq
      rw [hopens.fresh] at hs
      cases hs
    have hinner : dueIn a b'.analysis.scopes s (.exitScope :: rest) (s' :: cs) =
        dueIn a b.analysis.scopes s rest cs := by
      show dueIn a b'.analysis.scopes s rest cs = _
      exact dueIn_congr fun r hr => hopens.sites_of_isSome (hb.known r hr)
    have hvisit : Work.visit n ≠ .exitScope := by nofun
    rw [due_on hon, dueIn_cons hvisit, dueIn_append hplain, hinner, hopens.ownerIn_cons hb.known,
      scopeKind_isFunctionScope, hnames, hhoists.names, ← List.append_assoc]
    show (if _ then _ ++ (if a.isOf NodeKind.isFunctionLike (some n) then [] else a.innerNames n)
      else []) ++ _ = _
    by_cases hfunction : a.isOf NodeKind.isFunctionLike (some n) = true
    · -- what is inside of a function is hoisted in its own scope
      rw [if_pos hfunction, if_pos hfunction, if_neg hne, List.append_nil, List.append_nil]
    · rw [if_neg hfunction, if_neg hfunction]
      split
      · rfl
      · rfl
  | leave hwork hcs hon hsites =>
    subst hwork hcs
    rw [due_on hon, dueIn_congr fun r _ => hsites r]
    exact (congrArg (· ++ _) (ite_self [])).symm
  | finish hwork hrest hsites =>
    subst hwork hrest
    exact (congrArg (· ++ []) (ite_self [])).symm

/-- **What is due for a new scope.** It is what was hoisted when the body opened. -/
theorem due_opened (hm : Advance a root c cs work rest b m') (hb : b.On c cs)
    (hs : b.analysis.scopes.get? s = none) (hopened : m'.state.analysis.scopes.get? s = some scope)
    (hscope : scope.kind.isFunctionScope = true) :
    m'.due a s = a.scopeNames scope.node ∧
      Binder.BodyOpened a s (a.scopeStatements scope.node) m'.state := by
  have hsame {b' : Binder} (hsites : b.analysis.scopes.SameSites b'.analysis.scopes) :
      b'.analysis.scopes.get? s ≠ some scope := by
    intro hsome
    have hsite := hsites s
    rw [hsome, hs] at hsite
    cases hsite
  cases hm with
  | stay _ _ hsites | leave _ _ _ hsites | finish _ _ hsites => exact absurd hopened (hsame hsites)
  | @enter n s' works b' hwork hon hopens hplain hhoists hbody =>
    have hsite := hopens.sites s
    rw [hopened, Option.map_some] at hsite
    by_cases heq : s = s'
    · subst heq
      rw [if_pos rfl] at hsite
      have hkind : scope.kind = a.scopeKind n := congrArg Site.kind (Option.some.inj hsite)
      have hnode : scope.node = some n := congrArg Site.node (Option.some.inj hsite)
      have hfunction : a.isOf NodeKind.isFunctionLike (some n) = true := by
        rw [← scopeKind_isFunctionScope, ← hkind, hscope]
      obtain ⟨kind, hkind', hlike⟩ := Arena.kind?_of_isOf hfunction
      have hfresh : s ∉ cs := by
        intro hmem
        have hknown := hb.known s hmem
        rw [hs] at hknown
        cases hknown
      have hrest : dueIn a b'.analysis.scopes s (.exitScope :: rest) (s :: cs) = [] := by
        show dueIn a b'.analysis.scopes s rest cs = []
        exact dueIn_eq_nil hfresh
      rw [hnode]
      refine ⟨?_, hbody hfunction⟩
      rw [due_on hon, dueIn_append hplain, hrest, hopens.ownerIn_cons hb.known,
        scopeKind_isFunctionScope, if_pos hfunction, if_pos rfl, hhoists.names, List.append_nil]
      exact Arena.innerNames_function hkind' hlike
    · rw [if_neg heq, hs] at hsite
      cases hsite

end Advance

/-! ## The whole walk -/

variable {reportUndefined : Bool} {m m' : Moment} {s : ScopeId} {names : List Nat}

namespace Travels

/-- A walk that goes on is on a chain of scopes that ends with that of the unit. -/
theorem on {work : Work} {rest : List Work} {b : Binder} (hm : Travels a root ⟨work :: rest, b⟩) :
    ∃ c cs init, b.On c cs ∧ work :: rest = init ++ [.exitScope] ∧
      cs.length = init.count .exitScope + 1 ∧ ⟨0⟩ ∈ cs := by
  have hinside := hm.inside (List.cons_ne_nil work rest)
  cases hm.held with
  | finished hworks => cases hworks
  | @on c cs init hb hworks hcount =>
    rw [chain_on hb (List.cons_ne_nil work rest)] at hinside
    exact ⟨c, cs, init, hb, hworks, hcount, hinside⟩

/-- Some scope on the chain takes declarations. -/
theorem exists_owner (hm : Travels a root m) (hcs : ⟨0⟩ ∈ cs) :
    ∃ f, m.state.analysis.scopes.ownerIn cs = some f := by
  refine Option.isSome_iff_exists.1 (List.find?_isSome.2 ⟨⟨0⟩, hcs, ?_⟩)
  rw [hm.unit]
  rfl

/-- A step does the next piece of work on the chain of scopes. -/
theorem step_cases (hm : Travels a root m) (h : a.Shaped root)
    (hstep : m.Step a reportUndefined m') :
    ∃ c cs work rest b, m = ⟨work :: rest, b⟩ ∧ b.On c cs ∧ ⟨0⟩ ∈ cs ∧
      Advance a root c cs work rest b m' ∧ b.analysis.Leads m'.state.analysis := by
  obtain ⟨works, b⟩ := m
  cases works with
  | nil => cases hstep
  | cons work rest =>
    obtain ⟨c, cs, init, hb, hworks, hcount, hunit⟩ := hm.on
    rw [step_cons_eq hstep]
    refine ⟨c, cs, work, rest, b, rfl, hb, hunit, ?_, act_leads (safe_on hb hm.closed) a _ work⟩
    refine advance h reportUndefined hb hworks hcount fun n hn => hm.parts n ?_
    rw [hn]
    exact List.mem_cons_self

/-- The scope of the unit is closed last. -/
theorem unit_mem_outer {o : ScopeId} {outer : List ScopeId} {b b' : Binder}
    (hb : b.On c (c :: outer)) (hon : b'.On o outer) (hunit : ⟨0⟩ ∈ c :: outer) : ⟨0⟩ ∈ outer := by
  refine (List.mem_cons.1 hunit).resolve_left ?_
  rintro rfl
  have hnone : b.analysis.scopes.outer? ⟨0⟩ = none := by
    refine Option.eq_none_iff_forall_not_mem.2 fun o' ho' => ?_
    exact Nat.not_lt_zero _ (hb.nested ⟨0⟩ o' ho')
  have hchain := hb.chain
  rw [ScopeTree.chain_eq hb.nested, hnone] at hchain
  have houter : outer = [] := (List.cons.inj hchain).2.symm
  exact List.not_mem_nil (houter ▸ hon.mem_current)

theorem step (hm : Travels a root m) (h : a.Shaped root) (hstep : m.Step a reportUndefined m') :
    Travels a root m' := by
  obtain ⟨c, cs, work, rest, b, rfl, hb, hunitOn, hadvance, hleads⟩ := hm.step_cases h hstep
  have hheld := hm.held.step hstep
  have hparts : ∀ n, .visit n ∈ rest → a.IsPart root n :=
    fun n hn => hm.parts n (List.mem_cons_of_mem _ hn)
  obtain ⟨scope, hscope, hsite⟩ := Option.map_eq_some_iff.1 hm.unit
  have hunit := hadvance.site hscope
  rw [hsite] at hunit
  refine ⟨hheld, hleads.closed, ?_, hunit, ?_⟩
  · cases hadvance with
    | stay _ _ _ _ _ hhoists =>
      exact fun n hn => (List.mem_append.1 hn).elim (hhoists.parts n) (hparts n)
    | enter _ _ _ _ hhoists =>
      refine fun n hn => (List.mem_append.1 hn).elim (hhoists.parts n) fun hn => hparts n ?_
      exact (List.mem_cons.1 hn).resolve_left nofun
    | leave => exact hparts
    | finish => exact fun n hn => (List.not_mem_nil hn).elim
  · cases hadvance with
    | stay _ hon => exact fun hne => chain_on hon hne ▸ hunitOn
    | enter _ hon => exact fun hne => chain_on hon hne ▸ List.mem_cons_of_mem _ hunitOn
    | leave _ hcs hon =>
      subst hcs
      exact fun hne => chain_on hon hne ▸ unit_mem_outer hb hon hunitOn
    | finish => exact fun hne => absurd rfl hne

end Travels

/-- **One step, for one scope.** -/
theorem Agrees.step (hm : Travels a root m) (h : a.Shaped root) (hagrees : Agrees a s m names)
    (hstep : m.Step a reportUndefined m') : Agrees a s m' (names ++ m.meets a s) := by
  obtain ⟨c, cs, work, rest, b, rfl, hb, hunit, hadvance, hleads⟩ := hm.step_cases h hstep
  obtain ⟨f, howner⟩ := hm.exists_owner hunit
  cases hs : b.analysis.scopes.get? s with
  | none =>
    have hmeets : (⟨work :: rest, b⟩ : Moment).meets a s = [] := by
      rw [meets_on hb howner]
      refine if_neg fun hmem => ?_
      have hknown := hb.known s (ScopeTree.mem_of_ownerIn hmem)
      rw [hs] at hknown
      cases hknown
    rw [hagrees.unopened hs, hmeets, List.nil_append]
    refine ⟨fun _ => rfl, fun scope hopened hscope => ?_, fun scope hopened hscope => ?_⟩
    · exact (hadvance.due_opened hb hs hopened hscope).1
    · obtain ⟨before, -, hintroduces⟩ := (hadvance.due_opened hb hs hopened hscope).2
      exact fun n hn => hintroduces.hasVariable hn
  | some old =>
    have hsite := hadvance.site hs
    have hold {scope : Scope} (hopened : m'.state.analysis.scopes.get? s = some scope) :
        scope.kind = old.kind ∧ scope.node = old.node := by
      rw [hopened] at hsite
      have heq := Option.some.inj hsite
      exact ⟨congrArg Site.kind heq, congrArg Site.node heq⟩
    refine ⟨fun hnone => ?_, fun scope hopened hscope => ?_, fun scope hopened hscope n hn => ?_⟩
    · rw [hnone] at hsite
      cases hsite
    · obtain ⟨hkind, hnode⟩ := hold hopened
      rw [List.append_assoc, ← hadvance.due_eq hb howner hs, hnode]
      exact hagrees.hoisted old hs (hkind ▸ hscope)
    · obtain ⟨hkind, hnode⟩ := hold hopened
      exact (hagrees.furnished old hs (hkind ▸ hscope) n (hnode ▸ hn)).of_changes hleads.steps

/-- **A whole run.** -/
theorem Meets.agrees {start : Moment} (h : a.Shaped root) (hstart : Travels a root start)
    (hnames : Agrees a s start []) (hm : Meets a reportUndefined s start m names) :
    Travels a root m ∧ Agrees a s m names := by
  induction hm with
  | start => exact ⟨hstart, hnames⟩
  | step _ hstep ih => exact ⟨ih.1.step h hstep, ih.2.step ih.1 h hstep⟩

theorem Meets.steps {start : Moment} (hm : Meets a reportUndefined s start m names) :
    ReflTransGen (Step a reportUndefined) start m := by
  induction hm with
  | start => exact .refl
  | step _ hstep ih => exact ih.tail hstep

/-- For a scope that is closed nothing is due. -/
theorem Agrees.eq_of_closed (hm : Travels a root m) (hagrees : Agrees a s m names) {scope : Scope}
    (hscope : m.state.analysis.scopes.get? s = some scope)
    (hfunction : scope.kind.isFunctionScope = true)
    (hclosed : scope.state = .closed) : names = a.scopeNames scope.node := by
  have hchain : s ∉ m.chain := by
    intro hmem
    rw [hm.held.orderly.opened s scope hscope hmem] at hclosed
    cases hclosed
  have hdue : m.due a s = [] := dueIn_eq_nil hchain
  rw [← hagrees.hoisted scope hscope hfunction, hdue, List.append_nil]

/-- What a node declares in the scope of the function around it was hoisted there. -/
theorem Travels.hasVariable {n : Nat} {rest : List Work} {b : Binder}
    (hm : Travels a root ⟨.visit n :: rest, b⟩)
    (hagrees : ∀ s, ∃ names, Agrees a s ⟨.visit n :: rest, b⟩ names) :
    ∀ name ∈ a.ownNames n, Analysis.HasVariable a (b.analysis.scopes.nearestFunction b.current) name
      b.analysis := by
  intro name hname
  obtain ⟨c, cs, init, hb, -, -, hunit⟩ := hm.on
  obtain ⟨f, howner⟩ := hm.exists_owner hunit
  obtain ⟨names, hnames⟩ := hagrees f
  obtain ⟨scope, hscope⟩ :=
    Option.isSome_iff_exists.1 (hb.known f (ScopeTree.mem_of_ownerIn howner))
  have hfunction : scope.kind.isFunctionScope = true := by
    have haccepted := List.find?_some howner
    rw [hscope] at haccepted
    exact haccepted
  have hdue : name ∈ (⟨.visit n :: rest, b⟩ : Moment).due a f := by
    have hvisit : Work.visit n ≠ .exitScope := by nofun
    rw [due_on hb, dueIn_cons hvisit, howner, if_pos rfl, Work.names_eq]
    exact List.mem_append_left _ (List.mem_append_left _ hname)
  rw [nearestFunction_eq hb howner]
  refine hnames.furnished scope hscope hfunction name ?_
  rw [← hnames.hoisted scope hscope hfunction]
  exact List.mem_append_right _ hdue

end Moment

namespace Analysis

open Arena

variable {a : Arena} {root : NodeRef}

/-- The statements of a unit are those that are hoisted when its scope opens. -/
theorem scopeStatements_unit (h : a.isOf NodeKind.isCompilationUnit root = true) :
    a.scopeStatements root = a.children root := by
  obtain ⟨kind, hkind, hunit⟩ := kind?_of_isOf h
  unfold scopeStatements
  rw [hkind]
  cases kind <;> first
    | rfl
    | cases hunit

theorem isPart_child_unit (h : a.Shaped root) {n : Nat} (hn : some n ∈ a.children root) :
    a.IsPart root n := by
  obtain ⟨kind, hkind, hunit⟩ := kind?_of_isOf h.unit
  obtain ⟨r, rfl⟩ := exists_of_kind? hkind
  have hnode : (a.node? (some r)).isSome :=
    (Option.isSome_map ..).symm.trans (Option.isSome_of_eq_some hkind)
  refine h.isPart_child (mem_listing_self hnode) hkind ?_ hn
  cases kind <;> first
    | rfl
    | cases hunit

/-- When nothing is visited yet, the walk is in the scope of the unit. -/
theorem start_travels (h : a.Shaped root) : (Moment.start a root).Travels a root := by
  have hchildren := hoists_children fun n hn => isPart_child_unit h hn
  obtain ⟨hon, -, hsites⟩ := start_on a root
  have hsafe := (unit_safe (closed_new a) root).2
  refine ⟨start_held a root, ?_, fun n hn => ?_, ?_, fun hne => ?_⟩
  · exact (Binder.openBody_runs hsafe a hsafe.current (a.children root)).1.closed
  · exact hchildren.exitScope.parts n hn
  · rw [hsites, get?_unit, if_pos rfl]
    rfl
  · exact Moment.chain_on hon hne ▸ List.mem_singleton_self _

theorem start_bodyOpened (h : a.Shaped root) :
    (Moment.start a root).state.BodyOpened a ⟨0⟩ (a.scopeStatements root) := by
  rw [scopeStatements_unit h.unit]
  refine Binder.bodyOpened_openBody ?_ (a.children root)
  rw [get?_unit]
  rfl

/-- Nothing was met yet, and what was hoisted is due. -/
theorem start_agrees (h : a.Shaped root) (s : ScopeId) :
    (Moment.start a root).Agrees a s [] := by
  have hchildren := hoists_children fun n hn => isPart_child_unit h hn
  obtain ⟨hon, -, hsites⟩ := start_on a root
  have hsite {scope : Scope}
      (hscope : (Moment.start a root).state.analysis.scopes.get? s = some scope) :
      s = ⟨0⟩ ∧ scope.node = root := by
    have heq := hsites s
    rw [hscope, get?_unit] at heq
    split at heq
    · next hs => exact ⟨hs, congrArg Site.node (Option.some.inj heq)⟩
    · cases heq
  refine ⟨fun _ => rfl, fun scope hscope _ => ?_, fun scope hscope _ n hn => ?_⟩
  · obtain ⟨rfl, rfl⟩ := hsite hscope
    have howner : (Moment.start a scope.node).state.analysis.scopes.ownerIn [⟨0⟩] = some ⟨0⟩ := by
      rw [ScopeTree.ownerIn, List.find?_cons, hsites, get?_unit, if_pos rfl]
      rfl
    have hplain : Work.exitScope ∉ Work.children a scope.node :=
      fun hmem => Work.ne_exitScope_of_mem_children hmem rfl
    rw [List.nil_append]
    refine (Moment.due_on hon).trans ((dueIn_append hplain).trans ?_)
    rw [howner, if_pos rfl, hchildren.names, scopeNames, scopeStatements_unit h.unit]
    exact List.append_nil _
  · obtain ⟨rfl, rfl⟩ := hsite hscope
    obtain ⟨before, -, hintroduces⟩ := start_bodyOpened h
    exact hintroduces.hasVariable hn

/-- A run has met some names for each scope. -/
theorem exists_meets {reportUndefined : Bool} {start m : Moment} (s : ScopeId)
    (h : ReflTransGen (Moment.Step a reportUndefined) start m) :
    ∃ names, Moment.Meets a reportUndefined s start m names := by
  induction h with
  | refl => exact ⟨[], .start⟩
  | tail _ hstep ih =>
    obtain ⟨names, hmeets⟩ := ih
    exact ⟨_, hmeets.step hstep⟩

/-- **Hoisting and visiting agree.** When the scope of a unit or of a function opens, the names that
its statements hoist get variables there, and nothing else does. The names of the `var` lists and
function declarations that are visited while it is the nearest scope for them are first ones of
these names at every moment, and all of them when the scope is closed or the walk is done. When such
a declaration is visited, its names have variables in that scope, and the visit binds no variable in
a scope that is there. -/
theorem hoisting_agrees (h : a.Shaped root) (reportUndefined : Bool) : ∃ finish : Binder,
    bindNames a reportUndefined root (new a) = ((), finish.analysis) ∧
    (∀ s, ∃ names, Moment.Meets a reportUndefined s (.start a root) ⟨[], finish⟩ names) ∧
    (Moment.start a root).state.BodyOpened a ⟨0⟩ (a.scopeStatements root) ∧
    ∀ s m names, Moment.Meets a reportUndefined s (.start a root) m names →
      (∀ scope, m.state.analysis.scopes.get? s = some scope → scope.kind.isFunctionScope = true →
        (∀ n ∈ a.scopeNames scope.node, HasVariable a s n m.state.analysis) ∧
        names <+: a.scopeNames scope.node ∧
        (scope.state = .closed ∨ m.works = [] → names = a.scopeNames scope.node)) ∧
      (∀ m' scope, m.Step a reportUndefined m' → m.state.analysis.scopes.get? s = none →
        m'.state.analysis.scopes.get? s = some scope → scope.kind.isFunctionScope = true →
        m'.state.BodyOpened a s (a.scopeStatements scope.node)) ∧
      ∀ n rest, m.works = .visit n :: rest →
        (∀ name ∈ a.ownNames n, HasVariable a
          (m.state.analysis.scopes.nearestFunction m.state.current) name m.state.analysis) ∧
        (a.kind? (some n) = some .varStatement ∧ (a.flags (some n)).isBlockScoped = false ∨
            a.kind? (some n) = some .functionDeclaration →
          m.state.SameVars (Binder.visit a n m.state).2) := by
  obtain ⟨finish, hsteps, hrun⟩ := steps_run a reportUndefined root
  have hstart := start_travels h
  refine ⟨finish, hrun, fun s => exists_meets s hsteps, start_bodyOpened h, fun s m names hm => ?_⟩
  obtain ⟨htravels, hagrees⟩ := hm.agrees h hstart (start_agrees h s)
  refine ⟨fun scope hscope hfunction =>
    ⟨?_, ?_, ?_⟩, fun m' scope hstep hnone hscope hfunction => ?_,
    fun n rest hworks => ?_⟩
  · exact hagrees.furnished scope hscope hfunction
  · exact ⟨_, hagrees.hoisted scope hscope hfunction⟩
  · rintro (hclosed | hdone)
    · exact hagrees.eq_of_closed htravels hscope hfunction hclosed
    · have hdue : m.due a s = [] := by rw [Moment.due, hdone, dueIn]
      rw [← hagrees.hoisted scope hscope hfunction, hdue, List.append_nil]
  · obtain ⟨c, cs, work, rest, b, rfl, hb, -, hadvance, -⟩ := htravels.step_cases h hstep
    exact (hadvance.due_opened hb hnone hscope hfunction).2
  · obtain ⟨works, b⟩ := m
    subst hworks
    -- every scope has its own account of what was met
    have hall : ∀ s, ∃ names, Moment.Agrees a s ⟨.visit n :: rest, b⟩ names := by
      intro s
      obtain ⟨names, hmeets⟩ := exists_meets s hm.steps
      exact ⟨names, (hmeets.agrees h hstart (start_agrees h s)).2⟩
    have hvariables := htravels.hasVariable hall
    refine ⟨hvariables, fun hkind => Binder.visit_sameVars hkind fun name hname => ?_⟩
    exact (hvariables name hname).entered

/-- A condition with a `var` in its block, and a function with one in the block of a loop. -/
def nestedDeclarations : Build NodeRef := do
  let x ← Builder.varStatement "x" none
  let conditional ← Builder.ifStatement (← Builder.number "1") (← Builder.block [x]) none
  let y ← Builder.varStatement "y" none
  let loop ← Builder.whileStatement (← Builder.number "1") (← Builder.block [y])
  let function ← Builder.functionDeclaration "f" (← Builder.parameterNames []) [loop]
  Builder.script [conditional, function]

/-- In this tree, `x` and `f` are met for the global scope and `y` for that of the function, and
they have variables there. -/
theorem nestedDeclarations_hoisted :
    let tree := nestedDeclarations Builder.new
    let a := tree.2.arena
    let start := Moment.start a tree.1
    a.Shaped tree.1 ∧ ∃ finish : Binder,
      bindNames a true tree.1 (new a) = ((), finish.analysis) ∧
      Moment.Meets a true ⟨0⟩ start ⟨[], finish⟩ [0, 13] ∧
      Moment.Meets a true ⟨2⟩ start ⟨[], finish⟩ [6] ∧
      HasVariable a ⟨0⟩ 0 finish.analysis ∧ HasVariable a ⟨0⟩ 13 finish.analysis ∧
      HasVariable a ⟨2⟩ 6 finish.analysis := by
  intro tree a start
  have hshaped : a.Shaped tree.1 := by decide +kernel
  obtain ⟨finish, hrun, hmeets, -, hagree⟩ := hoisting_agrees hshaped true
  -- what the two scopes are after the walk
  have hglobal : ((bindNames a true tree.1 (new a)).2.scopes.get? ⟨0⟩).map
      (fun scope => (scope.kind, a.scopeNames scope.node)) = some (.global, [0, 13]) := by
    decide +kernel
  have hfunction : ((bindNames a true tree.1 (new a)).2.scopes.get? ⟨2⟩).map
      (fun scope => (scope.kind, a.scopeNames scope.node)) = some (.function, [6]) := by
    decide +kernel
  rw [hrun] at hglobal hfunction
  have hmet {s : ScopeId} {kind : ScopeKind} {names : List Nat}
    (hkind : kind.isFunctionScope = true)
      (hscope : (finish.analysis.scopes.get? s).map
        (fun scope => (scope.kind, a.scopeNames scope.node)) = some (kind, names)) :
      Moment.Meets a true s start ⟨[], finish⟩ names ∧
        ∀ n ∈ names, HasVariable a s n finish.analysis := by
    obtain ⟨scope, hget, hfields⟩ := Option.map_eq_some_iff.1 hscope
    obtain ⟨rfl, rfl⟩ := Prod.ext_iff.1 hfields
    obtain ⟨met, hm⟩ := hmeets s
    obtain ⟨hvariables, -, hall⟩ := (hagree s _ met hm).1 scope hget hkind
    exact ⟨hall (.inr rfl) ▸ hm, hvariables⟩
  obtain ⟨hmeetsGlobal, hvariables⟩ := hmet rfl hglobal
  obtain ⟨hmeetsFunction, hvariable⟩ := hmet rfl hfunction
  exact ⟨hshaped, finish, hrun, hmeetsGlobal, hmeetsFunction, hvariables 0 (by decide),
    hvariables 13 (by decide), hvariable 6 (by decide)⟩

end Analysis

end DocTypes
