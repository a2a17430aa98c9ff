import DocTypes.Proofs.Comment.Agreement
import DocTypes.Proofs.Binding.Visited
import DocTypes.Proofs.Binding.Visits

/-!
# The whole walk

A list of work that is ready is done, with all that follows from it, and the walk is back in
the scope where it was (`Performs`). On the way it meets the references that it should, and
every value name that a node of the list reserves is bound in the nearest block. A scope that a
visit opens is closed after the work in it, and by then it has bound what it reserved: this is
what each visit promised.

## Main statements

* `Due.performs_work`: work that is ready.
* `Analysis.walk_tracks`: the walk of a whole tree.
-/

namespace DocTypes

open Binder

/-- A node is at or below one of those that are to be visited. -/
def Lists (a : Arena) (works : List Work) (m : Nat) : Prop := 0 < Work.pending a m works

/-- A reference is to the name at its node. What is assigned through it is the value beside it. -/
structure Parked.Stands (a : Arena) (p : Parked) : Prop where
  name : p.name = a.atom p.node
  assigned : ∀ m, p.assigned = some m → a.isAssigned m = true ∧ p.node =
    a.child (a.parent (some m)) 0

/-- Work is done, and the walk is where it was. -/
structure Performs (a : Arena) (root : NodeRef) (reportUndefined : Bool) (works rest : List Work)
    (b : Binder) (visited : List (Parked × ScopeId)) (b' : Binder) : Prop where
  run : Moment.Refers a reportUndefined ⟨works ++ rest, b⟩ visited ⟨rest, b'⟩
  tracks : ∀ refs, Tracked a reportUndefined (a.IsLate root) b refs → ∃ met,
    Tracked a reportUndefined (a.IsLate root) b' (met ++ refs) ∧
      (met.map Reference.place).Perm visited
  passes : b.Passes a (a.IsLate root) (Lists a works) b'
  bound : ∀ name, IsOwed a works name → b'.Binds (b'.scopes.nearestLexical b'.current) name
  once : ∀ m, mentioned m (visited.map (·.1)) ≤ Work.pending a m works
  stands : ∀ q ∈ visited, q.1.Stands a

section Performs

variable {a : Arena} {root : NodeRef} {reportUndefined : Bool} {refs : List Reference} {n : Nat}
  {works works' rest : List Work} {b b' b'' : Binder} {visited visited' : List (Parked × ScopeId)}
  {plan : Plan} {mentions : List Parked}

/-! ## Steps of the walk -/

theorem Meets.passes (h : Meets a reportUndefined plan mentions b b') :
    b.Passes a plan.late plan.mine b' :=
  ⟨h.current, h.toExtends.grows (Nat.le_refl _), h.valued, h.entered⟩

namespace Binder.Passes

variable {late : Atom → Prop} {mine : Nat → Prop} {name : Atom}

/-- What a scope binds it goes on binding. -/
theorem binds (h : b.Passes a late mine b') {id : ScopeId} (hbinds : b.Binds id name) :
    b'.Binds id name := by
  obtain ⟨scope, hscope, htarget⟩ := hbinds
  obtain ⟨scope', hscope', hgrows⟩ := h.grows id scope hscope
  obtain ⟨x, hx⟩ := Option.isSome_iff_exists.1 htarget
  exact ⟨scope', hscope', Option.isSome_iff_exists.2 ⟨x, hgrows.binds _ _ x hx⟩⟩

theorem nearest (h : b.Passes a late mine b') (hb : b.Sound) (hb' : b'.Sound)
    (accept : ScopeKind → Bool) :
    b'.scopes.nearest b'.current accept = b.scopes.nearest b.current accept := by
  rw [h.current]
  exact h.keeps.nearest hb.nested hb'.nested hb.current accept

/-- What the nearest block binds it goes on binding. -/
theorem binds_nearest (h : b.Passes a late mine b') (hb : b.Sound) (hb' : b'.Sound)
    (hbinds : b.Binds (b.scopes.nearestLexical b.current) name) :
    b'.Binds (b'.scopes.nearestLexical b'.current) name := by
  rw [ScopeTree.nearestLexical, h.nearest hb hb']
  exact h.binds hbinds

end Binder.Passes

theorem lists_of_mem (h : .visit n ∈ works) {m : Nat} (hm : m ∈ a.listing (some n)) :
    Lists a works m := by
  have hone : 0 < a.times m (some n) := List.count_pos_iff.2 hm
  have hle : a.times m (some n) ≤ Work.pending a m works :=
    List.le_sum_of_mem (List.mem_map_of_mem h)
  exact Nat.lt_of_lt_of_le hone hle

/-- The names of a declaration list are below it. -/
theorem lists_of_mem_bindingNames {m : Nat} (hm : m ∈ a.bindingNames (some n)) :
    Lists a [.visit n] m := by
  obtain ⟨d, hd, hchild⟩ := Arena.exists_declaration_of_mem_bindingNames hm
  refine lists_of_mem (List.mem_singleton_self _) ?_
  exact Arena.mem_listing_child (Arena.mem_listing_of_mem_children hd)
    (Arena.mem_children_of_child_eq_some hchild)

/-- The work that a visit asks for is about nodes below. -/
theorem visit_rank {c : ScopeId} {cs : List ScopeId} (hb : b.On c cs) :
    ∀ w ∈ (Binder.visit a n b).1, w.rank < n + 1 := by
  obtain ⟨-, ⟨-, -, hbelow⟩ | ⟨s, -, -, inner, hbelow, heq⟩⟩ := Binder.visit_opens (a := a) n b hb
  · exact fun w hw => (hbelow w hw).2
  · rw [heq]
    intro w hw
    rcases List.mem_append.1 hw with hw | hw
    · exact (hbelow w hw).2
    · rw [List.mem_singleton.1 hw]
      exact Nat.succ_pos n

/-- Comments stay the ones that stand on their nodes. -/
theorem Moment.Refers.documented {m m' : Moment} (h : m.Refers a reportUndefined visited m')
    (hm : m.state.Documented a) : m'.state.Documented a := by
  induction h with
  | refl => exact hm
  | step _ hstep _ ih => exact ih (hstep.documented hm)

/-! ## What references stand for -/

theorem stands_of_mem_pathMentions {r : NodeRef} {p : Parked} (hp : p ∈ a.pathMentions r) :
    p.Stands a := by
  unfold Arena.pathMentions at hp
  split at hp
  · rw [List.mem_singleton.1 hp]
    exact ⟨rfl, fun m hm => by cases hm⟩
  · cases hp

theorem refers_stand_of_typeNames (document : NodeRef) :
    ∀ p ∈ b.refers a (.typeNames document), p.Stands a := by
  intro p hp
  obtain ⟨n, -, hp⟩ := List.mem_flatMap.1 hp
  unfold Arena.typeNameMentions at hp
  dsimp only at hp
  split at hp
  · split at hp
    · cases hp
    · rw [List.mem_singleton.1 hp]
      exact ⟨rfl, fun m hm => by cases hm⟩
  · exact stands_of_mem_pathMentions hp
  · cases hp

theorem refers_stand (hshape : a.Shaped root) (hn : n ∈ a.listing root) (b : Binder) :
    ∀ p ∈ b.refers a (.visit n), p.Stands a := by
  intro p hp
  unfold Binder.refers at hp
  dsimp only at hp
  split at hp
  · rw [List.mem_singleton.1 hp]
    exact ⟨rfl, fun m hm => by cases hm⟩
  · exact stands_of_mem_pathMentions hp
  · next hkind =>
    unfold Arena.assignmentMentions at hp
    dsimp only at hp
    split at hp
    · next htarget =>
      rw [List.mem_singleton.1 hp]
      refine ⟨rfl, fun m hm => ?_⟩
      have hvalue : a.child (some n) 1 = some m := hm
      have hparent := hshape.parent_child hn (Arena.mem_children_of_child_eq_some hvalue)
      rw [Arena.isAssigned, hparent, Arena.isKind_iff.2 hkind, Arena.isKind_iff.2 htarget]
      exact ⟨by simp [hvalue], rfl⟩
    · exact stands_of_mem_pathMentions hp
    · exact stands_of_mem_pathMentions hp
    · cases hp
  · split at hp
    · exact stands_of_mem_pathMentions hp
    · cases hp
  · cases hp

/-! ## Lists of work -/

namespace Performs

theorem nil : Performs a root reportUndefined [] rest b [] b where
  run := .refl _
  tracks refs h := ⟨[], h, .nil⟩
  passes := .refl b
  bound name := by
    rintro ⟨m, hm, -⟩
    cases hm
  once m := Nat.le_refl 0
  stands q hq := (List.not_mem_nil hq).elim

/-- One list of work after another. -/
theorem append (h : Performs a root reportUndefined works (works' ++ rest) b visited b')
    (h' : Performs a root reportUndefined works' rest b' visited' b'') (hb' : b'.Sound)
    (hb'' : b''.Sound) :
    Performs a root reportUndefined (works ++ works') rest b (visited ++ visited') b'' where
  run := by
    rw [List.append_assoc]
    exact h.run.trans h'.run
  tracks refs hrefs := by
    obtain ⟨met, hmet, hperm⟩ := h.tracks refs hrefs
    obtain ⟨met', hmet', hperm'⟩ := h'.tracks _ hmet
    refine ⟨met' ++ met, by rwa [List.append_assoc], ?_⟩
    rw [List.map_append]
    exact (hperm'.append hperm).trans List.perm_append_comm
  passes := by
    refine (h.passes.mono fun m hm => ?_).trans (h'.passes.mono fun m hm => ?_) <;>
      · unfold Lists at *
        rw [Work.pending_append]
        omega
  bound name := by
    rintro ⟨m, hm, hname⟩
    rcases List.mem_append.1 hm with hm | hm
    · exact h'.passes.binds_nearest hb' hb'' (h.bound name ⟨m, hm, hname⟩)
    · exact h'.bound name ⟨m, hm, hname⟩
  once m := by
    rw [List.map_append, mentioned_append, Work.pending_append]
    exact Nat.add_le_add (h.once m) (h'.once m)
  stands q hq := (List.mem_append.1 hq).elim (h.stands q) (h'.stands q)

theorem tracked (h : Performs a root reportUndefined works rest b visited b')
    (hb : Tracked a reportUndefined (a.IsLate root) b refs) :
    ∃ refs', Tracked a reportUndefined (a.IsLate root) b' refs' := by
  obtain ⟨met, hmet, -⟩ := h.tracks refs hb
  exact ⟨_, hmet⟩

end Performs

/-- A moment at which work that is ready comes next, and at least one scope is to be
closed after it. -/
structure Due (a : Arena) (root : NodeRef) (reportUndefined : Bool) (works rest : List Work)
    (b : Binder) : Prop where
  tracked : ∃ refs, Tracked a reportUndefined (a.IsLate root) b refs
  documented : b.Documented a
  held : (⟨works ++ rest, b⟩ : Moment).Held
  more : rest ≠ []
  asks : Doable a root b works
  distinct : ∀ m, Work.pending a m works ≤ 1

/-- Work that is ready one piece after another. -/
theorem Due.performs
    (hone : ∀ w ∈ works, ∀ b rest, Due a root reportUndefined [w] rest b →
      ∃ visited b', Performs a root reportUndefined [w] rest b visited b')
    (h : Due a root reportUndefined works rest b) :
    ∃ visited b', Performs a root reportUndefined works rest b visited b' := by
  induction works generalizing b with
  | nil => exact ⟨[], b, .nil⟩
  | cons w works ih =>
    have hdistinct (m : Nat) : Work.pending a m [w] + Work.pending a m works ≤ 1 := by
      rw [← Work.pending_append]
      exact h.distinct m
    obtain ⟨visited, b', hfirst⟩ := hone w List.mem_cons_self b (works ++ rest)
      ⟨h.tracked, h.documented, h.held, fun hnil => h.more (List.append_eq_nil_iff.1 hnil).2,
        fun v hv => h.asks v (List.mem_singleton.1 hv ▸ List.mem_cons_self),
        fun m => Nat.le_trans (Nat.le_add_right _ _) (hdistinct m)⟩
    obtain ⟨refs, hrefs⟩ := h.tracked
    obtain ⟨refs', hrefs'⟩ := hfirst.tracked hrefs
    obtain ⟨visited', b'', hrest⟩ := ih (fun v hv => hone v (List.mem_cons_of_mem _ hv)) (b := b')
      { tracked := ⟨refs', hrefs'⟩
        documented := hfirst.run.documented h.documented
        held := h.held.steps hfirst.run.steps
        more := h.more
        asks := fun v hv => by
          obtain ⟨hne, hready⟩ := h.asks v (List.mem_cons_of_mem _ hv)
          refine ⟨hne, fun m hm => (hready m hm).passes hrefs.sound hrefs'.sound hfirst.passes
            fun k hk hlists => ?_⟩
          -- no node is at or below two pieces of work
          have hlater : 0 < Work.pending a k works := lists_of_mem (hm ▸ hv) hk
          have hle := hdistinct k
          have hfirst : 0 < Work.pending a k [w] := hlists
          omega
        distinct := fun m => Nat.le_trans (Nat.le_add_left _ _) (hdistinct m) }
    obtain ⟨refs'', hrefs''⟩ := hrest.tracked hrefs'
    exact ⟨_, b'', hfirst.append hrest hrefs'.sound hrefs''.sound⟩

/-! ## One piece of work -/

namespace Due

theorem step_held {w : Work} (h : Due a root reportUndefined [w] rest b) :
    (⟨(Moment.act a reportUndefined w b).1 ++ rest, (Moment.act a reportUndefined w b).2⟩ :
      Moment).Held :=
  h.held.step (Moment.step_cons a reportUndefined w rest b)

theorem step_documented {w : Work} (h : Due a root reportUndefined [w] rest b) :
    (Moment.act a reportUndefined w b).2.Documented a :=
  (Moment.step_cons a reportUndefined w rest b).documented h.documented

end Due

theorem pending_singleton (w : Work) (m : Nat) : Work.pending a m [w] = w.times a m := by
  rw [Work.pending_cons, Work.pending_nil, Nat.add_zero]

theorem mentioned_map (mentions : List Parked) (c : ScopeId) (m : Nat) :
    mentioned m ((mentions.map (·, c)).map (·.1)) = mentioned m mentions := by
  rw [List.map_map]
  congr 1
  exact List.map_id _

/-- A piece of work that stays in the scope, and the work that it asks for. -/
theorem Performs.stay (plan : Plan) {w : Work} (hb : b.Documented a)
    (hact : Moment.act a reportUndefined w b = (works, b'))
    (hmeets : Meets a reportUndefined plan (b.refers a w) b b') (hlate : plan.late = a.IsLate root)
    (hmine : ∀ m, plan.mine m → Lists a [w] m) (hstands : ∀ p ∈ b.refers a w, p.Stands a)
    (hpromises : ∀ name, IsOwed a [w] name →
      b'.Binds (b'.scopes.nearestLexical b'.current) name ∨ IsOwed a works name)
    (h : Performs a root reportUndefined works rest b' visited b'') (hb' : b'.Sound)
    (hb'' : b''.Sound) :
    Performs a root reportUndefined [w] rest b ((b.refers a w).map (·, b.current) ++
      visited) b'' := by
  have hwithin (m : Nat) : mentioned m (b.refers a w) + Work.pending a m works ≤
      Work.pending a m [w] := by
    rw [pending_singleton]
    have hle := Moment.refers_within (m := m) reportUndefined w hb
    rwa [hact] at hle
  refine ⟨?_, fun refs hrefs => ?_, ?_, fun name hname => ?_, fun m => ?_, fun q hq => ?_⟩
  · refine .cons _ rest ?_
    rw [hact]
    exact h.run
  · obtain ⟨met, hmet, hperm⟩ := hmeets.tracks refs (hlate ▸ hrefs)
    obtain ⟨met', hmet', hperm'⟩ := h.tracks _ (hlate ▸ hmet)
    refine ⟨met' ++ met, by rwa [List.append_assoc], ?_⟩
    rw [List.map_append]
    exact (hperm'.append hperm).trans List.perm_append_comm
  · refine (hlate ▸ hmeets.passes.mono hmine).trans (h.passes.mono fun m hm => ?_)
    have hle := hwithin m
    unfold Lists at *
    omega
  · rcases hpromises name hname with hbinds | howed
    · exact h.passes.binds_nearest hb' hb'' hbinds
    · exact h.bound name howed
  · rw [List.map_append, mentioned_append, mentioned_map]
    exact (Nat.add_le_add_left (h.once m) _).trans (hwithin m)
  · rcases List.mem_append.1 hq with hq | hq
    · obtain ⟨p, hp, rfl⟩ := List.mem_map.1 hq
      exact hstands p hp
    · exact h.stands q hq

/-- The type names of a comment. -/
theorem Due.performs_typeNames {document : NodeRef}
    (h : Due a root reportUndefined [.typeNames document] rest b) :
    ∃ visited b', Performs a root reportUndefined [.typeNames document] rest b visited b' := by
  obtain ⟨refs, hrefs⟩ := h.tracked
  let plan : Plan := { late := a.IsLate root }
  have hmeets : Meets a reportUndefined plan (b.refers a (.typeNames document)) b
      (Moment.act a reportUndefined (.typeNames document) b).2 :=
    (visitTypeNames_refersTo hrefs.sound document).1
  obtain ⟨met, hmet, -⟩ := hmeets.tracks refs hrefs
  have hact : Moment.act a reportUndefined (.typeNames document) b =
      ([], (Moment.act a reportUndefined (.typeNames document) b).2) := rfl
  refine ⟨_, _, .stay plan h.documented hact hmeets rfl (fun m hm => hm.elim)
    (refers_stand_of_typeNames document) (fun name hname => ?_) .nil hmet.sound hmet.sound⟩
  obtain ⟨m, hm, -⟩ := hname
  cases List.mem_singleton.1 hm

/-! ## Scopes that open and close -/

section Opens

variable {kind : ScopeKind} {owed : Atom → Prop} {b₁ b₂ b₃ : Binder}

/-- What is tracked when a visit has declared, opened a scope and declared in it. -/
theorem Tracked.opened (h : Tracked a reportUndefined (a.IsLate root) b refs)
    (hbefore : Declares a (a.idlePlan root n) b.scopes.size b b₁)
    (hinside : Declares a (a.visitPlan root n owed) b.scopes.size (b₁.entered kind (some n)) b₂) :
    Tracked a reportUndefined (a.IsLate root) b₂ refs := by
  have hseen : ∀ r ∈ refs, r.seen.size ≤ b.scopes.size :=
    fun r hr => (h.remembered r hr).grows.size_le
  have h₁ : Tracked a reportUndefined (a.IsLate root) b₁ refs := by
    refine Tracked.declared (a.idlePlan root n) h hbefore hseen fun s scope hs hle => ?_
    exact absurd (ScopeTree.lt_size_of_get? hs) (Nat.not_lt_of_le hle)
  refine Tracked.declared (a.visitPlan root n owed) (h₁.enterScope _ kind (some n)) hinside hseen
    fun s scope hs hle => ?_
  rw [get?_entered] at hs
  split at hs
  · cases hs
    rfl
  · have hlt := ScopeTree.lt_size_of_get? hs
    rw [hbefore.size] at hlt
    exact absurd hlt (Nat.not_lt_of_le hle)

/-- The scope that was opened has bound the value names that it reserved. -/
theorem bound_of_opened (hb₁ : b₁.Sound)
    (hinside : Declares a (a.visitPlan root n owed) b.scopes.size (b₁.entered kind (some n)) b₂)
    (howed : ∀ name, owed name → kind.isLexical = true ∧ IsOwed a works name)
    (hb₂ : b₂.Sound) (hb₃ : b₃.Sound)
    (h : Performs a root reportUndefined works rest b₂ visited b₃) :
    ∀ scope, b₃.scopes.get? b₃.current = some scope → ∀ name,
      (.value, name) ∈ scope.reserved → (scope.target? .value name).isSome := by
  intro scope hscope name hname
  have hnew := get?_entered b₁ kind (some n) (b₁.entered kind (some n)).current
  rw [if_pos rfl] at hnew
  obtain ⟨scope₂, hscope₂, hdeclares⟩ := hinside.scopes _ _ hnew
  obtain ⟨scope₃, hscope₃, hgrows⟩ := h.passes.grows _ _ hscope₂
  rw [h.passes.current, hinside.current] at hscope
  cases hscope.symm.trans hscope₃
  rw [hgrows.reserved] at hname
  have hname' := (hdeclares.owed name hname).resolve_left fun hmem => (List.not_mem_nil hmem).elim
  obtain ⟨hlexical, hwork⟩ := howed name hname'
  obtain ⟨other, hother, htarget⟩ := h.bound name hwork
  rw [ScopeTree.nearestLexical, h.passes.nearest hb₂ hb₃,
    nearest_inside_self hb₁ hinside.toExtends hlexical,
    hinside.current] at hother
  cases hother.symm.trans hscope₃
  exact htarget

/-- A visit that opens a scope, the work in the scope, and its end. -/
theorem Performs.opens (htracked : Tracked a reportUndefined (a.IsLate root) b refs)
    (hdocumented : b.Documented a)
    (hvisit : Binder.visit a n b = (works ++ [.exitScope], b₂))
    (hmentions : b.refers a (.visit n) = [])
    (hbefore : Declares a (a.idlePlan root n) b.scopes.size b b₁)
    (hinside : Declares a (a.visitPlan root n owed) b.scopes.size (b₁.entered kind (some n)) b₂)
    (howed : ∀ name, owed name → kind.isLexical = true ∧ IsOwed a works name)
    (hpromises : Promises a n b₂ works)
    (hself : kind.isLexical = true → a.reservations (some n) = [])
    (h : Performs a root reportUndefined works (.exitScope :: rest) b₂ visited b₃) :
    Performs a root reportUndefined [.visit n] rest b visited
      (exitScope a reportUndefined b₃).2 := by
  have hb := htracked.sound
  have hb₁ := hbefore.sound hb
  have htracked₂ := htracked.opened hbefore hinside
  obtain ⟨refs₃, htracked₃⟩ := h.tracked htracked₂
  have hb₂ := htracked₂.sound
  have hb₃ := htracked₃.sound
  have hcurrent := bound_of_opened hb₁ hinside howed hb₂ hb₃ h
  have houter : b₃.scopes.outer? b₃.current = some b.current := by
    have hlt₂ : b₂.current.index < b₂.scopes.size := hb₂.current
    rw [h.passes.current, h.passes.grows.outer? hlt₂, hinside.current, hinside.outer? ?_,
      outer?_entered,
      hbefore.current]
    exact (sound_entered b₁ kind (some n) hb₁).current
  obtain ⟨htracked₄, hcloses⟩ := htracked₃.exitScope houter hcurrent
  have hwithin (m : Nat) : Work.pending a m works ≤ Work.pending a m [.visit n] := by
    have hle := Moment.refers_within (m := m) reportUndefined (.visit n) hdocumented
    rw [pending_singleton]
    have hpending : Work.pending a m (Moment.act a reportUndefined (.visit n) b).1 =
        Work.pending a m works := by
      show Work.pending a m (Binder.visit a n b).1 = _
      rw [hvisit, Work.pending_append, Work.pending_exitScope, Nat.add_zero]
    omega
  have hpasses : b.Passes a (a.IsLate root) (Lists a [.visit n])
      (exitScope a reportUndefined b₃).2 := by
    refine ⟨?_, ?_, fun r hr => ?_, fun m hm hvalue => ?_⟩
    · rw [hcloses.current, houter, Option.getD_some]
    · have hentered : b.scopes.Grows (a.IsLate root) (b₁.entered kind (some n)).scopes :=
        ScopeTree.Grows.trans (hbefore.toExtends.grows (Nat.le_refl _))
          (grows_entered b₁ kind (some n) _)
      have hinner : b.scopes.Grows (a.IsLate root) b₂.scopes :=
        hinside.toExtends.grows_of_le (Nat.le_refl _) hentered
      exact (hinner.trans h.passes.grows).trans (hcloses.grows _)
    · exact hcloses.valued r (h.passes.valued r (hinside.valued r (hbefore.valued r hr)))
    · have hother : a.isKind (some m) .identifier = false := by
        rw [Arena.isLexicalName, Bool.and_eq_true, Bool.and_eq_true] at hm
        rw [Arena.isKind, Arena.isKind_iff.1 hm.1.1]
        rfl
      rw [hcloses.others _ hother] at hvalue
      rcases h.passes.entered m hm hvalue with hvalue | hlists
      · rcases hinside.entered m hm hvalue with hvalue | hmem
        · exact (hbefore.entered m hm hvalue).imp_right fun hmem => lists_of_mem_bindingNames hmem.2
        · exact .inr (lists_of_mem_bindingNames hmem.2)
      · exact .inr (Nat.lt_of_lt_of_le hlists (hwithin m))
  refine ⟨?_, fun refs hrefs => ?_, hpasses, fun name hname => ?_, fun m =>
    (h.once m).trans (hwithin m),
    h.stands⟩
  · have hrun := h.run.trans (.cons .exitScope _ (.refl _))
    have hfirst : Moment.Refers a reportUndefined
        ⟨(Moment.act a reportUndefined (.visit n) b).1 ++ rest,
          (Moment.act a reportUndefined (.visit n) b).2⟩
        visited ⟨rest, (exitScope a reportUndefined b₃).2⟩ := by
      show Moment.Refers a reportUndefined
        ⟨(Binder.visit a n b).1 ++ rest, (Binder.visit a n b).2⟩ visited _
      rw [hvisit, List.append_assoc]
      rwa [List.append_nil, show b₃.refers a .exitScope = [] from rfl, List.map_nil,
        List.append_nil] at hrun
    have hall := Moment.Refers.cons (.visit n) _ hfirst
    rwa [hmentions, List.map_nil, List.nil_append] at hall
  · obtain ⟨met, hmet, hperm⟩ := h.tracks refs (hrefs.opened hbefore hinside)
    exact ⟨met, (hmet.exitScope houter hcurrent).1, hperm⟩
  · obtain ⟨m, hm, hreserved⟩ := hname
    cases List.mem_singleton.1 hm
    cases hkind : kind.isLexical with
    | true =>
      rw [hself hkind] at hreserved
      cases hreserved
    | false =>
      have hbinds : b₃.Binds (b₃.scopes.nearestLexical b₃.current) name := by
        rcases hpromises name hreserved with hbinds | hwork
        · exact h.passes.binds_nearest hb₂ hb₃ hbinds
        · exact h.bound name hwork
      have hsame : b₃.scopes.nearestLexical b₃.current =
          (exitScope a reportUndefined b₃).2.scopes.nearestLexical
            (exitScope a reportUndefined b₃).2.current := by
        rw [ScopeTree.nearestLexical, ScopeTree.nearestLexical, h.passes.nearest hb₂ hb₃,
          nearest_inside hb₁ hinside.toExtends hkind, hpasses.nearest hb htracked₄.sound,
            hbefore.current,
          hbefore.nearest hb]
      obtain ⟨scope, hscope, htarget⟩ := hbinds
      obtain ⟨scope', hscope', hgrows⟩ := hcloses.grows (a.IsLate root) _ scope hscope
      obtain ⟨x, hx⟩ := Option.isSome_iff_exists.1 htarget
      rw [← hsame]
      exact ⟨scope', hscope', Option.isSome_iff_exists.2 ⟨x, hgrows.binds _ _ x hx⟩⟩

end Opens

/-! ## Visits -/

/-- The visit of a node, once the work that it asks for can be done. -/
theorem Due.performs_visit (hshape : a.Shaped root)
    (ih : ∀ works : List Work, (∀ w ∈ works, w.rank < n + 1) → ∀ b rest,
      Due a root reportUndefined works rest b →
      ∃ visited b', Performs a root reportUndefined works rest b visited b')
    (h : Due a root reportUndefined [.visit n] rest b) :
    ∃ visited b', Performs a root reportUndefined [.visit n] rest b visited b' := by
  obtain ⟨refs, hrefs⟩ := h.tracked
  have hready := (h.asks _ (List.mem_singleton_self _)).2 n rfl
  have hfollows := hready.follows reportUndefined hshape hrefs.sound hrefs.annotated
  have hheld : (⟨(Binder.visit a n b).1 ++ rest, (Binder.visit a n b).2⟩ :
    Moment).Held := h.step_held
  have hdocumented : (Binder.visit a n b).2.Documented a := h.step_documented
  have hrank : ∀ w ∈ (Binder.visit a n b).1, w.rank < n + 1 := by
    cases h.held with
    | on hb => exact visit_rank hb
    | finished hworks => cases hworks
  have hpending (m : Nat) : Work.pending a m (Binder.visit a n b).1 ≤ 1 := by
    have hle := Moment.refers_within (m := m) reportUndefined (.visit n) h.documented
    have hone := h.distinct m
    rw [pending_singleton] at hone
    exact (Nat.le_add_left _ _).trans (hle.trans hone)
  generalize hmentions : b.refers a (.visit n) = mentions at hfollows
  generalize hvisit : Binder.visit a n b = out at hfollows hheld hdocumented hrank hpending
  cases hfollows with
  | @stay works b₁ hmeets hasks hpromises =>
    obtain ⟨met, hmet, -⟩ := hmeets.tracks refs hrefs
    obtain ⟨visited, b₂, hrest⟩ :=
      ih works hrank b₁ rest ⟨⟨_, hmet⟩, hdocumented, hheld, h.more, hasks, hpending⟩
    obtain ⟨refs₂, hrefs₂⟩ := hrest.tracked hmet
    subst hmentions
    refine ⟨_, b₂, .stay (a.idlePlan root n) h.documented hvisit hmeets rfl
      (fun m hm => lists_of_mem_bindingNames hm.2) (refers_stand hshape hready.listed b)
      (fun name hname => ?_) hrest hmet.sound hrefs₂.sound⟩
    obtain ⟨m, hm, hreserved⟩ := hname
    cases List.mem_singleton.1 hm
    exact hpromises name hreserved
  | @opens kind owed works b₁ b₂ hnone hbefore hinside howed hasks hpromises hself =>
    have hrefs₂ := hrefs.opened hbefore hinside
    rw [List.append_assoc] at hheld
    obtain ⟨visited, b₃, hrest⟩ := ih works (fun w hw => hrank w (List.mem_append_left _ hw)) b₂
      (.exitScope :: rest)
      { tracked := ⟨_, hrefs₂⟩
        documented := hdocumented
        held := hheld
        more := List.cons_ne_nil _ _
        asks := hasks
        distinct := fun m => by
          have hle := hpending m
          rwa [Work.pending_append, Work.pending_exitScope, Nat.add_zero] at hle }
    exact ⟨visited, _, .opens hrefs h.documented hvisit (hmentions.trans hnone) hbefore hinside
      howed hpromises
      hself hrest⟩

/-- **Work that is ready.** It is done, and the walk is back in the scope where it was. -/
theorem Due.performs_work (hshape : a.Shaped root) {w : Work} {rest : List Work} {b : Binder}
    (h : Due a root reportUndefined [w] rest b) :
    ∃ visited b', Performs a root reportUndefined [w] rest b visited b' := by
  match w with
  | .exitScope => exact absurd rfl (h.asks _ (List.mem_singleton_self _)).1
  | .typeNames document => exact h.performs_typeNames
  | .visit n =>
    refine h.performs_visit hshape fun works hrank b rest hdue =>
      hdue.performs fun next hnext b rest hnow => ?_
    have hlt : next.rank < n + 1 := hrank next hnext
    exact performs_work hshape hnow
termination_by w.rank
decreasing_by exact hlt

end Performs

/-! ## The walk of a tree -/

namespace Analysis

variable {a : Arena} {root : NodeRef} {reportUndefined : Bool}

theorem sound_unit (a : Arena) (root : NodeRef) : ((new a).unit root).Sound := by
  have hon := unit_on a root
  have hscope := get?_unit a root
  have hnone {s : ScopeId} {scope : Scope} {name : Atom} {x : Target}
      (hs : ((new a).unit root).scopes.get? s = some scope) :
        scope.target? .value name ≠ some x := by
    rw [Binder.scopes, hscope] at hs
    split at hs
    · cases hs
      nofun
    · cases hs
  refine ⟨hon.nested, ?_, fun s scope hs => ?_, fun s scope name v hs hv => (hnone hs hv).elim,
    fun s s' scope scope' name name' v hs hs' hv hv' => (hnone hs hv).elim⟩
  · show 0 < ((new a).scopes.scopes.push _).size
    rw [Array.size_push]
    exact Nat.succ_pos _
  · rw [hon.current, hon.chain, List.mem_singleton]
    rw [Binder.scopes, hscope] at hs
    split at hs
    · next heq =>
      cases hs
      exact ⟨fun _ => heq, fun _ => rfl⟩
    · cases hs

theorem slots_unit (a : Arena) (root : NodeRef) (v : ValueId) :
    ((new a).unit root).values.readsOf v = [] ∧ ((new a).unit root).values.writesOf v = [] := by
  have hslots : (ValueStore.new ((a.atoms.lookup? "prototype").getD .empty)).SameSlots
      (new a).store.values := .alloc _ fun slot hslot => by cases hslot
  have hnone : (ValueStore.new ((a.atoms.lookup? "prototype").getD .empty)).slot? v = none := by
    simp [ValueStore.slot?, ValueStore.get?, ValueStore.new]
  refine ⟨(hslots.readsOf v).trans ?_, (hslots.writesOf v).trans ?_⟩
  · rw [ValueStore.readsOf, hnone]
    rfl
  · rw [ValueStore.writesOf, hnone]
    rfl

theorem accounts_unit (a : Arena) (root : NodeRef) (reportUndefined : Bool) :
    Accounts a reportUndefined ((new a).unit root) [] where
  placed r hr := (List.not_mem_nil hr).elim
  named r hr := (List.not_mem_nil hr).elim
  parked s scope hs := by
    rw [Binder.scopes, get?_unit] at hs
    split at hs
    · cases hs
      exact .nil
    · cases hs
  entered r hr := (List.not_mem_nil hr).elim
  entries space n x hn hx := by
    unfold noted? at hx
    cases space with
    | value =>
      obtain ⟨v, hv, -⟩ := Option.map_eq_some_iff.1 hx
      cases (NodeTable.get?_empty (some n)).symm.trans hv
    | type =>
      obtain ⟨t, ht, -⟩ := Option.map_eq_some_iff.1 hx
      cases (NodeTable.get?_empty (some n)).symm.trans ht
  reads v n hn := by
    rw [(slots_unit a root v).1]
    rfl
  writes v n hn howns := by
    rw [(slots_unit a root v).2]
    rfl
  reports := by
    cases reportUndefined <;> exact .nil

theorem tracked_unit (a : Arena) (root : NodeRef) (reportUndefined : Bool) (late : Atom → Prop) :
    Tracked a reportUndefined late ((new a).unit root) [] where
  accounts := accounts_unit a root reportUndefined
  sound := sound_unit a root
  annotated n doc hdoc := by
    cases (NodeTable.get?_empty (some n)).symm.trans hdoc
  remembered r hr := (List.not_mem_nil hr).elim
  settled s scope hs hclosed := by
    rw [Binder.scopes, get?_unit] at hs
    split at hs
    · cases hs
      exact absurd rfl hclosed
    · cases hs

/-- What is tracked when the scope of the unit has opened, and what is to be visited first. -/
theorem due_start (hshape : a.Shaped root) (reportUndefined : Bool) :
    Tracked a reportUndefined (a.IsLate root) (Moment.start a root).state [] ∧
      Due a root reportUndefined (Work.children a root) [.exitScope] (Moment.start a root).state ∧
      (Moment.start a root).state.currentKind? = some .global ∧
        ∀ scope, (Moment.start a root).state.scopes.get?
          (Moment.start a root).state.current = some scope →
        ∀ name, (.value, name) ∈ scope.reserved → IsOwed a (Work.children a root) name := by
  obtain ⟨kind, hkind, hunit⟩ := Arena.kind?_of_isOf hshape.unit
  obtain ⟨u, rfl⟩ := Arena.exists_of_kind? hkind
  have hother : kind ≠ .varStatement ∧ kind ≠ .jsDocDocument ∧ kind ≠ .annotated ∧
      kind ≠ .varDeclaration ∧ kind.isCode = true := by
    cases kind <;> first
      | (refine ⟨?_, ?_, ?_, ?_, rfl⟩ <;> decide)
      | cases hunit
  have hsound := sound_unit a (some u)
  have hu : u ∈ a.listing (some u) := Arena.mem_listing_self (a.node?_of_kind? hkind)
  let plan : Plan :=
    { late := a.IsLate (some u)
      owed := fun name => (.value, name) ∈ (a.children (some u)).flatMap a.reservations }
  have hglobal : ((new a).unit (some u)).currentKind? = some .global := by
    rw [Binder.currentKind?, (unit_on a (some u)).current, Binder.scopes, get?_unit, if_pos rfl,
      Option.map_some]
  obtain ⟨hdeclares, hcovered⟩ := Declares.openBody (k := 0) plan hshape hsound (Nat.zero_le _)
    hglobal rfl (fun n hn => Arena.mem_listing_child hu hn) fun r hr name hname =>
      List.mem_flatMap.2 ⟨r, hr, hname⟩
  have htracked : Tracked a reportUndefined (a.IsLate (some u))
      (Moment.start a (some u)).state [] := by
    refine Tracked.declared plan (tracked_unit a (some u) reportUndefined _) hdeclares
      (fun r hr => (List.not_mem_nil hr).elim) fun s scope hs _ => ?_
    rw [Binder.scopes, get?_unit] at hs
    split at hs
    · cases hs
      rfl
    · cases hs
  refine ⟨htracked, ⟨⟨[], htracked⟩, ?_, start_held a (some u), List.cons_ne_nil _ _,
    doable_children fun c hc => ?_, fun m =>
      ?_⟩, (hdeclares.toExtends.currentKind? hsound).trans hglobal,
    fun scope hscope name hname => ?_⟩
  · obtain ⟨acts, hrun, hacts, -⟩ := @openBody_mute a reportUndefined
      ((new a).unit (some u)).current (a.children (some u)) 0 _ (documented_unit a (some u))
    show (Binder.openBody a ((new a).unit (some u)).current (a.children (some u))
      ((new a).unit (some u))).2.Documented a
    rw [hrun]
    exact doAll_induction hacts (documented_unit a (some u)) fun act hact b hb =>
      hb.act hact reportUndefined
  · have hlt := Arena.lt_of_mem_children hc
    have hdocument : a.isKind (some u) .jsDocDocument = false := by
      rw [Arena.isKind, hkind]
      simpa using hother.2.1
    have henclosed : ((new a).unit (some u)).Encloses c := by
      intro s hs scope hscope p hp
      rw [Binder.scopes, get?_unit] at hscope
      split at hscope
      · cases hscope
        cases hp
        exact hlt
      · cases hscope
    refine .of_parent ⟨?_, fun m hm hlexical => ?_, henclosed.extends hsound hdeclares.toExtends⟩
      (hshape.parent_child hu hc) hkind hother.2.2.1 hother.2.2.2.1
      (hshape.isWalked_child hu hkind hother.2.2.2.2 hother.1 hother.2.2.1 hc) ?_
    · exact Arena.mem_code_child (Arena.mem_code_self (a.node?_of_kind? hkind)) hdocument hc
    · by_contra hvalue
      rcases hdeclares.entered m hlexical (eq_true_of_ne_false hvalue) with hvalue | hmine
      · obtain ⟨v, hv⟩ := Option.isSome_iff_exists.1 hvalue
        cases (NodeTable.get?_empty (some m)).symm.trans hv
      · exact hmine
    · have hcurrent : (Moment.start a (some u)).state.current = ((new a).unit (some u)).current :=
        hdeclares.current
      rw [hcurrent]
      exact hcovered (some c) hc
  · rw [Work.pending_children]
    exact (a.timesBelow_le m _).trans (List.nodup_iff_count_le_one.1 hshape.once m)
  · have hunit := get?_unit a (some u) ((new a).unit (some u)).current
    rw [(unit_on a (some u)).current, if_pos rfl] at hunit
    obtain ⟨scope', hscope', hdeclared⟩ := hdeclares.scopes _ _ hunit
    have hcurrent : (Moment.start a (some u)).state.current = ⟨0⟩ := hdeclares.current
    rw [hcurrent] at hscope
    cases hscope.symm.trans hscope'
    exact isOwed_children ((hdeclared.owed name hname).resolve_left fun hmem =>
      (List.not_mem_nil hmem).elim)

/-- What is known of the references of a walk when it is over. -/
structure Resolved (a : Arena) (root : NodeRef) (reportUndefined : Bool) (refs : List Reference)
    (b : Binder) : Prop where
  accounts : Accounts a reportUndefined b refs
  nested : b.scopes.Nested
  closed : ∀ s scope, b.scopes.get? s = some scope → scope.state ≠ .opened
  remembered : ∀ r ∈ refs, r.Remembered (a.IsLate root) b.scopes
  settled : ∀ s scope, b.scopes.get? s = some scope → ∀ name, (.value, name) ∈ scope.reserved →
    (scope.target? .value name).isSome
  owner : ∀ s s' scope scope' name name' v, b.scopes.get? s = some scope →
    b.scopes.get? s' = some scope' →
    scope.target? .value name = some (.inl v) → scope'.target? .value name' = some (.inl v) → s = s'

/-- When the scope of the unit closes, all is known of the references. -/
theorem resolved_of_tracked {b : Binder} {refs : List Reference}
    (h : Tracked a reportUndefined (a.IsLate root) b refs)
    (hcurrent : ∀ scope, b.scopes.get? b.current = some scope → ∀ name,
      (.value, name) ∈ scope.reserved → (scope.target? .value name).isSome)
    (hfinished : (exitScope a reportUndefined b).2.Finished) :
    Resolved a root reportUndefined refs (exitScope a reportUndefined b).2 := by
  obtain ⟨haccounts, hcloses⟩ := exitScope_accounts h.sound h.accounts
  have hclosed : ∀ s scope, (exitScope a reportUndefined b).2.scopes.get? s = some scope →
      scope.state ≠ .opened := fun s scope hs hopen => by
    rw [(hfinished.closed s scope hs).1] at hopen
    cases hopen
  refine ⟨haccounts, hfinished.nested, hclosed, fun r hr => ?_, fun s scope hs =>
    hcloses.settled h hcurrent s scope hs (hclosed s scope hs),
      fun s s' scope scope' name name' v hs hs' hv hv' => ?_⟩
  · have hr' := h.remembered r hr
    exact ⟨hr'.nested, hr'.scope, hr'.grows.trans (hcloses.grows _), hr'.foreign⟩
  · have hwas {s : ScopeId} {scope : Scope}
      (hs : (exitScope a reportUndefined b).2.scopes.get? s = some scope) :
        ∃ was, b.scopes.get? s = some was ∧ scope.target? = was.target? := by
      obtain ⟨was, hwas⟩ := hcloses.exists_of_get? hs
      obtain ⟨other, hother, -, htarget, -⟩ := hcloses.grows_of_get? (a.IsLate root) hwas
      cases hs.symm.trans hother
      exact ⟨was, hwas, htarget⟩
    obtain ⟨was, hwas₁, htarget⟩ := hwas hs
    obtain ⟨was', hwas₂, htarget'⟩ := hwas hs'
    exact h.sound.owner s s' was was' name name' v hwas₁ hwas₂ (htarget ▸ hv) (htarget' ▸ hv')

/-- **The walk of a tree.** It visits references, each node at most once, and accounts for them when
it is over. By then each scope has bound what it reserved. -/
theorem walk_tracks (hshape : a.Shaped root) (reportUndefined : Bool) : ∃ finish visited refs,
    Moment.Refers a reportUndefined (.start a root) visited ⟨[], finish⟩ ∧
    bindNames a reportUndefined root (new a) = ((), finish.analysis) ∧
    Resolved a root reportUndefined refs finish ∧ (refs.map Reference.place).Perm visited ∧
    (∀ q ∈ visited, q.1.Stands a) ∧ (visited.map (·.1.node)).Nodup := by
  obtain ⟨htracked, hdue, hglobal, howed⟩ := due_start hshape reportUndefined
  obtain ⟨visited, b, hperforms⟩ := hdue.performs fun w _ b rest h => h.performs_work hshape
  obtain ⟨refs, hrefs, hperm⟩ := hperforms.tracks [] htracked
  rw [List.append_nil] at hrefs
  have hrun := hperforms.run.trans (.cons .exitScope _ (.refl _))
  rw [List.append_nil, show b.refers a .exitScope = [] from rfl, List.map_nil,
    List.append_nil] at hrun
  have hfinished : (exitScope a reportUndefined b).2.Finished := by
    cases (start_held a root).steps hrun.steps with
    | finished _ hstate => exact hstate
    | on _ hworks =>
        exact absurd hworks.symm (List.append_ne_nil_of_right_ne_nil _ (List.cons_ne_nil _ _))
  have hcurrent : ∀ scope, b.scopes.get? b.current = some scope → ∀ name,
      (.value, name) ∈ scope.reserved → (scope.target? .value name).isSome := by
    intro scope hscope name hname
    obtain ⟨was, hwas⟩ := ScopeTree.exists_get?_of_lt htracked.sound.current
    obtain ⟨grown, hgrown, hgrows⟩ := hperforms.passes.grows _ _ hwas
    rw [← hperforms.passes.current] at hgrown
    cases hscope.symm.trans hgrown
    rw [hgrows.reserved] at hname
    obtain ⟨other, hother, htarget⟩ := hperforms.bound name (howed was hwas name hname)
    rw [ScopeTree.nearestLexical, hperforms.passes.nearest htracked.sound hrefs.sound,
      nearest_current htracked.sound.nested hglobal rfl, ← hperforms.passes.current] at hother
    cases hscope.symm.trans hother
    exact htarget
  obtain ⟨finish, hsteps, hbind⟩ := steps_run a reportUndefined root
  obtain ⟨met, hmet⟩ := Moment.Refers.exists_of_steps hsteps
  obtain ⟨-, hfinish⟩ := hmet.unique hrun
  rw [hfinish] at hbind
  refine ⟨_, visited, refs, hrun, hbind, resolved_of_tracked hrefs hcurrent hfinished, hperm,
    hperforms.stands, ?_⟩
  refine List.nodup_iff_count_le_one.2 fun r => ?_
  by_cases hmem : r ∈ visited.map (·.1.node)
  · obtain ⟨q, hq, rfl⟩ := List.mem_map.1 hmem
    obtain ⟨ref, href, hplace⟩ := List.mem_map.1 (hperm.mem_iff.2 hq)
    obtain ⟨n, hn, -⟩ := hrefs.accounts.named ref href
    have hone : mentioned n (visited.map (·.1)) ≤ 1 := (hperforms.once n).trans (hdue.distinct n)
    rw [mentioned, List.map_map] at hone
    have hnode : q.1.node = some n := hplace ▸ hn
    rw [hnode]
    exact hone
  · rw [List.count_eq_zero.2 hmem]
    exact Nat.zero_le 1

end Analysis

end DocTypes
