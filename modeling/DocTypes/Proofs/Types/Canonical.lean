import DocTypes.Proofs.Types.Structure

/-!
# Canonical stores

A store is canonical if every handle in it names something older, the members of unions and
the fields of records stand in order, and the constructed classes and what they apply
correspond one to one. The empty store is canonical, and four steps keep a store so.

## Main statements

* `Store.Canonical.intern`: interning a key whose handles are known and whose lists are in
  order.
* `Store.Canonical.internList`: numbering a list of known types.
* `Store.Canonical.withValues`: changing values without touching the constructed classes.
* `Store.Canonical.newConstructedClass`: applying a known class to a known list.
-/

namespace DocTypes

/-! ## Values without constructed classes -/

namespace ValueStore

/-- Values stay there, and no constructed class comes or changes what it applies. -/
structure Keeps (s s' : ValueStore) : Prop where
  known : ∀ v, (s.get? v).isSome → (s'.get? v).isSome
  application : ∀ v, s'.application? v = s.application? v
  applications : s'.applications = s.applications

namespace Keeps

theorem refl (s : ValueStore) : s.Keeps s := ⟨fun _ h => h, fun _ => rfl, rfl⟩

theorem trans {s s' s'' : ValueStore} (h : s.Keeps s') (h' : s'.Keeps s'') : s.Keeps s'' :=
  ⟨fun v hv => h'.known v (h.known v hv), fun v => (h'.application v).trans (h.application v),
    h'.applications.trans h.applications⟩

theorem withTables (s : ValueStore) (tables : Array MemberTable) (missed : List Missing) :
    s.Keeps { s with tables, missed } := ⟨fun _ h => h, fun _ => rfl, rfl⟩

/-- A new value that is no constructed class. -/
theorem alloc (s : ValueStore) {value : Value} (h : value.constructed? = none) :
    s.Keeps (s.alloc value).2 := by
  refine ⟨fun v hv => ?_, fun v => ?_, rfl⟩
  · obtain ⟨old, hold⟩ := Option.isSome_iff_exists.1 hv
    exact Option.isSome_iff_exists.2 ⟨old, get?_alloc_of_some value hold⟩
  · simp only [application?, constructed?, get?_alloc]
    split
    · next heq =>
      have hnone : s.get? v = none := by
        rw [heq]
        simp [ValueStore.alloc, get?]
      simp [h, hnone]
    · rfl

/-- A change that leaves every constructed class as it is. -/
theorem update (s : ValueStore) (v : ValueId) {f : Value → Value}
    (h : ∀ value, (f value).constructed? = value.constructed?) : s.Keeps (s.update v f) := by
  refine ⟨fun w hw => ?_, fun w => ?_, ?_⟩
  · rw [get?_update]
    split <;> simpa using hw
  · simp only [application?, constructed?, get?_update]
    split
    · cases s.get? w <;> simp [h]
    · rfl
  · unfold ValueStore.update
    split <;> rfl

end Keeps

end ValueStore

namespace Store

/-- The lists in a key stand in order: the members of a union by number, and the fields of a
record by label. -/
def Normal (s : Store) : TypeKey → Prop
  | .union l => (s.types.list l).Pairwise (·.index < ·.index)
  | .record l => ∃ fields : List (Atom × TypeId), fields.Pairwise (·.1.index < ·.1.index) ∧
      (s.types.list l).map s.types.key? = fields.map fun f => some (.labeled f.1 f.2)
  | _ => True

theorem Extends.normal {s s' : Store} (h : Extends s s') {key : TypeKey}
    (hkey : s.KeyKnown key) (hnormal : s.Normal key) : s'.Normal key := by
  cases key with
  | union l =>
    simp only [Normal, h.list l hkey]
    exact hnormal
  | record l =>
    simp only [Normal, h.list l hkey.1,
      List.map_congr_left fun t ht => h.key?_eq (hkey.2 t ht)]
    exact hnormal
  | _ => trivial

/-- Every handle names something older, and every type and constructed class is there once. -/
structure Canonical (s : Store) : Prop where
  keyKnown : ∀ t key, s.types.key? t = some key → s.KeyKnown key
  descends : s.Descends
  normal : ∀ t key, s.types.key? t = some key → s.Normal key
  interned : ∀ t key, s.types.key? t = some key → t.isIntrinsic = false → key.intrinsic? = none
  lists : ∀ l, ∀ t ∈ s.types.list l, s.Known t
  generic_lt : ∀ v x, s.values.application? v = some x → x.generic.index < v.index
  applicationsKnown : s.ApplicationsKnown
  application_iff : ∀ v x, s.values.applications[x]? = some v ↔ s.values.application? v = some x

/-- A step from a store to a canonical one that changes nothing that was there. -/
structure Grows (s s' : Store) : Prop where
  canonical : s'.Canonical
  keeps : Extends s s'

theorem Grows.refl {s : Store} (h : s.Canonical) : s.Grows s := ⟨h, .refl s⟩

theorem Grows.trans {s s' s'' : Store} (h : s.Grows s') (h' : s'.Grows s'') : s.Grows s'' :=
  ⟨h'.canonical, h.keeps.trans h'.keeps⟩

theorem Known.lt {s : Store} {t : TypeId} (h : s.Known t) :
    t.index < TypeId.firstInterned + s.types.size := by
  obtain ⟨key, hkey⟩ := Option.isSome_iff_exists.1 h
  unfold TypeStore.key? at hkey
  split at hkey
  · next hi =>
    simp only [TypeId.isIntrinsic, decide_eq_true_eq] at hi
    omega
  · obtain ⟨stored, hstored, -⟩ := Option.bind_eq_some_iff.1 hkey
    have := Registry.lt_size_of_get? hstored
    simp only [TypeStore.size]
    omega

theorem ValueKnown.lt {s : Store} {v : ValueId} (h : s.ValueKnown v) :
    v.index < ValueId.first + s.values.size := by
  obtain ⟨value, hvalue⟩ := Option.isSome_iff_exists.1 h
  obtain ⟨i, hi, hget⟩ := Option.bind_eq_some_iff.1 hvalue
  rw [ValueId.position?_eq_some_iff] at hi
  have hlt := (Array.getElem?_eq_some_iff.1 hget).1
  subst hi
  simp only [ValueId.atPosition, ValueStore.size]
  omega

theorem valueKnown_of_application? {s : Store} {v : ValueId} {x : Application}
    (h : s.values.application? v = some x) : s.ValueKnown v := by
  simp only [ValueStore.application?, ValueStore.constructed?, Option.map_eq_some_iff,
    Option.bind_eq_some_iff] at h
  obtain ⟨_, ⟨value, hvalue, _⟩, _⟩ := h
  exact Option.isSome_iff_exists.2 ⟨value, hvalue⟩

theorem listKnown_of_mem {s : Store} {l : ListId} {t : TypeId} (h : t ∈ s.types.list l) :
    s.ListKnown l := by
  unfold TypeStore.list at h
  unfold ListKnown
  cases hl : s.types.lists.get? l.index with
  | none => simp [hl] at h
  | some ts => rfl

/-- An intrinsic type has no parts and no handles. -/
theorem plain_of_intrinsic (s : Store) (key : TypeKey) (h : key.intrinsic?.isSome) :
    s.KeyKnown key ∧ s.parts key = [] ∧ s.Normal key := by
  cases key with
  | any | invalid | nil | null | void | unspecified | primitive =>
    exact ⟨trivial, rfl, trivial⟩
  | _ => simp [TypeKey.intrinsic?] at h

theorem isSome_intrinsic? {i : Nat} {key : TypeKey} (h : TypeKey.intrinsics[i]? = some key) :
    key.intrinsic?.isSome := by
  have hall : ∀ key ∈ TypeKey.intrinsics, key.intrinsic?.isSome := by decide
  exact hall key (List.mem_of_getElem? h)

/-- The empty store has the intrinsic types alone. -/
theorem intrinsic_of_key?_new {t : TypeId} {key : TypeKey} (h : TypeStore.new.key? t = some key) :
    key.intrinsic?.isSome ∧ t.isIntrinsic = true := by
  unfold TypeStore.key? at h
  split at h
  · next hi => exact ⟨isSome_intrinsic? h, hi⟩
  · obtain ⟨stored, hstored, -⟩ := Option.bind_eq_some_iff.1 h
    simp [TypeStore.storedKey?, TypeStore.new, Registry.get?, Registry.empty] at hstored

/-- Interning a key changes nothing that was there. -/
theorem extends_intern (s : Store) (key : TypeKey) :
    Extends s { s with types := (s.types.intern key).2 } := by
  refine ⟨fun t k hk => TypeStore.key?_intern_of_some key hk, fun l _ => ?_, fun l hl => ?_,
    fun v hv => hv, fun v _ => rfl⟩
  · simp only [TypeStore.list, TypeStore.lists_intern]
  · simpa only [ListKnown, TypeStore.lists_intern] using hl

/-- Numbering a list changes nothing that was there. -/
theorem extends_internList (s : Store) (types : List TypeId) :
    Extends s { s with types := (s.types.internList types).2 } := by
  refine ⟨fun t k hk => hk, fun l hl => TypeStore.list_internList_of_some types hl,
    fun l hl => ?_, fun v hv => hv, fun v _ => rfl⟩
  obtain ⟨ts, hts⟩ := Option.isSome_iff_exists.1 hl
  exact Option.isSome_iff_exists.2 ⟨ts, Registry.get?_intern_of_some types hts⟩

namespace Canonical

variable {s : Store}

/-- The empty store is canonical. -/
theorem new (prototypeName : Atom) : (Store.new prototypeName).Canonical := by
  have hkey {t : TypeId} {key : TypeKey}
      (h : (Store.new prototypeName).types.key? t = some key) :
      key.intrinsic?.isSome ∧ t.isIntrinsic = true := intrinsic_of_key?_new h
  have happ (v : ValueId) : (Store.new prototypeName).values.application? v = none := by
    simp [ValueStore.application?, ValueStore.constructed?, Store.new, ValueStore.new,
      ValueStore.get?]
  have hlist (l : ListId) : (Store.new prototypeName).types.list l = [] := by
    have hcases := @Registry.get?_intern_cases (List TypeId) _ _ _ .empty l.index []
    simp only [Store.new, TypeStore.new, TypeStore.list, Registry.insert]
    cases hget : (Registry.empty.intern ([] : List TypeId)).2.get? l.index with
    | none => rfl
    | some ts =>
      rcases hcases hget with h | ⟨_, h⟩
      · simp [Registry.get?, Registry.empty] at h
      · simp [h]
  have hplain {key : TypeKey} := (Store.new prototypeName).plain_of_intrinsic key
  refine ⟨fun t key h => (hplain (hkey h).1).1, fun t key h part hpart => ?_,
    fun t key h => (hplain (hkey h).1).2.2, fun t key h hi => ?_,
    fun l t ht => ?_, fun v x h => ?_, fun v x h => ?_, fun v x => ?_⟩
  · simp [(hplain (hkey h).1).2.1] at hpart
  · simp [(hkey h).2] at hi
  · simp [hlist] at ht
  · simp [happ] at h
  · simp [happ] at h
  · rw [happ]
    simp [Store.new, ValueStore.new]

/-- The types a value is applied to are known. -/
theorem known_of_mem_valueParts (h : s.Canonical) {steps : Nat} {v : ValueId} {t : TypeId}
    (ht : t ∈ s.valueParts steps v) : s.Known t := by
  induction steps generalizing v with
  | zero => simp [valueParts] at ht
  | succ steps ih =>
    unfold valueParts at ht
    split at ht
    · next x hx =>
      rcases List.mem_append.1 ht with ht | ht
      · exact h.lists _ t ht
      · exact ih ht
    · simp at ht

/-- The parts of a key whose handles are known are known. -/
theorem known_of_mem_parts (h : s.Canonical) (key : TypeKey) (hkey : s.KeyKnown key) {t : TypeId}
    (ht : t ∈ s.parts key) : s.Known t := by
  cases key with
  | instanceOf v | constructedInstanceOf v | reference v => exact h.known_of_mem_valueParts ht
  | function shape =>
    obtain ⟨_, hthis, hreturn, _⟩ := hkey
    simp only [parts, List.mem_cons, List.mem_append] at ht
    rcases ht with rfl | rfl | ht | ht
    · exact hthis
    · exact hreturn
    · exact h.lists _ t ht
    · exact h.lists _ t ht
  | union l | tuple l => exact h.lists l t ht
  | record l =>
    simp only [parts, List.mem_append, List.mem_flatMap] at ht
    rcases ht with ht | ⟨u, hu, ht⟩
    · exact h.lists l t ht
    · unfold labeledPart at ht
      split at ht
      · next label type hlabeled =>
        rw [List.mem_singleton] at ht
        exact ht ▸ h.keyKnown u _ hlabeled
      · simp at ht
  | labeled label type =>
    rw [parts, List.mem_singleton] at ht
    exact ht ▸ hkey
  | _ => simp [parts] at ht

/-- The old facts about the keys and lists of a store stay true in a store that grew. What is
left to show is about the keys, lists and applications that are new. -/
theorem of_extends {s' : Store} (h : s.Canonical) (hext : Extends s s')
    (hkey : ∀ t key, s'.types.key? t = some key → s.types.key? t = none →
      s'.KeyKnown key ∧ s'.Normal key ∧ key.intrinsic? = none ∧
        ∀ part ∈ s'.parts key, part.index < t.index)
    (hlist : ∀ l, ¬s.ListKnown l → ∀ t ∈ s'.types.list l, s'.Known t)
    (happ : ∀ v x, s'.values.application? v = some x → ¬s.ValueKnown v →
      x.generic.index < v.index ∧ s'.ValueKnown x.generic ∧ s'.ListKnown x.arguments)
    (hiff : ∀ v x, s'.values.applications[x]? = some v ↔ s'.values.application? v = some x) :
    s'.Canonical := by
  have hold {t : TypeId} {key : TypeKey} (hk : s'.types.key? t = some key) (ht : s.Known t) :
      s.types.key? t = some key := (hext.key?_eq ht).symm.trans hk
  have hnew {t : TypeId} (ht : ¬s.Known t) : s.types.key? t = none := by
    simpa [Known] using ht
  have hoapp {v : ValueId} {x : Application} (hx : s'.values.application? v = some x)
      (hv : s.ValueKnown v) : s.values.application? v = some x :=
        (hext.application v hv).symm.trans hx
  refine ⟨fun t key hk => ?_, fun t key hk part hpart => ?_, fun t key hk => ?_,
    fun t key hk hi => ?_, fun l t ht => ?_, fun v x hx => ?_, fun v x hx => ?_, hiff⟩
  · by_cases ht : s.Known t
    · exact hext.keyKnown (h.keyKnown t key (hold hk ht))
    · exact (hkey t key hk (hnew ht)).1
  · by_cases ht : s.Known t
    · have hk' := hold hk ht
      rw [hext.parts_eq h.applicationsKnown (h.keyKnown t key hk')] at hpart
      exact h.descends t key hk' part hpart
    · exact (hkey t key hk (hnew ht)).2.2.2 part hpart
  · by_cases ht : s.Known t
    · have hk' := hold hk ht
      exact hext.normal (h.keyKnown t key hk') (h.normal t key hk')
    · exact (hkey t key hk (hnew ht)).2.1
  · by_cases ht : s.Known t
    · exact h.interned t key (hold hk ht) hi
    · exact (hkey t key hk (hnew ht)).2.2.1
  · by_cases hl : s.ListKnown l
    · rw [hext.list l hl] at ht
      exact hext.known (h.lists l t ht)
    · exact hlist l hl t ht
  · by_cases hv : s.ValueKnown v
    · exact h.generic_lt v x (hoapp hx hv)
    · exact (happ v x hx hv).1
  · by_cases hv : s.ValueKnown v
    · obtain ⟨hgeneric, harguments⟩ := h.applicationsKnown v x (hoapp hx hv)
      exact ⟨hext.valueKnown _ hgeneric, hext.listKnown _ harguments⟩
    · exact (happ v x hx hv).2

/-! ## Types -/

/-- Interning a key whose handles are known and whose lists are in order. -/
theorem intern (h : s.Canonical) (key : TypeKey) (hkey : s.KeyKnown key)
    (hnormal : s.Normal key) :
    s.Grows { s with types := (s.types.intern key).2 } := by
  have hext := s.extends_intern key
  refine ⟨h.of_extends hext (fun t k hk hnone => ?_) (fun l hl t ht => ?_) (fun v x hx hv => ?_)
    h.application_iff, hext⟩
  · -- a key that was not there is the one that came, under the next free number
    rcases TypeStore.key?_intern_cases hk with hold | ⟨hindex, rfl, hintrinsic⟩
    · simp [hnone] at hold
    · refine ⟨hext.keyKnown hkey, hext.normal hkey hnormal, hintrinsic, fun part hpart => ?_⟩
      rw [hext.parts_eq h.applicationsKnown hkey] at hpart
      have hlt := (h.known_of_mem_parts _ hkey hpart).lt
      omega
  · simp only [TypeStore.list, TypeStore.lists_intern] at ht
    exact absurd (listKnown_of_mem ht) hl
  · exact absurd (valueKnown_of_application? hx) hv

/-- Numbering a list of known types. -/
theorem internList (h : s.Canonical) {types : List TypeId} (htypes : ∀ t ∈ types, s.Known t) :
    s.Grows { s with types := (s.types.internList types).2 } := by
  have hext := s.extends_internList types
  refine ⟨h.of_extends hext (fun t k hk hnone => ?_) (fun l hl t ht => ?_) (fun v x hx hv => ?_)
    h.application_iff, hext⟩
  · exact absurd (hnone.symm.trans hk) (by simp)
  · -- a list that was not there is the one that came
    obtain ⟨ts, hts⟩ := Option.isSome_iff_exists.1 (listKnown_of_mem ht)
    rcases Registry.get?_intern_cases hts with hold | ⟨_, rfl⟩
    · exact absurd (Option.isSome_iff_exists.2 ⟨ts, hold⟩) hl
    · have hlist : t ∈ ts := by simpa [TypeStore.list, hts] using ht
      exact htypes t hlist
  · exact absurd (valueKnown_of_application? hx) hv

/-! ## Values -/

/-- Changing values without touching the constructed classes. -/
theorem withValues (h : s.Canonical) {values : ValueStore} (hvalues : s.values.Keeps values) :
    s.Grows { s with values } := by
  have hext : Extends s { s with values } :=
    ⟨fun t k hk => hk, fun l _ => rfl, fun l hl => hl, hvalues.known,
      fun v _ => hvalues.application v⟩
  refine ⟨h.of_extends hext (fun t k hk hnone => ?_) (fun l hl t ht => ?_) (fun v x hx hv => ?_)
    (fun v x => ?_), hext⟩
  · exact absurd (hnone.symm.trans hk) (by simp)
  · exact absurd (listKnown_of_mem ht) hl
  · rw [hvalues.application] at hx
    exact absurd (valueKnown_of_application? hx) hv
  · rw [hvalues.application, hvalues.applications]
    exact h.application_iff v x

/-- Applying a known class to a known list. -/
theorem newConstructedClass (h : s.Canonical) (node : NodeRef) {generic : ValueId}
    {arguments : ListId} (hgeneric : s.ValueKnown generic) (harguments : s.ListKnown arguments) :
    s.Grows { s with values := (s.values.newConstructedClass node generic arguments).2 } := by
  unfold ValueStore.newConstructedClass
  split
  · exact .refl h
  next hnone =>
  let value : Value := { node, data := .constructedClass { generic, arguments } }
  let new := (s.values.alloc value).1
  let s' : Store := { s with values :=
    { (s.values.alloc value).2 with
      applications := s.values.applications.insert ⟨generic, arguments⟩ new } }
  show s.Grows s'
  have hget (v : ValueId) : s'.values.get? v = if v = new then some value else s.values.get? v :=
    s.values.get?_alloc value v
  have hfresh {v : ValueId} (hv : s.ValueKnown v) : v ≠ new := by
    intro heq
    have hlt := hv.lt
    rw [heq] at hlt
    exact Nat.lt_irrefl _ hlt
  have happ (v : ValueId) :
      s'.values.application? v = if v = new then some ⟨generic, arguments⟩
        else s.values.application? v := by
    simp only [ValueStore.application?, ValueStore.constructed?, hget]
    split <;> rfl
  have hext : Extends s s' := by
    refine ⟨fun t k hk => hk, fun l _ => rfl, fun l hl => hl, fun v hv => ?_, fun v hv => ?_⟩
    · simpa only [ValueKnown, hget, if_neg (hfresh hv)] using hv
    · rw [happ, if_neg (hfresh hv)]
  refine ⟨h.of_extends hext (fun t k hk hnew => ?_) (fun l hl t ht => ?_) (fun v x hx hv => ?_)
    (fun v x => ?_), hext⟩
  · exact absurd (hnew.symm.trans hk) (by simp)
  · exact absurd (listKnown_of_mem ht) hl
  · rw [happ] at hx
    split at hx
    · next heq =>
      obtain rfl : ⟨generic, arguments⟩ = x := Option.some.inj hx
      exact ⟨heq ▸ hgeneric.lt, hext.valueKnown _ hgeneric, harguments⟩
    · exact absurd (valueKnown_of_application? hx) hv
  · rw [happ, Std.TreeMap.getElem?_insert]
    by_cases hx : (⟨generic, arguments⟩ : Application) = x
    · -- the application was not there, so no other value has it
      subst hx
      have hother : s.values.application? v ≠ some ⟨generic, arguments⟩ := by
        intro hold
        simp [(h.application_iff v _).2 hold] at hnone
      by_cases hv : v = new
      · simp [hv]
      · simp [hv, hother, Ne.symm hv]
    · have hcmp : compare (⟨generic, arguments⟩ : Application) x ≠ .eq :=
        fun hc => hx (Std.LawfulEqOrd.eq_of_compare hc)
      rw [if_neg hcmp, h.application_iff]
      by_cases hv : v = new
      · have hold : s.values.application? new ≠ some x := by
          intro hold
          exact hfresh (valueKnown_of_application? hold) rfl
        simp [hv, hold, hx]
      · rw [if_neg hv]

end Canonical

end Store

end DocTypes
