import DocTypes.Registry
import DocTypes.Types.Key

/-!
# The type store

`TypeStore.intern` gives a key its number: the one it has already, or the next free one.
Lists of types and signatures of functions are numbered in the same way, each in a `Registry`.
Nothing is ever removed, so a number keeps its meaning.

The key of a function is stored with the number of its signature (`TypeStore.file`), and
`TypeStore.key?` reads the signature back. The store carries the proof that every such number
names a signature.

A union is brought into normal form before it gets its key: unions inside it are
replaced by their members, the members are sorted and each kept once, `*` swallows all
others, the empty union is dropped, and a single member is the union. A record keeps its
fields in the order of their labels, and the first field of a label.

## Main statements

* `TypeStore.key?_intern`: an interned key is read back.
* `TypeStore.key?_intern_of_some`: interning changes no key that is there.
* `TypeStore.mem_sortedSet`, `TypeStore.sortedSet_pairwise`: the members of a union are
  exactly those given, in strictly increasing order.
-/

namespace DocTypes

/-- The types of one run. -/
structure TypeStore where
  /-- The keys of the interned types, in the order of their numbers. -/
  keys : Registry StoredKey
  /-- The signatures of functions, in the order of their numbers. -/
  shapes : Registry FunctionShape
  /-- The interned lists, in the order of their numbers. -/
  lists : Registry (List TypeId)
  /-- What aliases stand for, the latest entry first. -/
  aliasTargets : List (TypeId × TypeId)
  /-- The number of a signature in a key names a signature. -/
  shapes_known : ∀ i shape, keys.get? i = some (.function shape) → (shapes.get? shape.index).isSome

namespace TypeStore

/-- No interned types, no signatures, and the empty list as the only list. -/
def new : TypeStore where
  keys := .empty
  shapes := .empty
  lists := Registry.empty.insert []
  aliasTargets := []
  shapes_known i shape h := by simp [Registry.empty, Registry.get?] at h

/-- How many types are interned. -/
def size (s : TypeStore) : Nat := s.keys.size

/-- A signature by number. -/
def shape? (s : TypeStore) (shape : ShapeId) : Option FunctionShape := s.shapes.get? shape.index

/-- The key that is stored for an interned type. -/
def storedKey? (s : TypeStore) (t : TypeId) : Option StoredKey :=
  s.keys.get? (t.index - TypeId.firstInterned)

/-- What a stored key says. -/
def read? (s : TypeStore) : StoredKey → Option TypeKey
  | .function shape => (s.shape? shape).map .function
  | .other key _ => some key

/-- The key of a type. -/
def key? (s : TypeStore) (t : TypeId) : Option TypeKey :=
  if t.isIntrinsic then TypeKey.intrinsics[t.index]? else (s.storedKey? t).bind s.read?

/-- The number of a signature, which is the next free one if the signature is new. -/
def internShape (s : TypeStore) (shape : FunctionShape) : ShapeId × TypeStore :=
  let interned := s.shapes.intern shape
  (⟨interned.1⟩,
    { s with
      shapes := interned.2
      shapes_known := fun i known h => by
        obtain ⟨_, hold⟩ := Option.isSome_iff_exists.1 (s.shapes_known i known h)
        exact Option.isSome_of_eq_some (Registry.get?_intern_of_some shape hold) })

/-- A key as it is stored, once its signature has a number. -/
def file (s : TypeStore) (key : TypeKey) : StoredKey × TypeStore :=
  match h : key.shape? with
  | some shape => (.function (s.internShape shape).1, (s.internShape shape).2)
  | none => (.other key h, s)

theorem read?_file (s : TypeStore) (key : TypeKey) :
    (s.file key).2.read? (s.file key).1 = some key := by
  unfold file
  split
  · next shape h =>
    rw [TypeKey.shape?_eq_some_iff.1 h]
    exact congrArg (·.map TypeKey.function) (Registry.get?_intern s.shapes shape)
  · rfl

/-- The number of a stored key whose signature is there. -/
def enter (s : TypeStore) (stored : StoredKey) (h : (s.read? stored).isSome) : TypeId × TypeStore :=
  let interned := s.keys.intern stored
  (⟨TypeId.firstInterned + interned.1⟩,
    { s with
      keys := interned.2
      shapes_known := fun i shape hi => by
        rcases Registry.get?_intern_cases hi with hold | ⟨-, rfl⟩
        · exact s.shapes_known i shape hold
        · exact (Option.isSome_map ..).symm.trans h })

/-- The number of a key, which is the next free one if the key is new. -/
def intern (s : TypeStore) (key : TypeKey) : TypeId × TypeStore :=
  match key.intrinsic? with
  | some t => (t, s)
  | none => (s.file key).2.enter (s.file key).1 (Option.isSome_of_eq_some (s.read?_file key))

/-- The number of a list of types. -/
def internList (s : TypeStore) (types : List TypeId) : ListId × TypeStore :=
  let (i, lists) := s.lists.intern types
  (⟨i⟩, { s with lists })

/-- The types of a list. -/
def list (s : TypeStore) (l : ListId) : List TypeId := (s.lists.get? l.index).getD []

/-! ## Types of one part -/

/-- The type of a class's instances. -/
def instanceOf (s : TypeStore) (cls : ValueId) : TypeId × TypeStore := s.intern (.instanceOf cls)

/-- The type of a constructed class's instances. -/
def constructedInstanceOf (s : TypeStore) (cls : ValueId) : TypeId × TypeStore :=
  s.intern (.constructedInstanceOf cls)

/-- The type of functions with a signature. -/
def function (s : TypeStore) (shape : FunctionShape) : TypeId × TypeStore :=
  s.intern (.function shape)

/-- A labelled type. -/
def labeled (s : TypeStore) (label : Atom) (type : TypeId) : TypeId × TypeStore :=
  s.intern (.labeled label type)

/-- The type parameter declared at a node. -/
def parameter (s : TypeStore) (name : Atom) (node : NodeRef) : TypeId × TypeStore :=
  s.intern (.parameter name node)

/-- The alias declared by a tag. -/
def aliasOf (s : TypeStore) (name : Atom) (tag : NodeRef) : TypeId × TypeStore :=
  s.intern (.aliasOf name tag)

/-- The type named by a value that is no class. -/
def reference (s : TypeStore) (value : ValueId) : TypeId × TypeStore := s.intern (.reference value)

/-- A tuple. -/
def tuple (s : TypeStore) (elements : List TypeId) : TypeId × TypeStore :=
  let (l, s) := s.internList elements
  s.intern (.tuple l)

/-! ## Unions -/

/-- Insert a type into a strictly increasing list, unless it is there. -/
def insertSorted (t : TypeId) : List TypeId → List TypeId
  | [] => [t]
  | u :: rest =>
    if t.index < u.index then t :: u :: rest
    else if t.index = u.index then u :: rest
    else u :: insertSorted t rest

/-- The types of a list, each once, in increasing order. -/
def sortedSet (types : List TypeId) : List TypeId := types.foldr insertSorted []

/-- The members of a union; any other type is its own only member. -/
def members (s : TypeStore) (t : TypeId) : List TypeId :=
  match s.key? t with
  | some (.union l) => s.list l
  | _ => [t]

/-- The union of types none of which is a union. -/
def normalUnion (s : TypeStore) (flat : List TypeId) : TypeId × TypeStore :=
  let set := sortedSet flat
  if TypeId.any ∈ set then (.any, s)
  else match set.filter (· ≠ TypeId.nil) with
    | [] => (.nil, s)
    | [t] => (t, s)
    | several =>
      let (l, s) := s.internList several
      s.intern (.union l)

/-- The union of types. -/
def union (s : TypeStore) (types : List TypeId) : TypeId × TypeStore :=
  s.normalUnion (types.flatMap s.members)

/-- Whether a type is a member of another. -/
def hasMember (s : TypeStore) (t m : TypeId) : Bool := (s.members t).contains m

/-- A type without one of its members. -/
def removeMember (s : TypeStore) (t m : TypeId) : TypeId × TypeStore :=
  s.normalUnion ((s.members t).filter (· ≠ m))

/-! ## Records -/

/-- Insert a field into a list of fields in increasing order of labels, unless there is one
of its label. -/
def insertField (field : Atom × TypeId) : List (Atom × TypeId) → List (Atom × TypeId)
  | [] => [field]
  | other :: rest =>
    if field.1.index < other.1.index then field :: other :: rest
    else if field.1.index = other.1.index then other :: rest
    else other :: insertField field rest

/-- The first field of each label, in the order of labels. -/
def sortedFields (fields : List (Atom × TypeId)) : List (Atom × TypeId) :=
  fields.foldl (fun sorted field => insertField field sorted) []

/-- Number the labelled types of fields, from the left. -/
def labelAll (s : TypeStore) : List (Atom × TypeId) → List TypeId × TypeStore
  | [] => ([], s)
  | (label, type) :: rest =>
    let (t, s) := s.labeled label type
    let (ts, s) := s.labelAll rest
    (t :: ts, s)

/-- The record with the given fields. -/
def record (s : TypeStore) (fields : List (Atom × TypeId)) : TypeId × TypeStore :=
  let (fields, s) := s.labelAll (sortedFields fields)
  let (l, s) := s.internList fields
  s.intern (.record l)

/-! ## Aliases -/

/-- Note what an alias stands for. -/
def setAliasTarget (s : TypeStore) (t target : TypeId) : TypeStore :=
  { s with aliasTargets := (t, target) :: s.aliasTargets }

/-- What an alias stands for, once that is known. -/
def aliasTarget? (s : TypeStore) (t : TypeId) : Option TypeId := s.aliasTargets.lookup t

/-- The interned types, in the order of their numbers. -/
def interned (s : TypeStore) : List TypeId :=
  (List.range s.size).map fun i => ⟨TypeId.firstInterned + i⟩

/-- The aliases, in the order of their numbers. -/
def aliases (s : TypeStore) : List TypeId :=
  s.interned.filter fun t =>
    match s.key? t with
    | some (.aliasOf _ _) => true
    | _ => false

/-! ## Reading back -/

theorem isIntrinsic_interned (i : Nat) :
    TypeId.isIntrinsic ⟨TypeId.firstInterned + i⟩ = false := by
  simp only [TypeId.isIntrinsic, decide_eq_false_iff_not]
  omega

/-- Numbering a signature adds nothing else. -/
theorem file_still (s : TypeStore) (key : TypeKey) :
    (s.file key).2.keys = s.keys ∧ (s.file key).2.lists = s.lists ∧
      (s.file key).2.aliasTargets = s.aliasTargets := by
  unfold file
  split <;> exact ⟨rfl, rfl, rfl⟩

/-- What is stored for a type can be read. -/
theorem isSome_read? {s : TypeStore} {t : TypeId} {stored : StoredKey}
    (h : s.storedKey? t = some stored) : (s.read? stored).isSome := by
  cases stored with
  | function shape => exact (Option.isSome_map ..).trans (s.shapes_known _ shape h)
  | other key plain => rfl

/-- A key is stored in one way. -/
theorem eq_of_read?_eq {s : TypeStore} {stored stored' : StoredKey} {key : TypeKey}
    (h : s.read? stored = some key) (h' : s.read? stored' = some key) : stored = stored' := by
  have hfunction {id : ShapeId} (hid : s.read? (.function id) = some key) : key.shape?.isSome := by
    obtain ⟨shape, -, rfl⟩ := Option.map_eq_some_iff.1 hid
    rfl
  cases stored with
  | function x =>
    cases stored' with
    | function y =>
      obtain ⟨shape, hx, rfl⟩ := Option.map_eq_some_iff.1 h
      obtain ⟨_, hy, heq⟩ := Option.map_eq_some_iff.1 h'
      cases heq
      have hindex : x.index = y.index := Registry.eq_of_get?_eq hx hy
      cases x
      cases y
      simpa using hindex
    | other other plain =>
      cases h'
      have hsome := hfunction h
      rw [plain] at hsome
      cases hsome
  | other other plain =>
    cases h
    cases stored' with
    | function y =>
      have hsome := hfunction h'
      rw [plain] at hsome
      cases hsome
    | other =>
      cases h'
      rfl

/-- Numbering a signature changes nothing that could be read. -/
theorem read?_file_of_some {s : TypeStore} {stored : StoredKey} {k : TypeKey} (key : TypeKey)
    (h : s.read? stored = some k) : (s.file key).2.read? stored = some k := by
  cases stored with
  | other => exact h
  | function id =>
    obtain ⟨old, hold, rfl⟩ := Option.map_eq_some_iff.1 h
    unfold file
    split
    · next shape _ =>
      exact congrArg (·.map TypeKey.function) (Registry.get?_intern_of_some shape hold)
    · exact h

theorem storedKey?_interned (s : TypeStore) (i : Nat) :
    s.storedKey? ⟨TypeId.firstInterned + i⟩ = s.keys.get? i := by
  rw [storedKey?, Nat.add_sub_cancel_left]

/-- An interned key is read back. -/
theorem key?_intern (s : TypeStore) (key : TypeKey) :
    (s.intern key).2.key? (s.intern key).1 = some key := by
  unfold intern
  split
  · next t h =>
    have hk := TypeKey.intrinsics_getElem?_of_intrinsic? h
    have hlt : t.index < TypeId.firstInterned := by
      have := (List.getElem?_eq_some_iff.1 hk).1
      simp only [TypeKey.intrinsics, List.length_cons, List.length_nil] at this
      simp only [TypeId.firstInterned]
      omega
    simp [key?, TypeId.isIntrinsic, hlt, hk]
  · have hstored : ((s.file key).2.keys.intern (s.file key).1).2.get?
        ((s.file key).2.keys.intern (s.file key).1).1 = some (s.file key).1 :=
      Registry.get?_intern _ _
    rw [enter, key?, isIntrinsic_interned, if_neg Bool.false_ne_true, storedKey?_interned, hstored]
    exact s.read?_file key

/-- Interning changes no key that is there. -/
theorem key?_intern_of_some {s : TypeStore} {t : TypeId} {k : TypeKey} (key : TypeKey)
    (h : s.key? t = some k) : (s.intern key).2.key? t = some k := by
  unfold intern
  split
  · exact h
  · simp only [key?] at h ⊢
    split
    · next hi => simpa [hi] using h
    · next hi =>
      rw [if_neg hi] at h
      obtain ⟨stored, hstored, hread⟩ := Option.bind_eq_some_iff.1 h
      refine Option.bind_eq_some_iff.2 ⟨stored, ?_, read?_file_of_some key hread⟩
      exact Registry.get?_intern_of_some _ ((s.file_still key).1.symm ▸ hstored)

/-- What has a key after interning had it before, or is the next free number with the key
that was interned. -/
theorem key?_intern_cases {s : TypeStore} {t : TypeId} {k key : TypeKey}
    (h : (s.intern key).2.key? t = some k) :
    s.key? t = some k ∨
      (t.index = TypeId.firstInterned + s.size ∧ k = key ∧ key.intrinsic? = none) := by
  unfold intern at h
  split at h
  · exact .inl h
  · next hnone =>
    simp only [key?] at h ⊢
    split
    · next hi => exact .inl (by simpa [hi] using h)
    · next hi =>
      rw [if_neg hi] at h
      obtain ⟨stored, hstored, hread⟩ := Option.bind_eq_some_iff.1 h
      have hkeys := (s.file_still key).1
      rcases Registry.get?_intern_cases hstored with hold | ⟨hindex, rfl⟩
      · rw [hkeys] at hold
        -- what could be read before still says the same
        obtain ⟨old, hbefore⟩ := Option.isSome_iff_exists.1 (isSome_read? hold)
        have hsame := (read?_file_of_some key hbefore).symm.trans hread
        exact .inl (Option.bind_eq_some_iff.2 ⟨stored, hold, hbefore.trans hsame⟩)
      · refine .inr ⟨?_, Option.some.inj (hread.symm.trans (s.read?_file key)), hnone⟩
        simp only [TypeId.isIntrinsic, decide_eq_true_eq] at hi
        rw [hkeys] at hindex
        simp only [size]
        omega

/-- Interning a key changes no list. -/
theorem lists_intern (s : TypeStore) (key : TypeKey) : (s.intern key).2.lists = s.lists := by
  unfold intern
  split
  · rfl
  · exact (s.file_still key).2.1

/-- Interning a key changes nothing in what aliases stand for. -/
theorem aliasTargets_intern (s : TypeStore) (key : TypeKey) :
    (s.intern key).2.aliasTargets = s.aliasTargets := by
  unfold intern
  split
  · rfl
  · exact (s.file_still key).2.2

/-- The types of a list that is numbered are read back. -/
theorem list_internList (s : TypeStore) (types : List TypeId) :
    (s.internList types).2.list (s.internList types).1 = types := by
  simp [internList, list, Registry.get?_intern]

/-- Numbering a list changes no list that is there. -/
theorem list_internList_of_some {s : TypeStore} {l : ListId} (types : List TypeId)
    (h : (s.lists.get? l.index).isSome) : (s.internList types).2.list l = s.list l := by
  obtain ⟨ts, hts⟩ := Option.isSome_iff_exists.1 h
  simp only [internList, list, Registry.get?_intern_of_some types hts, hts]

theorem mem_insertSorted {t u : TypeId} {types : List TypeId} :
    u ∈ insertSorted t types ↔ u = t ∨ u ∈ types := by
  induction types with
  | nil => simp [insertSorted]
  | cons v rest ih =>
    unfold insertSorted
    split
    · simp
    · split
      · next heq =>
        have : t = v := by cases t; cases v; simpa using heq
        simp [this]
      · simp only [List.mem_cons, ih]
        exact ⟨fun h => by rcases h with h | h | h <;> simp [h],
          fun h => by rcases h with h | h | h <;> simp [h]⟩

/-- The members of a sorted set are those of the list. -/
theorem mem_sortedSet {t : TypeId} {types : List TypeId} : t ∈ sortedSet types ↔ t ∈ types := by
  induction types with
  | nil => simp [sortedSet]
  | cons u rest ih =>
    simp only [sortedSet, List.foldr_cons, mem_insertSorted, List.mem_cons] at ih ⊢
    rw [ih]

theorem pairwise_insertSorted {t : TypeId} {types : List TypeId}
    (h : types.Pairwise (·.index < ·.index)) :
    (insertSorted t types).Pairwise (·.index < ·.index) := by
  induction types with
  | nil => simp [insertSorted]
  | cons u rest ih =>
    rw [List.pairwise_cons] at h
    unfold insertSorted
    split
    · next hlt =>
      refine List.pairwise_cons.2 ⟨fun v hv => ?_, List.pairwise_cons.2 h⟩
      rcases List.mem_cons.1 hv with rfl | hv
      · exact hlt
      · exact Nat.lt_trans hlt (h.1 v hv)
    · split
      · exact List.pairwise_cons.2 h
      · refine List.pairwise_cons.2 ⟨fun v hv => ?_, ih h.2⟩
        rcases mem_insertSorted.1 hv with rfl | hv
        · omega
        · exact h.1 v hv

/-- A sorted set is strictly increasing. -/
theorem sortedSet_pairwise (types : List TypeId) :
    (sortedSet types).Pairwise (·.index < ·.index) := by
  induction types with
  | nil => simp [sortedSet]
  | cons u rest ih => exact pairwise_insertSorted ih

end TypeStore

end DocTypes
