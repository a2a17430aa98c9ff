import DocTypes.Comment.Compile
import Mathlib.Data.List.Induction
import Mathlib.Data.List.Nodup

/-!
# The account of a comment

Every tag of a comment plays one role (`TagRole`), and its name and the tags before it decide which.
The roles decide what is kept of the comment (`DocComment.Accounts`) and what the scan of its tags
reports (`DocComment.scanProblems`): a role that loses a tag reports it once, and no other role
reports anything, apart from the names of a `@template` tag, each of which is new or reported.

The scan looks at the tags from the left and has only what it kept so far to go by. That what it
kept is the account of the tags it has seen is an invariant of its steps (`Accounts.scanTag`).

## Main statements

* `DocComment.compile_eq`: compiling adds to a sink the problems of the scan, then those of the tags
  that do not fit the kind or the declaration, and the sink makes no difference to what is kept.
* `DocComment.Accounts.foldl_scanTag`: the scan keeps what the account says.
* `DocComment.compile_accounts`: a compiled comment and its reports.
-/

namespace DocTypes

/-! ## Items and those before them -/

section Past

variable {α κ : Type}

/-- Each item of a list, with the items before it. -/
def withPast (past : List α) : List α → List (List α × α)
  | [] => []
  | x :: xs => (past, x) :: withPast (past ++ [x]) xs

theorem withPast_append (past xs ys : List α) :
    withPast past (xs ++ ys) = withPast past xs ++ withPast (past ++ xs) ys := by
  induction xs generalizing past with
  | nil => simp [withPast]
  | cons x xs ih => simp [withPast, ih]

/-- The last item comes after all others. -/
@[simp] theorem withPast_concat (xs : List α) (x : α) :
    withPast [] (xs ++ [x]) = withPast [] xs ++ [(xs, x)] := by
  rw [withPast_append]
  rfl

/-- The items that are accepted after those before them, in order. -/
def pick (accept : List α → α → Bool) (past xs : List α) : List α :=
  ((withPast past xs).filter fun p => accept p.1 p.2).map (·.2)

section Pick

variable (accept : List α → α → Bool)

theorem pick_append (past xs ys : List α) :
    pick accept past (xs ++ ys) = pick accept past xs ++ pick accept (past ++ xs) ys := by
  rw [pick, withPast_append, List.filter_append, List.map_append, pick, pick]

@[simp] theorem pick_nil (past : List α) : pick accept past [] = [] := rfl

@[simp] theorem pick_singleton (past : List α) (x : α) :
    pick accept past [x] = if accept past x then [x] else [] := by
  rw [pick, withPast, withPast, List.filter_cons, List.filter_nil]
  split <;> rfl

theorem pick_concat (xs : List α) (x : α) : pick accept [] (xs ++ [x]) =
    pick accept [] xs ++ if accept xs x then [x] else [] := by
  rw [pick_append, List.nil_append, pick_singleton]

theorem pick_cons (past : List α) (x : α) (xs : List α) : pick accept past (x :: xs) =
    (if accept past x then [x] else []) ++ pick accept (past ++ [x]) xs := by
  rw [← List.singleton_append, pick_append, pick_singleton]

end Pick

variable [DecidableEq κ] (key : α → κ)

/-- The items whose key no earlier item has, in order. -/
def firstsBy (past xs : List α) : List α := pick (fun past x => key x ∉ past.map key) past xs

/-- The items whose key an earlier item has, in order. -/
def repeatsBy (past xs : List α) : List α := pick (fun past x => key x ∈ past.map key) past xs

theorem firstsBy_concat (xs : List α) (x : α) :
    firstsBy key [] (xs ++ [x]) = firstsBy key [] xs ++ if key x ∈ xs.map key then [] else [x] := by
  rw [firstsBy, pick_concat, ← firstsBy]
  by_cases h : key x ∈ xs.map key
  · rw [if_pos h, if_neg (by simpa using h)]
  · rw [if_neg h, if_pos (by simpa using h)]

theorem repeatsBy_cons (past xs : List α) (x : α) : repeatsBy key past (x :: xs) =
    (if key x ∈ past.map key then [x] else []) ++ repeatsBy key (past ++ [x]) xs := by
  rw [repeatsBy, pick_cons, ← repeatsBy]
  simp only [decide_eq_true_eq]

theorem repeatsBy_append (past xs ys : List α) :
    repeatsBy key past (xs ++ ys) = repeatsBy key past xs ++ repeatsBy key (past ++ xs) ys :=
  pick_append _ past xs ys

/-- Every key is that of a first item. -/
theorem mem_map_firstsBy {xs : List α} {k : κ} :
    k ∈ (firstsBy key [] xs).map key ↔ k ∈ xs.map key := by
  induction xs using List.reverseRecOn with
  | nil => rfl
  | append_singleton xs x ih =>
    rw [firstsBy_concat, List.map_append, List.mem_append, ih, List.map_append, List.mem_append]
    refine or_congr_right' fun hk => ?_
    split
    · next hx =>
      refine iff_of_false (List.not_mem_nil) fun hkx => hk ?_
      simp only [List.map_cons, List.map_nil, List.mem_singleton] at hkx
      exact hkx ▸ hx
    · rfl

end Past

/-! ## Roles -/

/-- What becomes of a tag. -/
inductive TagRole where
  /-- Its name is not known. -/
  | unknown
  | ignored
  /-- It is the first tag for a slot. -/
  | occupant (slot : TagSlot)
  /-- It comes after the first tag for its slot. -/
  | later (slot : TagSlot)
  | extending
  | implementing
  | parameter
  /-- It is a `@param` for a name that an earlier one is kept for. -/
  | laterParameter
  | template
  deriving DecidableEq, Repr

namespace Arena

variable (a : Arena)

/-- How a tag is treated. -/
def tagClass? (tag : Nat) : Option TagClass := TagClass.ofName? (a.text (some tag))

/-- The name that a `@param` tag is for. -/
def documentedName (tag : Nat) : Atom := a.atom (a.nameOperand (some tag))

/-- A name that a `@template` tag lists. -/
def listedName (name : Nat) : Atom := a.atom (some name)

/-- Whether a tag is for a slot. -/
def fills (slot : TagSlot) (tag : Nat) : Bool := a.tagClass? tag == some (.once slot)

/-- Whether a tag is a `@param` for a name. -/
def documents (name : Atom) (tag : Nat) : Bool :=
  a.tagClass? tag == some .paramTag && a.documentedName tag == name

/-- The role of a tag after those before it. -/
def role (before : List Nat) (tag : Nat) : TagRole :=
  match a.tagClass? tag with
  | none => .unknown
  | some .ignored => .ignored
  | some (.once slot) => if before.any (a.fills slot) then .later slot else .occupant slot
  | some .extendsTag => .extending
  | some .implementsTag => .implementing
  | some .paramTag =>
    if !(a.documentedName tag).isEmpty && before.any (a.documents (a.documentedName tag)) then
      .laterParameter
    else .parameter
  | some .templateTag => .template

/-- The tags that play a role, in order. -/
def playing (role : TagRole) (tags : List Nat) : List Nat :=
  pick (fun before tag => a.role before tag = role) [] tags

theorem playing_concat (role : TagRole) (tags : List Nat) (tag : Nat) :
    a.playing role (tags ++ [tag]) =
      a.playing role tags ++ if a.role tags tag = role then [tag] else [] := by
  rw [playing, pick_concat, ← playing]
  simp only [decide_eq_true_eq]

/-- The names that the `@template` tags list, in order. -/
def templateNames (tags : List Nat) : List Nat :=
  (a.playing .template tags).flatMap fun tag => a.nameOperands (some tag)

theorem templateNames_concat (tags : List Nat) (tag : Nat) :
    a.templateNames (tags ++ [tag]) = a.templateNames tags ++
      if a.role tags tag = .template then a.nameOperands (some tag) else [] := by
  rw [templateNames, playing_concat, List.flatMap_append, ← templateNames]
  split
  · rw [List.flatMap_singleton]
  · rfl

theorem role_eq_occupant_iff {before : List Nat} {tag : Nat} {slot : TagSlot} :
    a.role before tag = .occupant slot ↔
      a.fills slot tag = true ∧ before.find? (a.fills slot) = none := by
  rw [List.find?_eq_none, fills, beq_iff_eq]
  unfold role
  split
  case h_3 slot' h =>
    rw [h, Option.some.injEq, TagClass.once.injEq]
    by_cases hslot : slot' = slot
    · subst hslot
      simp only [true_and, List.any_eq_true, ite_eq_right_iff, reduceCtorEq, imp_false, not_exists,
        not_and]
    · simp only [hslot, false_and, iff_false]
      split
      · exact TagRole.noConfusion
      · exact fun hocc => hslot (TagRole.occupant.inj hocc)
  case h_6 h =>
    rw [h]
    split <;> simp
  all_goals next h => simp [h]

/-- A `@param` is kept unless an earlier one is for its name. -/
theorem role_eq_parameter_iff {before : List Nat} {tag : Nat} :
    a.role before tag = .parameter ↔ a.tagClass? tag = some .paramTag ∧
      ¬ ((a.documentedName tag).isEmpty = false ∧
        ∃ other ∈ before, a.documents (a.documentedName tag) other = true) := by
  unfold role
  split
  case h_6 h => simp [h]
  case h_3 h =>
    rw [h]
    split <;> simp
  all_goals next h => simp [h]

theorem role_eq_laterParameter_iff {before : List Nat} {tag : Nat} :
    a.role before tag = .laterParameter ↔ a.tagClass? tag = some .paramTag ∧
      (a.documentedName tag).isEmpty = false ∧
        ∃ other ∈ before, a.documents (a.documentedName tag) other = true := by
  unfold role
  split
  case h_6 h => simp [h]
  case h_3 h =>
    rw [h]
    split <;> simp
  all_goals next h => simp [h]

/-- The occupant of a slot is the first tag for it. -/
theorem playing_occupant (slot : TagSlot) (tags : List Nat) :
    a.playing (.occupant slot) tags = (tags.find? (a.fills slot)).toList := by
  induction tags using List.reverseRecOn with
  | nil => rfl
  | append_singleton tags tag ih =>
    rw [playing_concat, ih, List.find?_append]
    simp only [a.role_eq_occupant_iff]
    cases tags.find? (a.fills slot) <;> cases h : a.fills slot tag <;> simp [h]

theorem find?_fills_concat (slot : TagSlot) (tags : List Nat) (tag : Nat) :
    (tags ++ [tag]).find? (a.fills slot) =
      if a.role tags tag = .occupant slot then some tag else tags.find? (a.fills slot) := by
  simp only [List.find?_append, a.role_eq_occupant_iff]
  cases tags.find? (a.fills slot) <;> cases h : a.fills slot tag <;> simp [h]

/-- A name that a `@param` is for has one that is kept. -/
theorem exists_parameter_iff {name : Atom} (hname : name.isEmpty = false) {tags : List Nat} :
    (∃ tag ∈ a.playing .parameter tags, a.documentedName tag = name) ↔
      ∃ tag ∈ tags, a.documents name tag = true := by
  induction tags using List.reverseRecOn with
  | nil => simp [playing]
  | append_singleton tags tag ih =>
    simp only [playing_concat, List.mem_append, or_and_right, exists_or, ih, List.mem_singleton,
      exists_eq_left]
    refine or_congr_right' fun hnone => ?_
    simp only [List.mem_ite_nil_right, List.mem_singleton]
    constructor
    · rintro ⟨_, ⟨hrole, rfl⟩, rfl⟩
      simp [documents, (a.role_eq_parameter_iff.1 hrole).1]
    · intro hdoc
      simp only [documents, Bool.and_eq_true, beq_iff_eq] at hdoc
      obtain ⟨hclass, rfl⟩ := hdoc
      exact ⟨tag, ⟨a.role_eq_parameter_iff.2 ⟨hclass, fun h => hnone h.2⟩, rfl⟩, rfl⟩

end Arena

/-! ## Reports -/

/-- Report problems in order. -/
def Sink.reportAll (sink : Sink) (ds : List Diagnostic) : Sink := sink.map (· ++ ds.toArray)

@[simp] theorem Sink.reportAll_nil (sink : Sink) : sink.reportAll [] = sink := by
  cases sink <;> simp [Sink.reportAll]

@[simp] theorem Sink.reportAll_reportAll (sink : Sink) (ds ds' : List Diagnostic) :
    (sink.reportAll ds).reportAll ds' = sink.reportAll (ds ++ ds') := by
  cases sink <;> simp [Sink.reportAll]

namespace DocComment

variable (a : Arena)

/-- A problem at a node. -/
def problemAt (problem : Problem) (node : NodeRef) : Diagnostic := { problem, span := a.span node }

/-- A problem at each of a list of nodes. -/
def problemsAt (problem : Problem) (nodes : List Nat) : List Diagnostic :=
  nodes.map fun node => problemAt a problem (some node)

/-- What the scan reports for a tag after those before it. -/
def problemsOf (before : List Nat) (tag : Nat) : List Diagnostic :=
  match a.role before tag with
  | .unknown => [problemAt a .unknownTag (some tag)]
  | .later _ => [problemAt a .repeatedTag (some tag)]
  | .laterParameter => [problemAt a .repeatedParameter (some tag)]
  | .template => problemsAt a .repeatedTypeParameter
      (repeatsBy a.listedName (a.templateNames before) (a.nameOperands (some tag)))
  | .ignored | .occupant _ | .extending | .implementing | .parameter => []

/-- What the scan reports for the tags of a comment. -/
def scanProblems (tags : List Nat) : List Diagnostic :=
  (withPast [] tags).flatMap fun p => problemsOf a p.1 p.2

/-- What is reported for the tags that do not fit the kind or the declaration. -/
def validation (x : DocComment) (declaring : List Nat) : List Diagnostic :=
  problemsAt a .unexpectedTag declaring.tail
    ++ (if x.has .access && !(a.targetKind x.target).isPropertyLike then
        [problemAt a .unexpectedVisibility (x.tag .access)] else [])
    ++ (if x.kind.isClass then problemsAt a .repeatedTag x.extendsTags.tail
        else problemsAt a .unexpectedTag x.extendsTags)
    ++ (if x.kind == .constructor then [] else problemsAt a .unexpectedTag x.implementsTags)
    ++ (if x.kind == .interface || x.kind == .enum then
        problemsAt a .unexpectedTag x.paramTags
          ++ if x.has .returnTag then [problemAt a .unexpectedTag (x.tag .returnTag)] else []
        else [])
    ++ (if x.kind == .constructor || x.kind == .interface || x.kind == .function then []
        else problemsAt a .unexpectedTag x.templateTags)

theorem flag_eq (problem : Problem) (node : NodeRef) (sink : Sink) :
    flag a problem node sink = sink.reportAll [problemAt a problem node] := by
  cases sink <;> simp [flag, Sink.report, Sink.reportAll, problemAt]

theorem flagAll_eq (problem : Problem) (nodes : List Nat) (sink : Sink) :
    flagAll a problem nodes sink = sink.reportAll (problemsAt a problem nodes) := by
  induction nodes generalizing sink with
  | nil => simp [flagAll, problemsAt]
  | cons node nodes ih =>
    rw [flagAll, List.foldl_cons, ← flagAll, ih, flag_eq, Sink.reportAll_reportAll]
    rfl

theorem validate_eq (x : DocComment) (declaring : List Nat) (sink : Sink) :
    validate a x declaring sink = sink.reportAll (validation a x declaring) := by
  have hite (c : Bool) (sink : Sink) (ds ds' : List Diagnostic) :
      sink.reportAll (if c then ds else ds') =
        if c then sink.reportAll ds else sink.reportAll ds' := by
    cases c <;> rfl
  simp only [validate, validation, flagAll_eq, flag_eq, hite, ← Sink.reportAll_reportAll,
    Sink.reportAll_nil]

/-- Only tags that do not fit, and bases after the first, are reported after the scan. -/
theorem mem_validation {x : DocComment} {declaring : List Nat} {d : Diagnostic}
    (hd : d ∈ validation a x declaring) :
    d.problem = .unexpectedTag ∨ d.problem = .unexpectedVisibility ∨
      ∃ tag ∈ x.extendsTags.tail, d = problemAt a .repeatedTag (some tag) := by
  have hat {tags : List Nat} (hd : d ∈ problemsAt a .unexpectedTag tags) :
      d.problem = .unexpectedTag := by
    obtain ⟨tag, -, rfl⟩ := List.mem_map.1 hd
    rfl
  simp only [validation, List.mem_append, List.mem_ite_nil_left, List.mem_ite_nil_right] at hd
  obtain ((((hd | ⟨-, hd⟩) | hd) | ⟨-, hd⟩) | ⟨-, hd⟩) | ⟨-, hd⟩ := hd
  · exact .inl (hat hd)
  · rw [List.mem_singleton] at hd
    exact .inr (.inl (hd ▸ rfl))
  · split at hd
    · obtain ⟨tag, htag, rfl⟩ := List.mem_map.1 hd
      exact .inr (.inr ⟨tag, htag, rfl⟩)
    · exact .inl (hat hd)
  · exact .inl (hat hd)
  · rcases hd with hd | ⟨-, hd⟩
    · exact .inl (hat hd)
    · rw [List.mem_singleton] at hd
      exact .inl (hd ▸ rfl)
  · exact .inl (hat hd)

/-! ## The scan -/

theorem scanProblems_concat (tags : List Nat) (tag : Nat) :
    scanProblems a (tags ++ [tag]) = scanProblems a tags ++ problemsOf a tags tag := by
  rw [scanProblems, withPast_concat, List.flatMap_append, ← scanProblems, List.flatMap_singleton]

/-- What a comment keeps of its tags. -/
structure Accounts (tags : List Nat) (x : DocComment) : Prop where
  /-- A slot holds the first tag for it. -/
  tag : ∀ slot, x.tag slot = tags.find? (a.fills slot)
  visibility : x.visibility =
    (x.tag .access).elim .unstated fun tag => Visibility.ofTagName (a.text (some tag))
  isRecord : x.isRecord = (x.tag .kind).any fun tag => a.text (some tag) == "record"
  extendsTags : x.extendsTags = a.playing .extending tags
  implementsTags : x.implementsTags = a.playing .implementing tags
  paramTags : x.paramTags = a.playing .parameter tags
  templateTags : x.templateTags = a.playing .template tags
  /-- The names of the `@template` tags, each name once. -/
  typeParameters :
    x.typeParameters = firstsBy a.listedName [] (a.templateNames tags)

theorem foldl_scanTypeParameter (past names : List Nat) {x : DocComment} {sink : Sink}
    (hx : x.typeParameters = firstsBy a.listedName [] past) :
    names.foldl (scanTypeParameter a) (x, sink) =
      ({ x with typeParameters := firstsBy a.listedName [] (past ++ names) },
        sink.reportAll (problemsAt a .repeatedTypeParameter
          (repeatsBy a.listedName past names))) := by
  induction names generalizing past x sink with
  | nil => simp [← hx, problemsAt, repeatsBy]
  | cons name names ih =>
    have hseen : x.typeParameters.any (fun seen => a.listedName seen == a.listedName name) = true ↔
        a.listedName name ∈ past.map a.listedName := by
      rw [← mem_map_firstsBy a.listedName, ← hx]
      simp only [List.any_eq_true, beq_iff_eq, List.mem_map]
    have hfirsts := firstsBy_concat a.listedName past name
    rw [List.foldl_cons, repeatsBy_cons, List.append_cons past name names]
    by_cases h : a.listedName name ∈ past.map a.listedName
    · have hstep : scanTypeParameter a (x, sink) name =
          (x, sink.reportAll [problemAt a .repeatedTypeParameter (some name)]) := by
        rw [← flag_eq]
        exact if_pos (hseen.2 h)
      rw [if_pos h] at hfirsts ⊢
      rw [hstep, ih (past ++ [name]) (by rw [hx, hfirsts, List.append_nil]),
        Sink.reportAll_reportAll]
      rfl
    · have hstep : scanTypeParameter a (x, sink) name =
          ({ x with typeParameters := x.typeParameters ++ [name] }, sink) :=
        if_neg fun hany => h (hseen.1 hany)
      rw [if_neg h] at hfirsts ⊢
      rw [hstep, ih (past ++ [name]) (by rw [hx, hfirsts]), List.nil_append]

/-! ### The tag of a slot -/

theorem tag_keepOnce {slot : TagSlot} {x : DocComment} (h : x.has slot = false) (tag : Nat)
    (s : TagSlot) : (keepOnce a slot tag x).tag s = if slot = s then some tag else x.tag s := by
  have hslots : (keepOnce a slot tag x).slots = x.slots ++ [(slot, tag)] := by cases slot <;> rfl
  have hnone : x.slots.lookup slot = none := by
    rwa [has, DocComment.tag, Option.isSome_eq_false_iff, Option.isNone_iff_eq_none] at h
  rw [DocComment.tag, DocComment.tag, hslots, List.lookup_append, List.lookup_cons, List.lookup_nil]
  by_cases hs : slot = s
  · subst hs
    simp [hnone]
  · have hbeq : (s == slot) = false := beq_eq_false_iff_ne.2 (Ne.symm hs)
    rw [hbeq, if_neg hs]
    exact Option.or_none

theorem visibility_keepOnce (slot : TagSlot) (tag : Nat) (x : DocComment) :
    (keepOnce a slot tag x).visibility =
      if slot = .access then Visibility.ofTagName (a.text (some tag)) else x.visibility := by
  cases slot <;> rfl

theorem isRecord_keepOnce (slot : TagSlot) (tag : Nat) (x : DocComment) :
    (keepOnce a slot tag x).isRecord =
      if slot = .kind then a.text (some tag) == "record" else x.isRecord := by
  cases slot <;> rfl

namespace Accounts

variable {a} {tags : List Nat} {x : DocComment}

theorem start (document target : NodeRef) : Accounts a [] { document, target } where
  tag _ := rfl
  visibility := rfl
  isRecord := rfl
  extendsTags := rfl
  implementsTags := rfl
  paramTags := rfl
  templateTags := rfl
  typeParameters := rfl

/-- One more tag, by what its role adds. -/
theorem concat {tag : Nat} {x' : DocComment} (hx : Accounts a tags x)
    (htag : ∀ slot,
      x'.tag slot = if a.role tags tag = .occupant slot then some tag else x.tag slot)
    (hvisibility : x'.visibility = if a.role tags tag = .occupant .access then
      Visibility.ofTagName (a.text (some tag)) else x.visibility)
    (hisRecord : x'.isRecord = if a.role tags tag = .occupant .kind then
      a.text (some tag) == "record" else x.isRecord)
    (hextends : x'.extendsTags =
      x.extendsTags ++ if a.role tags tag = .extending then [tag] else [])
    (himplements : x'.implementsTags =
      x.implementsTags ++ if a.role tags tag = .implementing then [tag] else [])
    (hparam : x'.paramTags = x.paramTags ++ if a.role tags tag = .parameter then [tag] else [])
    (htemplate : x'.templateTags =
      x.templateTags ++ if a.role tags tag = .template then [tag] else [])
    (hnames : x'.typeParameters = if a.role tags tag = .template then
      firstsBy a.listedName [] (a.templateNames tags ++ a.nameOperands (some tag))
      else x.typeParameters) :
    Accounts a (tags ++ [tag]) x' where
  tag slot := by rw [htag, a.find?_fills_concat, hx.tag]
  visibility := by
    rw [hvisibility, htag, hx.visibility]
    split <;> rfl
  isRecord := by
    rw [hisRecord, htag, hx.isRecord]
    split <;> rfl
  extendsTags := by rw [hextends, a.playing_concat, hx.extendsTags]
  implementsTags := by rw [himplements, a.playing_concat, hx.implementsTags]
  paramTags := by rw [hparam, a.playing_concat, hx.paramTags]
  templateTags := by rw [htemplate, a.playing_concat, hx.templateTags]
  typeParameters := by
    rw [hnames, a.templateNames_concat, hx.typeParameters]
    split
    · rfl
    · rw [List.append_nil]

theorem has_eq (hx : Accounts a tags x) (slot : TagSlot) :
    x.has slot = tags.any (a.fills slot) := by
  rw [has, hx.tag, List.isSome_find?]

theorem isSome_paramTag? (hx : Accounts a tags x) {name : Atom} (hname : name.isEmpty = false) :
    (x.paramTag? a name).isSome = tags.any (a.documents name) := by
  rw [paramTag?, hx.paramTags, List.isSome_find?, Bool.eq_iff_iff, List.any_eq_true,
    List.any_eq_true, ← a.exists_parameter_iff hname]
  simp only [beq_iff_eq, Arena.documentedName]

/-- One tag. -/
theorem scanTag (hx : Accounts a tags x) (tag : Nat) (sink : Sink) :
    Accounts a (tags ++ [tag]) (DocComment.scanTag a (x, sink) tag).1 ∧
      (DocComment.scanTag a (x, sink) tag).2 = sink.reportAll (problemsOf a tags tag) := by
  have hclass : TagClass.ofName? (a.text (some tag)) = a.tagClass? tag := rfl
  unfold DocComment.scanTag
  dsimp only
  rw [hclass]
  cases h : a.tagClass? tag with
  | none =>
    have hrole : a.role tags tag = .unknown := by simp [Arena.role, h]
    refine ⟨hx.concat ?_ ?_ ?_ ?_ ?_ ?_ ?_ ?_, ?_⟩ <;> simp [hrole, problemsOf, flag_eq]
  | some tagClass =>
    cases tagClass with
    | ignored =>
      have hrole : a.role tags tag = .ignored := by simp [Arena.role, h]
      refine ⟨hx.concat ?_ ?_ ?_ ?_ ?_ ?_ ?_ ?_, ?_⟩ <;> simp [hrole, problemsOf]
    | extendsTag =>
      have hrole : a.role tags tag = .extending := by simp [Arena.role, h]
      refine ⟨hx.concat ?_ ?_ ?_ ?_ ?_ ?_ ?_ ?_, ?_⟩ <;> simp [hrole, problemsOf, DocComment.tag]
    | implementsTag =>
      have hrole : a.role tags tag = .implementing := by simp [Arena.role, h]
      refine ⟨hx.concat ?_ ?_ ?_ ?_ ?_ ?_ ?_ ?_, ?_⟩ <;> simp [hrole, problemsOf, DocComment.tag]
    | once slot =>
      dsimp only
      rw [hx.has_eq]
      by_cases hany : tags.any (a.fills slot) = true
      · have hrole : a.role tags tag = .later slot := by simp [Arena.role, h, hany]
        rw [if_pos hany]
        refine ⟨hx.concat ?_ ?_ ?_ ?_ ?_ ?_ ?_ ?_, ?_⟩ <;> simp [hrole, problemsOf, flag_eq]
      · have hrole : a.role tags tag = .occupant slot := by simp [Arena.role, h, hany]
        rw [if_neg hany]
        have hempty : x.has slot = false := by rw [hx.has_eq, Bool.eq_false_iff.2 hany]
        refine ⟨hx.concat (fun s => ?_) ?_ ?_ ?_ ?_ ?_ ?_ ?_, ?_⟩
        · simp only [hrole, TagRole.occupant.injEq, tag_keepOnce a hempty]
        · simp only [hrole, TagRole.occupant.injEq, visibility_keepOnce]
        · simp only [hrole, TagRole.occupant.injEq, isRecord_keepOnce]
        all_goals cases slot <;> simp [hrole, problemsOf, keepOnce]
    | paramTag =>
      dsimp only
      have hname : a.atom (a.nameOperand (some tag)) = a.documentedName tag := rfl
      rw [hname]
      have hdropped : (!(a.documentedName tag).isEmpty &&
            (x.paramTag? a (a.documentedName tag)).isSome) = true ↔
          (!(a.documentedName tag).isEmpty &&
            tags.any (a.documents (a.documentedName tag))) = true := by
        cases hempty : (a.documentedName tag).isEmpty with
        | true => rfl
        | false => rw [hx.isSome_paramTag? hempty]
      by_cases hdrop : (!(a.documentedName tag).isEmpty &&
          tags.any (a.documents (a.documentedName tag))) = true
      · have hrole : a.role tags tag = .laterParameter := by simp [Arena.role, h, hdrop]
        rw [if_pos (hdropped.2 hdrop)]
        refine ⟨hx.concat ?_ ?_ ?_ ?_ ?_ ?_ ?_ ?_, ?_⟩ <;> simp [hrole, problemsOf, flag_eq]
      · have hrole : a.role tags tag = .parameter := by simp [Arena.role, h, hdrop]
        rw [if_neg fun hx => hdrop (hdropped.1 hx)]
        refine ⟨hx.concat ?_ ?_ ?_ ?_ ?_ ?_ ?_ ?_, ?_⟩ <;> simp [hrole, problemsOf, DocComment.tag]
    | templateTag =>
      have hrole : a.role tags tag = .template := by simp [Arena.role, h]
      dsimp only
      rw [foldl_scanTypeParameter a (x := { x with templateTags := x.templateTags ++ [tag] })
        (a.templateNames tags) _ hx.typeParameters]
      refine ⟨hx.concat ?_ ?_ ?_ ?_ ?_ ?_ ?_ ?_, ?_⟩ <;> simp [hrole, problemsOf, DocComment.tag]

/-- The scan of the tags of a comment. -/
theorem foldl_scanTag (document target : NodeRef) (tags : List Nat) (sink : Sink) :
    Accounts a tags (tags.foldl (DocComment.scanTag a) ({ document, target }, sink)).1 ∧
      (tags.foldl (DocComment.scanTag a) ({ document, target }, sink)).2 =
        sink.reportAll (scanProblems a tags) := by
  induction tags using List.reverseRecOn with
  | nil => exact ⟨start document target, (Sink.reportAll_nil sink).symm⟩
  | append_singleton tags tag ih =>
    obtain ⟨hx, hsink⟩ := ih
    have hstep := hx.scanTag tag (sink.reportAll (scanProblems a tags))
    rw [List.foldl_append, List.foldl_cons, List.foldl_nil, scanProblems_concat,
      ← Sink.reportAll_reportAll, ← hsink]
    rwa [← hsink] at hstep

/-- The kind is no part of the account. -/
theorem withKind (hx : Accounts a tags x) (kind : DocKind) : Accounts a tags { x with kind } :=
  { hx with }

end Accounts

/-! ## Whole comments -/

section Sinks

variable {a}

/-- What a scan keeps does not depend on where it reports. -/
theorem foldl_fst {α : Type} {f : DocComment × Sink → α → DocComment × Sink}
    (h : ∀ x sink sink' y, (f (x, sink) y).1 = (f (x, sink') y).1) (ys : List α) (x : DocComment)
    (sink sink' : Sink) : (ys.foldl f (x, sink)).1 = (ys.foldl f (x, sink')).1 := by
  induction ys generalizing x sink sink' with
  | nil => rfl
  | cons y rest ih =>
    rw [List.foldl_cons, List.foldl_cons]
    have hrest := ih (f (x, sink) y).1 (f (x, sink) y).2 (f (x, sink') y).2
    exact hrest.trans (congrArg (fun z => (rest.foldl f (z, (f (x, sink') y).2)).1)
      (h x sink sink' y))

theorem scanTypeParameter_fst (x : DocComment) (sink sink' : Sink) (name : Nat) :
    (scanTypeParameter a (x, sink) name).1 = (scanTypeParameter a (x, sink') name).1 := by
  unfold scanTypeParameter
  dsimp only
  split <;> rfl

theorem scanTag_fst (x : DocComment) (sink sink' : Sink) (tag : Nat) :
    (scanTag a (x, sink) tag).1 = (scanTag a (x, sink') tag).1 := by
  unfold scanTag
  dsimp only
  cases TagClass.ofName? (a.text (some tag)) with
  | none => rfl
  | some tagClass =>
    cases tagClass with
    | once slot | paramTag =>
      dsimp only
      split <;> rfl
    | templateTag => exact foldl_fst scanTypeParameter_fst _ _ _ _
    | ignored | extendsTag | implementsTag => rfl

/-- A comment is compiled the same way whether or not problems are reported. -/
theorem compile_fst (document target : NodeRef) (sink : Sink) :
    (compile a document target sink).1 = silent a document target := by
  have hscan := foldl_fst (scanTag_fst (a := a)) (a.tags document) { document, target } sink none
  unfold silent compile
  dsimp only
  rw [hscan]

end Sinks

/-- What compiling a comment keeps. -/
theorem accounts_compile (document target : NodeRef) (sink : Sink) :
    Accounts a (a.tags document) (compile a document target sink).1 :=
  (Accounts.foldl_scanTag document target (a.tags document) sink).1.withKind _

/-- What is reported about a comment. -/
def problems (document target : NodeRef) : List Diagnostic :=
  scanProblems a (a.tags document) ++
    validation a (silent a document target) (declaringTags a (silent a document target))

/-- A sink gets the problems of the comment, and decides nothing. -/
theorem compile_eq (document target : NodeRef) (sink : Sink) : compile a document target sink =
    (silent a document target, sink.reportAll (problems a document target)) := by
  refine Prod.ext (compile_fst document target sink) ?_
  rw [problems, ← Sink.reportAll_reportAll, ← validate_eq, ← compile_fst document target sink,
    ← (Accounts.foldl_scanTag document target (a.tags document) sink).2]
  rfl

/-- A comment has problems of comments alone. -/
theorem mem_problems {document target : NodeRef} {d : Diagnostic}
    (hd : d ∈ problems a document target) : d.problem.category = .jsDoc := by
  rcases List.mem_append.1 hd with hd | hd
  · obtain ⟨p, -, hd⟩ := List.mem_flatMap.1 hd
    unfold problemsOf at hd
    split at hd
    all_goals try exact List.mem_singleton.1 hd ▸ rfl
    · obtain ⟨name, -, rfl⟩ := List.mem_map.1 hd
      rfl
    all_goals cases hd
  · obtain hd | hd | ⟨tag, -, rfl⟩ := mem_validation a hd
    · rw [hd]
      rfl
    · rw [hd]
      rfl
    · rfl

/-- The kept `@param` tags are for different names. -/
theorem nodup_documentedNames (tags : List Nat) :
    (((a.playing .parameter tags).map a.documentedName).filter (!·.isEmpty)).Nodup := by
  induction tags using List.reverseRecOn with
  | nil => exact List.nodup_nil
  | append_singleton tags tag ih =>
    rw [a.playing_concat]
    split
    · next hrole =>
      rw [List.map_append, List.filter_append, List.nodup_append]
      refine ⟨ih, (List.nodup_singleton _).filter _, fun name hname other hother => ?_⟩
      rintro rfl
      obtain ⟨hmem, hempty⟩ := List.mem_filter.1 hname
      obtain ⟨kept, hkept, rfl⟩ := List.mem_map.1 hmem
      have heq := List.mem_singleton.1 (List.mem_filter.1 hother).1
      rw [Bool.not_eq_true', heq] at hempty
      refine (a.role_eq_parameter_iff.1 hrole).2 ⟨hempty, ?_⟩
      exact (a.exists_parameter_iff hempty).1 ⟨kept, hkept, heq⟩
    · rwa [List.append_nil]

/-- The names of the `@template` tags that are reported are those that come again. -/
theorem repeatedTypeParameters (tags : List Nat) :
    (scanProblems a tags).filter (·.problem == .repeatedTypeParameter) =
      problemsAt a .repeatedTypeParameter (repeatsBy a.listedName [] (a.templateNames tags)) := by
  induction tags using List.reverseRecOn with
  | nil => rfl
  | append_singleton tags tag ih =>
    rw [scanProblems_concat, List.filter_append, ih, a.templateNames_concat, repeatsBy_append,
      List.nil_append, problemsAt, problemsAt, List.map_append]
    congr 1
    unfold problemsOf
    cases hrole : a.role tags tag with
    | template => 
      rw [if_pos rfl, List.filter_eq_self.2]
      · rfl
      · intro d hd
        obtain ⟨name, -, rfl⟩ := List.mem_map.1 hd
        rfl
    | _ => rfl

/-- The account of a comment. Each tag plays the role that its name and the tags before it give it.
What the comment keeps are the tags of the roles that keep one; the reports of the scan are those of
the roles that lose one, in order, and only tags that do not fit are reported after it. -/
theorem compile_accounts (document target : NodeRef) (reported : Array Diagnostic) :
    let tags := a.tags document
    let x := (compile a document target (some reported)).1
    Accounts a tags x ∧
      (∀ slot, a.playing (.occupant slot) tags = (x.tag slot).toList) ∧
      (∀ p ∈ withPast [] tags, a.role p.1 p.2 = .laterParameter ↔
        a.tagClass? p.2 = some .paramTag ∧ (a.documentedName p.2).isEmpty = false ∧
          ∃ kept ∈ a.playing .parameter p.1, a.documentedName kept = a.documentedName p.2) ∧
      ((x.paramTags.map a.documentedName).filter (!·.isEmpty)).Nodup ∧
      (scanProblems a tags).filter (·.problem == .repeatedTypeParameter) =
        problemsAt a .repeatedTypeParameter (repeatsBy a.listedName [] (a.templateNames tags)) ∧
      ∃ late, (compile a document target (some reported)).2 =
          some (reported ++ (scanProblems a tags ++ late).toArray) ∧
        ∀ d ∈ late, d.problem = .unexpectedTag ∨ d.problem = .unexpectedVisibility ∨
          ∃ tag ∈ (a.playing .extending tags).tail, d = problemAt a .repeatedTag (some tag) := by
  intro tags x
  have hx : Accounts a tags x := accounts_compile a document target _
  refine ⟨hx, fun slot => ?_, fun p _ => ?_, ?_, repeatedTypeParameters a tags, _,
    congrArg Prod.snd (compile_eq a document target _), fun d hd => ?_⟩
  · rw [hx.tag, a.playing_occupant]
  · rw [a.role_eq_laterParameter_iff]
    refine and_congr_right fun _ => and_congr_right fun hempty => ?_
    exact (a.exists_parameter_iff hempty).symm
  · rw [hx.paramTags]
    exact nodup_documentedNames a tags
  · rw [← (accounts_compile a document target none).extendsTags]
    exact mem_validation a hd

end DocComment
end DocTypes
