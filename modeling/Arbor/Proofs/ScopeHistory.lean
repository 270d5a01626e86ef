import Mathlib.Data.List.Nodup
import Mathlib.Logic.Relation
import Arbor.Proofs.Agreement
import Arbor.Proofs.ScopeChanges

/-!
# Scope trees after any history

A tree is only ever changed by two calls: one opens a scope inside of another, the other declares a
name in a scope and may be refused. A history is any sequence of such calls, in any order, each
about a scope that is there by then. `Rooted` is what all histories keep. In a rooted tree the way
outward from every scope ends at the root; a name has the type of the nearest declaration around;
and a declaration is seen from exactly the scopes inside from which nothing nearer hides it.
-/

namespace Arbor

namespace ScopeChange

/-- The scope that the change is made in. -/
def scope : ScopeChange → Nat
  | opened parent _ => parent
  | declared scope _ _ => scope

/-- The parent and the kind of the scope that the change opens. -/
def opening? : ScopeChange → Option (Option Nat × ScopeKind)
  | opened parent kind => some (some parent, kind)
  | declared .. => none

/-- All that a change can do: it opens a scope, declares a name, or is refused. -/
theorem apply_cases (tree : ScopeTree) (change : ScopeChange) :
    (∃ parent kind, change = opened parent kind ∧ change.apply tree = tree.push parent kind) ∨
      ∃ scope name type, change = declared scope name type ∧
        (tree.declare scope name type = .ok (change.apply tree) ∨ change.apply tree = tree) := by
  cases change with
  | opened parent kind => exact .inl ⟨parent, kind, rfl, rfl⟩
  | declared scope name type =>
    refine .inr ⟨scope, name, type, rfl, ?_⟩
    rw [apply]
    cases made : tree.declare scope name type with
    | ok after => exact .inl rfl
    | error e => exact .inr rfl

end ScopeChange

namespace ScopeTree

/-- The scope that a scope was opened in. -/
def parent? (tree : ScopeTree) (id : Nat) : Option Nat :=
  tree.scopes[id]?.bind Scope.parent

/-- The parents and the kinds of the scopes, in order. -/
def layout (tree : ScopeTree) : List (Option Nat × ScopeKind) :=
  tree.scopes.toList.map fun scope => (scope.parent, scope.kind)

/-- Each change is made in a scope that the tree has by then. -/
def Knows : ScopeTree → List ScopeChange → Prop
  | _, [] => True
  | tree, change :: rest => change.scope < tree.next ∧ Knows (change.apply tree) rest

instance decidableKnows : (tree : ScopeTree) → (changes : List ScopeChange) →
    Decidable (tree.Knows changes)
  | _, [] => .isTrue trivial
  | tree, change :: rest =>
    have := decidableKnows (change.apply tree) rest
    inferInstanceAs (Decidable (change.scope < tree.next ∧ Knows (change.apply tree) rest))

/-- Going from parent to parent comes to an end, meets these scopes and never leaves the tree. -/
inductive Walk (tree : ScopeTree) : Nat → List Nat → Prop where
  | last {id : Nat} {scope : Scope} : tree.scopes[id]? = some scope → scope.parent = none →
      Walk tree id [id]
  | outward {id parent : Nat} {scope : Scope} {outer : List Nat} : tree.scopes[id]? = some scope →
      scope.parent = some parent → Walk tree parent outer → Walk tree id (id :: outer)

/-- The first scope is the second one or lies inside of it, at any depth. -/
def Within (tree : ScopeTree) : Nat → Nat → Prop :=
  Relation.ReflTransGen fun inner outer => tree.parent? inner = some outer

/-- A declaration of the name in `outer` is not hidden from the scope: it is made in the scope or
around it, and no scope strictly inside of `outer` on the way there declares the name. -/
def Sees (tree : ScopeTree) (id : Nat) (name : String) (outer : Nat) : Prop :=
  tree.Within id outer ∧ ∀ between, tree.Within id between → tree.Within between outer →
    between ≠ outer → name ∉ Fields.names (tree.symbols between)

/-- What holds of the trees that histories lead to: parents are older, only the root has none, and
no scope declares a name twice. -/
structure Rooted (tree : ScopeTree) : Prop where
  root_lt : root < tree.next
  older : ∀ {id parent : Nat}, tree.parent? id = some parent → parent < id
  parent?_eq_none : ∀ {id : Nat}, id < tree.next → (tree.parent? id = none ↔ id = root)
  apart : ∀ id, (Fields.names (tree.symbols id)).Nodup

variable {tree after : ScopeTree} {id scope outer parent : Nat} {name : String} {type : Ty}

/-! ## One change -/

theorem parent?_eq_some : tree.parent? id = some parent ↔
    ∃ scope, tree.scopes[id]? = some scope ∧ scope.parent = some parent :=
  Option.bind_eq_some_iff

theorem parent?_push (tree : ScopeTree) (parent : Nat) (kind : ScopeKind) (id : Nat) :
    (tree.push parent kind).parent? id = if id = tree.next then some parent else tree.parent? id := by
  rw [parent?, parent?, push, Array.getElem?_push, next]
  split <;> rfl

theorem parent?_eq_layout (tree : ScopeTree) (id : Nat) :
    tree.parent? id = tree.layout[id]?.bind Prod.fst := by
  rw [parent?, layout, List.getElem?_map, Array.getElem?_toList]
  cases tree.scopes[id]? <;> rfl

theorem isFunction_iff : tree.isFunction id ↔
    ∃ parent, tree.layout[id]? = some (parent, .function) := by
  rw [isFunction, layout, List.getElem?_map, Array.getElem?_toList]
  cases tree.scopes[id]? <;> simp

/-- A declaration leaves all scopes where they are. -/
theorem layout_declare (declared : tree.declare scope name type = .ok after) :
    after.layout = tree.layout := by
  obtain ⟨-, rfl⟩ := declare_eq_ok.mp declared
  apply List.ext_getElem?
  intro id
  simp only [layout, List.getElem?_map, Array.getElem?_toList, Array.getElem?_modify]
  split
  · cases tree.scopes[id]? <;> rfl
  · rfl

theorem parent?_declare (declared : tree.declare scope name type = .ok after) :
    after.parent? = tree.parent? := by
  funext id
  rw [parent?_eq_layout, parent?_eq_layout, layout_declare declared]

theorem declare_taken (type : Ty) (taken : name ∈ Fields.names (tree.symbols scope)) :
    tree.declare scope name type = .error (.duplicateDeclaration name) := by
  obtain ⟨entry, member, rfl⟩ := List.mem_map.mp taken
  exact if_pos (List.any_eq_true.mpr ⟨entry, member, by simp⟩)

theorem next_declare (declared : tree.declare scope name type = .ok after) :
    after.next = tree.next := by
  obtain ⟨-, rfl⟩ := declare_eq_ok.mp declared
  exact Array.size_modify

/-- The layout of a tree is added to by the changes that open scopes. -/
theorem layout_apply (tree : ScopeTree) (change : ScopeChange) :
    (change.apply tree).layout = tree.layout ++ change.opening?.toList := by
  obtain ⟨parent, kind, rfl, pushed⟩ | ⟨scope, name, type, rfl, made | refused⟩ :=
    change.apply_cases tree
  · simp [pushed, ScopeChange.opening?, layout, push]
  · simp [layout_declare made, ScopeChange.opening?]
  · simp [refused, ScopeChange.opening?]

/-- Entries stay where they are. -/
theorem symbols_prefix_apply (change : ScopeChange) (h : change.scope < tree.next) (id : Nat) :
    tree.symbols id <+: (change.apply tree).symbols id := by
  obtain ⟨parent, kind, rfl, pushed⟩ | ⟨scope, name, type, rfl, made | refused⟩ :=
    change.apply_cases tree
  · exact ⟨[], by rw [pushed, symbols_push, List.append_nil]⟩
  · exact ⟨_, (symbols_declare made h id).symm⟩
  · exact ⟨[], by rw [refused, List.append_nil]⟩

namespace Rooted

theorem empty : ScopeTree.empty.Rooted where
  root_lt := by decide
  older {id} _ found := by
    rcases id with _ | id <;> cases found
  parent?_eq_none {id} h := by
    rcases id with _ | id
    · simp [root, parent?, ScopeTree.empty]
    · simp [next, ScopeTree.empty] at h
  apart id := by
    rcases id with _ | id <;> exact List.nodup_nil

theorem push (rooted : tree.Rooted) (kind : ScopeKind) (h : parent < tree.next) :
    (tree.push parent kind).Rooted where
  root_lt := by
    rw [next_push]
    exact Nat.lt_succ_of_lt rooted.root_lt
  older {id _} found := by
    rw [parent?_push] at found
    split at found
    · next own =>
      cases found
      rwa [own]
    · exact rooted.older found
  parent?_eq_none {id} known := by
    rw [next_push] at known
    rw [parent?_push]
    split
    · next own => simp [own, Nat.ne_of_gt rooted.root_lt]
    · next other => exact rooted.parent?_eq_none (by omega)
  apart id := by
    rw [symbols_push]
    exact rooted.apart id

theorem declare (rooted : tree.Rooted) (declared : tree.declare scope name type = .ok after)
    (h : scope < tree.next) : after.Rooted where
  root_lt := next_declare declared ▸ rooted.root_lt
  older found := rooted.older (parent?_declare declared ▸ found)
  parent?_eq_none known := by
    rw [parent?_declare declared]
    exact rooted.parent?_eq_none (next_declare declared ▸ known)
  apart id := by
    have fresh := (declare_eq_ok.mp declared).1
    rw [symbols_declare declared h, Fields.names, List.map_append]
    split
    · next own =>
      subst own
      exact (rooted.apart id).append (List.nodup_singleton _) (List.disjoint_singleton.mpr fresh)
    · exact (List.append_nil _).symm ▸ rooted.apart id

/-- A change about a scope of the tree keeps the tree rooted, whether it is refused or not. -/
theorem apply {change : ScopeChange} (rooted : tree.Rooted) (h : change.scope < tree.next) :
    (change.apply tree).Rooted := by
  obtain ⟨parent, kind, rfl, pushed⟩ | ⟨scope, name, type, rfl, made | refused⟩ :=
    change.apply_cases tree
  · rw [pushed]
    exact rooted.push kind h
  · exact rooted.declare made h
  · rwa [refused]

end Rooted

/-! ## Histories -/

section Histories

variable {changes : List ScopeChange}

theorem replay_append (tree : ScopeTree) (changes later : List ScopeChange) :
    tree.replay (changes ++ later) = (tree.replay changes).replay later :=
  List.foldl_append

theorem knows_append {later : List ScopeChange} :
    tree.Knows (changes ++ later) ↔ tree.Knows changes ∧ (tree.replay changes).Knows later := by
  induction changes generalizing tree with
  | nil => simp [Knows, replay]
  | cons change rest ih => simp [Knows, ih, replay, and_assoc]

theorem Rooted.replay (rooted : tree.Rooted) (known : tree.Knows changes) :
    (tree.replay changes).Rooted := by
  induction changes generalizing tree with
  | nil => exact rooted
  | cons change rest ih => exact ih (rooted.apply known.1) known.2

theorem layout_replay (tree : ScopeTree) (changes : List ScopeChange) :
    (tree.replay changes).layout = tree.layout ++ changes.filterMap ScopeChange.opening? := by
  induction changes generalizing tree with
  | nil => simp [replay]
  | cons change rest ih =>
    change ((change.apply tree).replay rest).layout = _
    rw [ih, layout_apply, List.append_assoc]
    cases opens : change.opening? <;> simp [opens]

theorem symbols_prefix_replay (known : tree.Knows changes) (id : Nat) :
    tree.symbols id <+: (tree.replay changes).symbols id := by
  induction changes generalizing tree with
  | nil => exact List.prefix_refl _
  | cons change rest ih => exact (symbols_prefix_apply change known.1 id).trans (ih known.2)

end Histories

/-! ## The way outward -/

theorem within_iff_of_parent (around : tree.parent? id = some parent) :
    tree.Within id outer ↔ outer = id ∨ tree.Within parent outer := by
  rw [Within, Relation.ReflTransGen.cases_head_iff]
  simp only [around, Option.some.injEq, exists_eq_left', eq_comm]

namespace Rooted

theorem exists_parent (rooted : tree.Rooted) (h : id < tree.next) (inner : id ≠ root) :
    ∃ parent < id, tree.parent? id = some parent := by
  obtain ⟨parent, around⟩ :=
    Option.ne_none_iff_exists'.mp fun none => inner ((rooted.parent?_eq_none h).mp none)
  exact ⟨parent, rooted.older around, around⟩

theorem exists_root (rooted : tree.Rooted) :
    ∃ scope, tree.scopes[root]? = some scope ∧ scope.parent = none := by
  obtain ⟨scope, found⟩ := exists_scope rooted.root_lt
  have top := (rooted.parent?_eq_none rooted.root_lt).mpr rfl
  rw [parent?, found, Option.bind_some] at top
  exact ⟨scope, found, top⟩

theorem ancestors_root (rooted : tree.Rooted) : tree.ancestors root = [root] := by
  obtain ⟨scope, found, top⟩ := rooted.exists_root
  simp [ancestors, outward, found, top]

theorem ancestors_eq (rooted : tree.Rooted) (around : tree.parent? id = some parent) :
    tree.ancestors id = id :: tree.ancestors parent := by
  obtain ⟨scope, found, inside⟩ := parent?_eq_some.mp around
  exact ancestors_of_parent found inside (rooted.older around)

/-- Induction from the root inward. -/
theorem ind (rooted : tree.Rooted) {motive : (id : Nat) → id < tree.next → Prop}
    (atRoot : motive root rooted.root_lt)
    (inside : ∀ {id parent : Nat} (h : id < tree.next) (around : tree.parent? id = some parent),
      motive parent (Nat.lt_trans (rooted.older around) h) → motive id h)
    (id : Nat) (h : id < tree.next) : motive id h := by
  induction id using Nat.strongRecOn with
  | ind id ih =>
    by_cases top : id = root
    · subst top
      exact atRoot
    · obtain ⟨parent, older, around⟩ := rooted.exists_parent h top
      exact inside h around (ih parent older (Nat.lt_trans older h))

/-- Without its bounds, the walk outward is the same and ends at the root. -/
theorem walk (rooted : tree.Rooted) (h : id < tree.next) :
    tree.Walk id (tree.ancestors id) ∧ (tree.ancestors id).getLast? = some root := by
  induction id, h using rooted.ind with
  | atRoot =>
    obtain ⟨scope, found, top⟩ := rooted.exists_root
    rw [rooted.ancestors_root]
    exact ⟨.last found top, rfl⟩
  | inside h around ih =>
    obtain ⟨scope, found, inside⟩ := parent?_eq_some.mp around
    obtain ⟨walk, last⟩ := ih
    rw [rooted.ancestors_eq around]
    exact ⟨.outward found inside walk, by rw [List.getLast?_cons, last]; rfl⟩

theorem le_of_within (rooted : tree.Rooted) (within : tree.Within id outer) : outer ≤ id := by
  induction within with
  | refl => exact Nat.le_refl _
  | tail _ around ih => exact Nat.le_trans (Nat.le_of_lt (rooted.older around)) ih

theorem within_antisymm (rooted : tree.Rooted) (within : tree.Within id outer)
    (back : tree.Within outer id) : id = outer :=
  Nat.le_antisymm (rooted.le_of_within back) (rooted.le_of_within within)

theorem within_root (rooted : tree.Rooted) : tree.Within root outer ↔ outer = root := by
  constructor
  · intro within
    exact Nat.le_zero.mp (rooted.le_of_within within)
  · rintro rfl
    exact .refl

theorem mem_ancestors (rooted : tree.Rooted) (h : id < tree.next) :
    outer ∈ tree.ancestors id ↔ tree.Within id outer := by
  induction id, h using rooted.ind with
  | atRoot => rw [rooted.ancestors_root, List.mem_singleton, rooted.within_root]
  | inside h around ih =>
    rw [rooted.ancestors_eq around, List.mem_cons, ih, within_iff_of_parent around]

/-! ## What is seen from a scope -/

theorem sees_self (rooted : tree.Rooted) (id : Nat) (name : String) : tree.Sees id name id :=
  ⟨.refl, fun _ inner outer other => absurd (rooted.within_antisymm outer inner) other⟩

theorem sees_root (rooted : tree.Rooted) : tree.Sees root name outer ↔ outer = root := by
  constructor
  · rintro ⟨within, -⟩
    exact rooted.within_root.mp within
  · rintro rfl
    exact rooted.sees_self root name

/-- From a scope one sees the scope, and what its parent sees unless the scope hides it. -/
theorem sees_iff_of_parent (rooted : tree.Rooted) (around : tree.parent? id = some parent) :
    tree.Sees id name outer ↔
      outer = id ∨ name ∉ Fields.names (tree.symbols id) ∧ tree.Sees parent name outer := by
  constructor
  · rintro ⟨within, clear⟩
    rcases (within_iff_of_parent around).mp within with same | further
    · exact .inl same
    · have other : id ≠ outer := by
        rintro rfl
        exact absurd (rooted.le_of_within further) (Nat.not_le.mpr (rooted.older around))
      refine .inr ⟨clear id .refl within other, further, ?_⟩
      intro between inner
      exact clear between (.head around inner)
  · rintro (rfl | ⟨absent, within, clear⟩)
    · exact rooted.sees_self outer name
    · refine ⟨.head around within, ?_⟩
      intro between inner
      rcases (within_iff_of_parent around).mp inner with rfl | inner
      · exact fun _ _ => absent
      · exact clear between inner

/-- A name is found in the scope whose declaration of it is not hidden. -/
theorem nearest?_eq_some (rooted : tree.Rooted) (h : id < tree.next) :
    tree.nearest? id name = some outer ↔
      tree.Sees id name outer ∧ name ∈ Fields.names (tree.symbols outer) := by
  induction id, h using rooted.ind with
  | atRoot =>
    rw [nearest?_eq rooted.root_lt, outer?, rooted.ancestors_root, rooted.sees_root]
    split
    · next declared =>
      constructor
      · rintro ⟨⟩
        exact ⟨rfl, declared⟩
      · rintro ⟨rfl, -⟩
        rfl
    · next absent =>
      constructor
      · rintro ⟨⟩
      · rintro ⟨rfl, declared⟩
        exact absurd declared absent
  | @inside id parent h around ih =>
    have outer?_eq : tree.outer? id name = tree.nearest? parent name := by
      rw [outer?, rooted.ancestors_eq around, List.tail_cons, nearest?]
    rw [nearest?_eq h, outer?_eq, rooted.sees_iff_of_parent around]
    split
    · next declared =>
      constructor
      · rintro ⟨⟩
        exact ⟨.inl rfl, declared⟩
      · rintro ⟨rfl | ⟨absent, -⟩, -⟩
        · rfl
        · exact absurd declared absent
    · next absent =>
      rw [ih]
      constructor
      · rintro ⟨sees, declared⟩
        exact ⟨.inr ⟨absent, sees⟩, declared⟩
      · rintro ⟨rfl | ⟨-, sees⟩, declared⟩
        · exact absurd declared absent
        · exact ⟨sees, declared⟩

end Rooted

/-- The type of a name is the one it has in the scope it is found in. -/
theorem lookup?_eq_nearest? (tree : ScopeTree) (id : Nat) (name : String) :
    tree.lookup? id name =
      (tree.nearest? id name).bind fun outer => (tree.symbols outer).lookup name := by
  rw [lookup?, nearest?]
  induction tree.ancestors id with
  | nil => rfl
  | cons first rest ih =>
    rw [List.findSome?_cons, List.find?_cons]
    cases found : (tree.symbols first).lookup name with
    | some type =>
      have declared : name ∈ Fields.names (tree.symbols first) :=
        Fields.lookup_isSome.mp (by rw [found]; rfl)
      rw [List.contains_iff_mem.mpr declared]
      exact found.symm
    | none =>
      have absent : (Fields.names (tree.symbols first)).contains name = false := by
        simpa using Fields.lookup_eq_none.mp found
      rw [absent]
      exact ih

theorem get_eq_ok : tree.get id name = .ok type ↔ tree.lookup? id name = some type := by
  unfold get
  cases tree.lookup? id name <;> simp

/-- A name is declared when it has a type, and else the error says which name is not. -/
theorem has_iff : (tree.has id name ↔ ∃ type, tree.get id name = .ok type) ∧
    (¬tree.has id name → tree.get id name = .error (.undefinedSymbol name)) := by
  unfold has get
  cases tree.lookup? id name <;> simp

namespace Rooted

/-- A name has the type that the nearest scope around gives it. -/
theorem get_eq_ok_iff (rooted : tree.Rooted) (h : id < tree.next) :
    tree.get id name = .ok type ↔
      ∃ outer, tree.Sees id name outer ∧ (name, type) ∈ tree.symbols outer := by
  rw [get_eq_ok, lookup?_eq_nearest?, Option.bind_eq_some_iff]
  constructor
  · rintro ⟨outer, nearest, found⟩
    exact ⟨outer, ((rooted.nearest?_eq_some h).mp nearest).1, Fields.mem_of_lookup found⟩
  · rintro ⟨outer, sees, member⟩
    have declared : name ∈ Fields.names (tree.symbols outer) := List.mem_map_of_mem member
    exact ⟨outer, (rooted.nearest?_eq_some h).mpr ⟨sees, declared⟩,
      Fields.lookup_of_mem (rooted.apart outer) member⟩

theorem inFunction_iff (rooted : tree.Rooted) (h : id < tree.next) :
    tree.inFunction id ↔ ∃ outer parent, tree.Within id outer ∧
      tree.layout[outer]? = some (parent, .function) := by
  rw [inFunction, List.any_eq_true]
  simp only [rooted.mem_ancestors h, isFunction_iff]
  constructor
  · rintro ⟨outer, within, parent, function⟩
    exact ⟨outer, parent, within, function⟩
  · rintro ⟨outer, parent, within, function⟩
    exact ⟨outer, within, parent, function⟩

end Rooted

/-! ## What a declaration changes -/

section Declaration

variable {other : String} (declared : tree.declare scope name type = .ok after)
include declared

theorem within_declare : after.Within = tree.Within := by
  unfold Within
  rw [parent?_declare declared]

/-- A new declaration hides what lies further out, and nothing else. -/
theorem sees_declare (h : scope < tree.next) : after.Sees id other outer ↔
    tree.Sees id other outer ∧
      (other = name → tree.Within id scope → tree.Within scope outer → scope = outer) := by
  unfold Sees
  rw [within_declare declared]
  simp only [mem_names_declare declared h, not_or, not_and]
  constructor
  · rintro ⟨within, clear⟩
    refine ⟨⟨within, fun between inner outer differ => (clear between inner outer differ).1⟩, ?_⟩
    intro same inner outer
    by_contra differ
    exact (clear scope inner outer differ).2 rfl same
  · rintro ⟨⟨within, clear⟩, new⟩
    refine ⟨within, fun between inner outer differ => ⟨clear between inner outer differ, ?_⟩⟩
    rintro rfl same
    exact differ (new same inner outer)

/-- From where it is not hidden, a new declaration is found. -/
theorem nearest?_declare (rooted : tree.Rooted) (h : scope < tree.next) (known : id < tree.next)
    (sees : tree.Sees id name scope) : after.nearest? id name = some scope := by
  have known' : id < after.next := by rwa [next_declare declared]
  rw [(rooted.declare declared h).nearest?_eq_some known', sees_declare declared h,
    mem_names_declare declared h]
  exact ⟨⟨sees, fun _ _ _ => rfl⟩, .inr ⟨rfl, rfl⟩⟩

/-- All other look-ups end where they did. -/
theorem nearest?_declare_other (rooted : tree.Rooted) (h : scope < tree.next)
    (known : id < tree.next) (apart : ¬(other = name ∧ tree.Sees id name scope)) :
    after.nearest? id other = tree.nearest? id other := by
  have known' : id < after.next := by rwa [next_declare declared]
  ext outer
  rw [(rooted.declare declared h).nearest?_eq_some known', rooted.nearest?_eq_some known,
    sees_declare declared h, mem_names_declare declared h]
  constructor
  · rintro ⟨⟨sees, -⟩, found | ⟨rfl, rfl⟩⟩
    · exact ⟨sees, found⟩
    · exact absurd ⟨rfl, sees⟩ apart
  · rintro ⟨sees, found⟩
    refine ⟨⟨sees, ?_⟩, .inl found⟩
    rintro rfl inner further
    by_contra differ
    -- A scope between the two that hides the name from `scope` hides it from `outer` as well.
    refine apart ⟨rfl, inner, fun between first last next => ?_⟩
    refine sees.2 between first (last.trans further) ?_
    rintro rfl
    exact next (rooted.within_antisymm last further)

theorem get_declare (rooted : tree.Rooted) (h : scope < tree.next) (known : id < tree.next)
    (sees : tree.Sees id name scope) : after.get id name = .ok type := by
  have known' : id < after.next := by rwa [next_declare declared]
  rw [(rooted.declare declared h).get_eq_ok_iff known']
  refine ⟨scope, (sees_declare declared h).mpr ⟨sees, fun _ _ _ => rfl⟩, ?_⟩
  rw [symbols_declare declared h]
  simp

theorem get_declare_other (rooted : tree.Rooted) (h : scope < tree.next) (known : id < tree.next)
    (apart : ¬(other = name ∧ tree.Sees id name scope)) : after.get id other = tree.get id other := by
  rw [get, get, lookup?_eq_nearest?, lookup?_eq_nearest?,
    nearest?_declare_other declared rooted h known apart]
  cases nearest : tree.nearest? id other with
  | none => rfl
  | some outer =>
    have named := ((rooted.nearest?_eq_some known).mp nearest).2
    obtain ⟨found, given⟩ := Option.isSome_iff_exists.mp (Fields.lookup_isSome.mpr named)
    rw [Option.bind_some, Option.bind_some, symbols_declare declared h, List.lookup_append, given,
      Option.some_or]

/-- A new declaration changes where a name is found exactly where it is seen. -/
theorem nearest?_declare_ne_iff (rooted : tree.Rooted) (h : scope < tree.next)
    (known : id < tree.next) : after.nearest? id other ≠ tree.nearest? id other ↔
      other = name ∧ tree.Sees id name scope := by
  constructor
  · intro differ
    by_contra apart
    exact differ (nearest?_declare_other declared rooted h known apart)
  · rintro ⟨rfl, sees⟩ same
    have fresh := (declare_eq_ok.mp declared).1
    rw [nearest?_declare declared rooted h known sees] at same
    exact fresh ((rooted.nearest?_eq_some known).mp same.symm).2

end Declaration

/-! ## The laws -/

/-- The laws of the tree that a history leads to. -/
structure Lawful (history : List ScopeChange) (tree : ScopeTree) : Prop where
  /-- Behind the root stand the scopes that were opened, in order, each with the parent and the kind
  that it was opened with. -/
  layout : tree.layout = (none, .root) :: history.filterMap ScopeChange.opening?
  older : ∀ id < tree.next, id ≠ root → ∃ parent < id, tree.parent? id = some parent
  walk : ∀ id < tree.next,
    tree.Walk id (tree.ancestors id) ∧ (tree.ancestors id).getLast? = some root
  get : ∀ id < tree.next, ∀ name type, tree.get id name = .ok type ↔
    ∃ outer, tree.Sees id name outer ∧ (name, type) ∈ tree.symbols outer
  has : ∀ id < tree.next, ∀ name, (tree.has id name ↔ ∃ type, tree.get id name = .ok type) ∧
    (¬tree.has id name → tree.get id name = .error (.undefinedSymbol name))
  inFunction : ∀ id < tree.next, (tree.inFunction id ↔
    ∃ outer parent, tree.Within id outer ∧ tree.layout[outer]? = some (parent, .function))
  /-- A name that a scope has is refused there, and the tree stays as it is. -/
  refused : ∀ scope < tree.next, ∀ name type, name ∈ Fields.names (tree.symbols scope) →
    tree.declare scope name type = .error (.duplicateDeclaration name) ∧
      (ScopeChange.declared scope name type).apply tree = tree
  /-- Any other name is declared. The declaration is what is found from where nothing hides it, and
  wherever else a name is looked up, the same is found as before. -/
  declared : ∀ scope < tree.next, ∀ name type, name ∉ Fields.names (tree.symbols scope) →
    ∃ after, tree.declare scope name type = .ok after ∧ ∀ id < tree.next, ∀ other,
      (other = name ∧ tree.Sees id name scope → after.get id other = .ok type) ∧
      (¬(other = name ∧ tree.Sees id name scope) → after.get id other = tree.get id other) ∧
      (after.nearest? id other ≠ tree.nearest? id other ↔ other = name ∧ tree.Sees id name scope)

theorem Rooted.lawful {history : List ScopeChange} (rooted : tree.Rooted)
    (laid : tree.layout = (none, .root) :: history.filterMap ScopeChange.opening?) :
    tree.Lawful history where
  layout := laid
  older _ h := rooted.exists_parent h
  walk _ h := rooted.walk h
  get _ h _ _ := rooted.get_eq_ok_iff h
  has _ _ _ := has_iff
  inFunction _ h := rooted.inFunction_iff h
  refused _ _ name type taken := by
    have refused := declare_taken type taken
    exact ⟨refused, by rw [ScopeChange.apply, refused]; rfl⟩
  declared scope h name type fresh := by
    have declared := (@declare_eq_ok tree _ scope name type).mpr ⟨fresh, rfl⟩
    refine ⟨_, declared, fun id known other => ⟨?_, ?_, ?_⟩⟩
    · rintro ⟨rfl, sees⟩
      exact get_declare declared rooted h known sees
    · exact get_declare_other declared rooted h known
    · exact nearest?_declare_ne_iff declared rooted h known

/-- The laws hold after every history, and whatever a scope declares then stays as it is and where
it is in all that follows. -/
theorem lawful_after_history {history later : List ScopeChange}
    (known : empty.Knows (history ++ later)) :
    (empty.replay history).Lawful history ∧
      ∀ id, (empty.replay history).symbols id <+: (empty.replay (history ++ later)).symbols id := by
  obtain ⟨known, next⟩ := knows_append.mp known
  constructor
  · exact (Rooted.empty.replay known).lawful (layout_replay empty history)
  · rw [replay_append]
    exact symbols_prefix_replay next

/-- A block and a function inside of it that hides the name at the top; to declare that name again at
the top is refused. -/
def branching : List ScopeChange :=
  [.declared 0 "x" (.prim .int), .opened 0 .block, .opened 1 .function,
    .declared 2 "x" (.prim .str), .declared 0 "x" (.prim .float), .opened 1 .block]

theorem lawful_after_branching :
    empty.Knows (branching ++ [.declared 1 "x" .bool]) ∧ (empty.replay branching).Lawful branching ∧
      ∀ id, (empty.replay branching).symbols id <+:
        (empty.replay (branching ++ [.declared 1 "x" .bool])).symbols id :=
  have known : empty.Knows (branching ++ [.declared 1 "x" .bool]) := by decide
  ⟨known, lawful_after_history known⟩

example : ([0, 1, 2, 3].mapM fun id => (empty.replay branching).get id "x") =
    .ok [.prim .int, .prim .int, .prim .str, .prim .int] := rfl

example : ([0, 1, 2, 3].mapM fun id =>
      (empty.replay (branching ++ [.declared 1 "x" .bool])).get id "x") =
    .ok [.prim .int, .bool, .prim .str, .bool] := rfl

end ScopeTree

end Arbor
