import Arbor.Scope

/-!
# How scope trees grow

A visit never takes a scope out and never changes one that lies outside of its own. `Grows scope
added before after` says all that can have happened between two trees: `scope` gained the names
`added` behind its others, every other old scope is as it was, and every new scope lies inside
`scope`. The relation is closed under the two changes a tree knows, opening a scope and declaring a
name, and under closing an inner scope, which is forgotten but for having been opened.

`ScopeTree.frames` reads the path from a scope to the root as a stack of tables. Growth changes the
stack of `scope` in its innermost frame only.
-/

namespace Arbor

/-- The scope with names declared behind the others. -/
def Scope.extend (scope : Scope) (added : List (String × Ty)) : Scope :=
  { scope with symbols := scope.symbols ++ added }

@[simp] theorem Scope.extend_nil (scope : Scope) : scope.extend [] = scope := by
  simp [Scope.extend]

@[simp] theorem Scope.extend_extend (scope : Scope) (first last : List (String × Ty)) :
    (scope.extend first).extend last = scope.extend (first ++ last) := by
  simp [Scope.extend]

/-- A table of names on the way outward. -/
structure Frame where
  /-- The names it declares, in order. -/
  symbols : List (String × Ty)
  /-- It is the outermost frame of a function's body. -/
  isFunction : Bool

/-- The frames around a place, the innermost first. -/
abbrev Frames := List Frame

namespace Frames

/-- The frames with names declared behind the others in the innermost one. -/
def extend (added : List (String × Ty)) : Frames → Frames
  | [] => []
  | frame :: outer => { frame with symbols := frame.symbols ++ added } :: outer

@[simp] theorem extend_nil (frames : Frames) : extend [] frames = frames := by
  cases frames <;> simp [extend]

/-- The names of the innermost frame, in order. -/
def symbols : Frames → List (String × Ty)
  | [] => []
  | frame :: _ => frame.symbols

/-- The type of a name in the nearest frame that declares it. -/
def type? (frames : Frames) (name : String) : Option Ty :=
  frames.findSome? fun frame => frame.symbols.lookup name

/-- Some frame belongs to a function. -/
def inFunction (frames : Frames) : Bool :=
  frames.any Frame.isFunction

theorem inFunction_extend {frames : Frames} (added : List (String × Ty)) :
    (frames.extend added).inFunction = frames.inFunction := by
  cases frames <;> rfl

end Frames

namespace ScopeTree

/-- A scope without its place in the tree. -/
def frame (tree : ScopeTree) (id : Nat) : Frame :=
  ⟨tree.symbols id, tree.isFunction id⟩

/-- The frames from a scope to the root. -/
def frames (tree : ScopeTree) (id : Nat) : Frames :=
  (tree.ancestors id).map tree.frame

theorem lookup?_eq_type? (tree : ScopeTree) (id : Nat) (name : String) :
    tree.lookup? id name = (tree.frames id).type? name := by
  simp [lookup?, frames, Frames.type?, List.findSome?_map, Function.comp_def, frame]

theorem inFunction_eq_frames (tree : ScopeTree) (id : Nat) :
    tree.inFunction id = (tree.frames id).inFunction := by
  simp [inFunction, frames, Frames.inFunction, List.any_map, Function.comp_def, frame]

theorem exists_scope {tree : ScopeTree} {id : Nat} (h : id < tree.next) :
    ∃ scope, tree.scopes[id]? = some scope :=
  ⟨_, Array.getElem?_eq_getElem h⟩

theorem getElem?_of_next_le {tree : ScopeTree} {id : Nat} (h : tree.next ≤ id) :
    tree.scopes[id]? = none :=
  Array.getElem?_eq_none h

@[simp] theorem next_push (tree : ScopeTree) (parent : Nat) (kind : ScopeKind) :
    (tree.push parent kind).next = tree.next + 1 := by
  simp [next, push]

theorem getElem?_push_old {tree : ScopeTree} {id : Nat} (parent : Nat) (kind : ScopeKind)
    (h : id < tree.next) : (tree.push parent kind).scopes[id]? = tree.scopes[id]? := by
  have other : id ≠ tree.scopes.size := Nat.ne_of_lt h
  simp [push, Array.getElem?_push, other]

@[simp] theorem getElem?_push_next (tree : ScopeTree) (parent : Nat) (kind : ScopeKind) :
    (tree.push parent kind).scopes[tree.next]? = some ⟨[], some parent, kind⟩ := by
  simp [push, next]

/-- A new scope has no names. -/
theorem symbols_push (tree : ScopeTree) (parent : Nat) (kind : ScopeKind) (id : Nat) :
    (tree.push parent kind).symbols id = tree.symbols id := by
  by_cases own : id = tree.scopes.size
  · simp [symbols, push, own]
  · simp [symbols, push, Array.getElem?_push, own]

/-- A bound past the number of the scope cuts nothing off, since numbers decrease outward. -/
theorem outward_eq_ancestors (tree : ScopeTree) {bound id : Nat} (h : id < bound) :
    tree.outward bound id = tree.ancestors id := by
  induction id using Nat.strongRecOn generalizing bound with
  | ind id ih =>
    obtain ⟨bound, rfl⟩ : ∃ b, bound = b + 1 := ⟨bound - 1, by omega⟩
    unfold ancestors
    simp only [outward]
    cases tree.scopes[id]? with
    | none => rfl
    | some scope =>
      cases hp : scope.parent with
      | none => simp [hp]
      | some parent =>
        by_cases hlt : parent < id
        · have shorter : tree.outward bound parent = tree.ancestors parent :=
            ih parent hlt (by omega)
          simp [hp, hlt, shorter, ih parent hlt hlt]
        · simp [hp, hlt]

/-- The way outward of a scope whose parent is older. -/
theorem ancestors_of_parent {tree : ScopeTree} {id parent : Nat} {scope : Scope}
    (found : tree.scopes[id]? = some scope) (around : scope.parent = some parent)
    (older : parent < id) : tree.ancestors id = id :: tree.ancestors parent := by
  rw [ancestors, outward, found]
  simp [around, older, outward_eq_ancestors tree older]

/-- A scope of the tree comes first on its own way outward, and all others are older. -/
theorem ancestors_eq_cons {tree : ScopeTree} {id : Nat} (h : id < tree.next) :
    ∃ outer, tree.ancestors id = id :: outer ∧ ∀ i ∈ outer, i < id := by
  induction id using Nat.strongRecOn with
  | ind id ih =>
    obtain ⟨scope, found⟩ := exists_scope h
    cases hp : scope.parent with
    | none => exact ⟨[], by simp [ancestors, outward, found, hp], by simp⟩
    | some parent =>
      by_cases older : parent < id
      · obtain ⟨outer, path, below⟩ := ih parent older (Nat.lt_trans older h)
        refine ⟨parent :: outer, by rw [ancestors_of_parent found hp older, path], ?_⟩
        intro i hi
        rcases List.mem_cons.mp hi with rfl | hi
        · exact older
        · exact Nat.lt_trans (below i hi) older
      · exact ⟨[], by simp [ancestors, outward, found, hp, older], by simp⟩

/-- The innermost frame seen from a scope is the scope's own. -/
theorem frames_eq_cons {tree : ScopeTree} {id : Nat} (h : id < tree.next) :
    ∃ outer, tree.frames id = tree.frame id :: outer := by
  obtain ⟨outer, path, -⟩ := ancestors_eq_cons h
  exact ⟨outer.map tree.frame, by rw [frames, path, List.map_cons]⟩

theorem symbols_frames {tree : ScopeTree} {id : Nat} (h : id < tree.next) :
    (tree.frames id).symbols = tree.symbols id := by
  obtain ⟨outer, innermost⟩ := frames_eq_cons h
  rw [innermost]
  rfl

/-- The way outward depends on the parents of old scopes only. -/
theorem ancestors_congr {before after : ScopeTree}
    (same : ∀ id < before.next,
      after.scopes[id]?.map Scope.parent = before.scopes[id]?.map Scope.parent)
    {id : Nat} (h : id < before.next) : after.ancestors id = before.ancestors id := by
  induction id using Nat.strongRecOn with
  | ind id ih =>
    obtain ⟨scope, found⟩ := exists_scope h
    have parents := same id h
    rw [found, Option.map_some, Option.map_eq_some_iff] at parents
    obtain ⟨scope', found', parents⟩ := parents
    cases hp : scope.parent with
    | none =>
      rw [hp] at parents
      simp [ancestors, outward, found, found', hp, parents]
    | some parent =>
      rw [hp] at parents
      by_cases older : parent < id
      · rw [ancestors_of_parent found hp older, ancestors_of_parent found' parents older,
          ih parent older (Nat.lt_trans older h)]
      · simp [ancestors, outward, found, found', hp, parents, older]

theorem symbols_congr {before after : ScopeTree} {id : Nat}
    (same : after.scopes[id]? = before.scopes[id]?) : after.symbols id = before.symbols id := by
  simp only [symbols, same]

theorem frame_congr {before after : ScopeTree} {id : Nat}
    (same : after.scopes[id]? = before.scopes[id]?) : after.frame id = before.frame id := by
  simp only [frame, symbols, isFunction, same]

/-- What can have happened between two trees while `scope` was visited. -/
structure Grows (scope : Nat) (added : List (String × Ty)) (before after : ScopeTree) : Prop where
  next_le : before.next ≤ after.next
  /-- Old scopes other than the visited one are as they were. -/
  kept : ∀ id < before.next, id ≠ scope → after.scopes[id]? = before.scopes[id]?
  /-- The visited scope has gained names. -/
  own : after.scopes[scope]? = before.scopes[scope]?.map fun s => s.extend added
  /-- New scopes lie inside the visited one. -/
  opened : ∀ id, before.next ≤ id → ∀ s, after.scopes[id]? = some s →
    ∃ parent, s.parent = some parent ∧ parent < id ∧ (parent = scope ∨ before.next ≤ parent)

variable {scope : Nat} {added more : List (String × Ty)} {before middle after : ScopeTree}

theorem Grows.refl (scope : Nat) (tree : ScopeTree) : Grows scope [] tree tree where
  next_le := Nat.le_refl _
  kept _ _ _ := rfl
  own := by simp
  opened id fresh s found := by
    simp [getElem?_of_next_le fresh] at found

theorem Grows.trans (first : Grows scope added before middle) (last : Grows scope more middle after)
    (h : scope < before.next) : Grows scope (added ++ more) before after where
  next_le := Nat.le_trans first.next_le last.next_le
  kept id old other :=
    (last.kept id (Nat.lt_of_lt_of_le old first.next_le) other).trans (first.kept id old other)
  own := by
    rw [last.own, first.own, Option.map_map]
    congr 1
    funext s
    simp
  opened id fresh s found := by
    by_cases old : id < middle.next
    · have other : id ≠ scope := by omega
      exact first.opened id fresh s ((last.kept id old other).symm.trans found)
    · obtain ⟨parent, around, older, inside⟩ := last.opened id (by omega) s found
      have := first.next_le
      exact ⟨parent, around, older, inside.imp_right (by omega)⟩

/-- Declaring a name adds just that name. -/
theorem Grows.declare {tree : ScopeTree} {name : String} {type : Ty}
    (declared : tree.declare scope name type = .ok after) :
    Grows scope [(name, type)] tree after := by
  unfold ScopeTree.declare at declared
  split at declared
  · cases declared
  · cases declared
    have scopes (id : Nat) : (tree.scopes.modify scope fun s => s.declare name type)[id]? =
        if scope = id then tree.scopes[id]?.map fun s => s.declare name type
        else tree.scopes[id]? := Array.getElem?_modify
    refine ⟨by simp [next], ?_, ?_, ?_⟩
    · intro id _ other
      rw [scopes, if_neg (Ne.symm other)]
    · rw [scopes, if_pos rfl]
      rfl
    · intro id fresh s found
      simp [scopes, getElem?_of_next_le fresh] at found

/-- What happened inside a scope that was opened in `scope` leaves `scope` as it was. -/
theorem Grows.inner {tree : ScopeTree} {kind : ScopeKind} (h : scope < tree.next)
    (body : Grows tree.next added (tree.push scope kind) after) : Grows scope [] tree after := by
  have old (id : Nat) (h : id < tree.next) : after.scopes[id]? = tree.scopes[id]? := by
    rw [body.kept id (by rw [next_push]; omega) (Nat.ne_of_lt h), getElem?_push_old _ _ h]
  have next_le := body.next_le
  rw [next_push] at next_le
  refine ⟨by omega, fun id h _ => old id h, by rw [old scope h]; simp, ?_⟩
  intro id fresh s found
  by_cases own : id = tree.next
  · subst own
    rw [body.own, getElem?_push_next] at found
    cases found
    exact ⟨scope, rfl, h, .inl rfl⟩
  · obtain ⟨parent, around, older, inside⟩ := body.opened id (by rw [next_push]; omega) s found
    rw [next_push] at inside
    exact ⟨parent, around, older, .inr (by omega)⟩

/-- Parents never change. -/
theorem Grows.ancestors_eq (grows : Grows scope added before after) {id : Nat}
    (h : id < before.next) : after.ancestors id = before.ancestors id := by
  refine ancestors_congr (fun id old => ?_) h
  by_cases own : id = scope
  · subst own
    rw [grows.own, Option.map_map]
    rfl
  · rw [grows.kept id old own]

theorem Grows.symbols_eq (grows : Grows scope added before after) (h : scope < before.next) :
    after.symbols scope = before.symbols scope ++ added := by
  obtain ⟨s, found⟩ := exists_scope h
  simp [symbols, grows.own, found, Scope.extend]

theorem Grows.isFunction_eq (grows : Grows scope added before after) (h : scope < before.next) :
    after.isFunction scope = before.isFunction scope := by
  obtain ⟨s, found⟩ := exists_scope h
  simp [isFunction, grows.own, found, Scope.extend]

/-- Growth shows in the innermost frame. -/
theorem Grows.frames_eq (grows : Grows scope added before after) (h : scope < before.next) :
    after.frames scope = (before.frames scope).extend added := by
  obtain ⟨outer, path, below⟩ := ancestors_eq_cons h
  rw [frames, frames, grows.ancestors_eq h, path, List.map_cons, List.map_cons, Frames.extend]
  congr 1
  · simp [frame, grows.symbols_eq h, grows.isFunction_eq h]
  · apply List.map_congr_left
    intro i hi
    exact frame_congr (grows.kept i (Nat.lt_trans (below i hi) h) (Nat.ne_of_lt (below i hi)))

/-- A visit that declares nothing leaves the frames as they were. -/
theorem Grows.frames_same (grows : Grows scope [] before after) (h : scope < before.next) :
    after.frames scope = before.frames scope := by
  rw [grows.frames_eq h, Frames.extend_nil]

/-- A new scope sees an empty frame of its own and those of its parent. -/
theorem frames_push {tree : ScopeTree} {parent : Nat} (kind : ScopeKind) (h : parent < tree.next) :
    (tree.push parent kind).frames tree.next =
      ⟨[], kind == .function⟩ :: tree.frames parent := by
  have found := getElem?_push_next tree parent kind
  obtain ⟨outer, path, below⟩ := ancestors_eq_cons h
  rw [frames, ancestors_of_parent found rfl h, ancestors_push_old tree parent kind h, List.map_cons,
    frames]
  congr 1
  · simp [frame, symbols, isFunction]
  · apply List.map_congr_left
    intro i hi
    have old : i < tree.next := by
      rw [path] at hi
      rcases List.mem_cons.mp hi with rfl | hi
      · exact h
      · exact Nat.lt_trans (below i hi) h
    exact frame_congr (getElem?_push_old parent kind old)

end ScopeTree

end Arbor
