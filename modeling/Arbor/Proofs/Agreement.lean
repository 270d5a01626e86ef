import Mathlib.Data.List.Find
import Arbor.Proofs.Lookups
import Arbor.Proofs.ScopeGrowth

/-!
# When a later tree agrees

A tree is only ever added to along the way outward from the scope that is visited (`Settles`), so a
later tree can disagree on a name only by a declaration in one of the bodies around its use, between
the use and the scope in which it was found. `Looks` follows this outward: what a step takes from
around it is left to the body it stands in, which decides on its own declarations and leaves the
rest to the next.
-/

namespace Arbor

namespace ScopeTree

/-- The nearest scope around a scope that declares a name. -/
def outer? (tree : ScopeTree) (scope : Nat) (name : String) : Option Nat :=
  (tree.ancestors scope).tail.find? fun id => (Fields.names (tree.symbols id)).contains name

variable {tree final : ScopeTree} {scope : Nat} {name : String}

/-- A scope is nearer to itself than those around it. -/
theorem nearest?_eq (h : scope < tree.next) : tree.nearest? scope name =
    if name ∈ Fields.names (tree.symbols scope) then some scope else tree.outer? scope name := by
  obtain ⟨outer, path, -⟩ := ancestors_eq_cons h
  simp only [nearest?, outer?, path, List.find?_cons, List.tail_cons]
  split
  · next declared => simp [List.contains_iff_mem.mp declared]
  · next absent =>
    rw [if_neg]
    intro declared
    simp [declared] at absent

theorem outer?_ne (h : scope < tree.next) : tree.outer? scope name ≠ some scope := by
  obtain ⟨outer, path, below⟩ := ancestors_eq_cons h
  rw [outer?, path]
  intro found
  exact Nat.lt_irrefl _ (below scope (List.mem_of_find?_eq_some found))

/-- A name is found in some scope exactly when it has a type. -/
theorem nearest?_isSome : (tree.nearest? scope name).isSome ↔ (tree.lookup? scope name).isSome := by
  simp only [nearest?, lookup?, List.find?_isSome, List.isSome_findSome?, List.any_eq_true,
    List.contains_iff_mem, Fields.lookup_isSome]

/-- The tree has become `final`, while only scopes from `scope` outward were added to. -/
structure Settles (scope : Nat) (tree final : ScopeTree) : Prop where
  next_le : tree.next ≤ final.next
  closed : ∀ id < tree.next, id ∉ tree.ancestors scope → final.scopes[id]? = tree.scopes[id]?
  opened : ∀ id ∈ tree.ancestors scope,
    ∃ added, final.scopes[id]? = tree.scopes[id]?.map fun s => s.extend added

theorem Settles.refl (scope : Nat) (tree : ScopeTree) : Settles scope tree tree where
  next_le := Nat.le_refl _
  closed _ _ _ := rfl
  opened _ _ := ⟨[], by simp⟩

/-- What settles behind a visit has settled before it. -/
theorem Settles.before {added : List (String × Ty)} {middle : ScopeTree}
    (grows : Grows scope added tree middle) (settles : Settles scope middle final)
    (h : scope < tree.next) : Settles scope tree final := by
  have path := grows.ancestors_eq h
  refine ⟨Nat.le_trans grows.next_le settles.next_le, ?_, ?_⟩
  · intro id old aside
    have other : id ≠ scope := by
      rintro rfl
      obtain ⟨outer, own, -⟩ := ancestors_eq_cons h
      simp [own] at aside
    rw [settles.closed id (Nat.lt_of_lt_of_le old grows.next_le) (by rwa [path]),
      grows.kept id old other]
  · intro id member
    obtain ⟨more, later⟩ := settles.opened id (by rwa [path])
    by_cases own : id = scope
    · subst own
      refine ⟨added ++ more, ?_⟩
      rw [later, grows.own, Option.map_map]
      congr 1
      funext s
      simp
    · have old : id < tree.next := by
        obtain ⟨outer, first, below⟩ := ancestors_eq_cons h
        rw [first] at member
        rcases List.mem_cons.mp member with rfl | member
        · exact absurd rfl own
        · exact Nat.lt_trans (below id member) h
      exact ⟨more, by rw [later, grows.kept id old own]⟩

theorem Settles.ancestors_eq (settles : Settles scope tree final) {id : Nat} (h : id < tree.next) :
    final.ancestors id = tree.ancestors id := by
  refine ancestors_congr (fun id old => ?_) h
  by_cases open' : id ∈ tree.ancestors scope
  · obtain ⟨added, later⟩ := settles.opened id open'
    rw [later, Option.map_map]
    rfl
  · rw [settles.closed id old open']

/-- The way outward from a scope that was opened in `scope`. -/
theorem Grows.ancestors_inner {kind : ScopeKind} {added : List (String × Ty)} {after : ScopeTree}
    (h : scope < tree.next) (body : Grows tree.next added (tree.push scope kind) after) :
    after.ancestors tree.next = tree.next :: after.ancestors scope := by
  have own : (tree.push scope kind).ancestors tree.next =
      tree.next :: (tree.push scope kind).ancestors scope :=
    ancestors_of_parent (getElem?_push_next tree scope kind) rfl h
  rw [body.ancestors_eq (by simp), own, body.ancestors_eq (by rw [next_push]; omega)]

/-- A scope that has been left is not added to. -/
theorem Settles.inner {kind : ScopeKind} {added : List (String × Ty)} {after : ScopeTree}
    (h : scope < tree.next) (body : Grows tree.next added (tree.push scope kind) after)
    (settles : Settles scope after final) :
    Settles tree.next after final ∧ final.symbols tree.next = after.symbols tree.next := by
  have next_le := body.next_le
  rw [next_push] at next_le
  have path := body.ancestors_inner h
  have aside : tree.next ∉ after.ancestors scope := by
    obtain ⟨outer, first, below⟩ := @ancestors_eq_cons after scope (by omega)
    rw [first]
    intro member
    rcases List.mem_cons.mp member with same | member
    · omega
    · have := below _ member
      omega
  have left := settles.closed tree.next (by omega) aside
  refine ⟨⟨settles.next_le, ?_, ?_⟩, symbols_congr left⟩
  · intro id old off
    exact settles.closed id old fun member => off (by simp [path, member])
  · intro id member
    rw [path] at member
    rcases List.mem_cons.mp member with rfl | member
    · exact ⟨[], by simp [left]⟩
    · exact settles.opened id member

section Growth

variable {added : List (String × Ty)} {before after : ScopeTree}

/-- A visit leaves the scopes around its own alone. -/
theorem Grows.outer?_eq (grows : Grows scope added before after) (h : scope < before.next) :
    after.outer? scope name = before.outer? scope name := by
  obtain ⟨outer, path, below⟩ := ancestors_eq_cons h
  rw [outer?, outer?, grows.ancestors_eq h, path, List.tail_cons]
  refine List.find?_congr fun id member => ?_
  have older := below id member
  rw [symbols_congr (grows.kept id (Nat.lt_trans older h) (Nat.ne_of_lt older))]

theorem Grows.nearest?_eq (grows : Grows scope [] before after) (h : scope < before.next) :
    after.nearest? scope name = before.nearest? scope name := by
  rw [ScopeTree.nearest?_eq h, ScopeTree.nearest?_eq (Nat.lt_of_lt_of_le h grows.next_le),
    grows.symbols_eq h, List.append_nil, grows.outer?_eq h]

theorem Grows.inFunction_eq (grows : Grows scope added before after) (h : scope < before.next) :
    after.inFunction scope = before.inFunction scope := by
  rw [inFunction_eq_frames, inFunction_eq_frames, grows.frames_eq h]
  cases before.frames scope <;> simp [Frames.extend, Frames.inFunction]

theorem outer?_push (kind : ScopeKind) (h : scope < tree.next) :
    (tree.push scope kind).outer? tree.next name = tree.nearest? scope name := by
  obtain ⟨outer, path, below⟩ := ancestors_eq_cons h
  rw [outer?, ancestors_of_parent (getElem?_push_next tree scope kind) rfl h, List.tail_cons,
    ancestors_push_old tree scope kind h, nearest?]
  refine List.find?_congr fun id member => ?_
  have old : id < tree.next := by
    rw [path] at member
    rcases List.mem_cons.mp member with rfl | member
    · exact h
    · exact Nat.lt_trans (below id member) h
  rw [symbols_congr (getElem?_push_old scope kind old)]

theorem inFunction_push (kind : ScopeKind) (h : scope < tree.next) :
    (tree.push scope kind).inFunction tree.next = (kind == .function || tree.inFunction scope) := by
  rw [inFunction_eq_frames, inFunction_eq_frames, frames_push kind h, Frames.inFunction,
    List.any_cons, Frames.inFunction]

end Growth

end ScopeTree

/-! ## Agreement -/

/-- The name is found in the same scope of a later tree. -/
def Lookup.Agrees (final : ScopeTree) (lookup : Lookup) : Prop :=
  final.nearest? lookup.scope lookup.name = lookup.found?

/-- What a step in a scope looks up. The names it declares are new, all names it uses are found, and
whether a later tree agrees on them is decided inside the step but for the names it takes from
around. -/
structure Looks (scope : Nat) (declared : List String) (lookups : List Lookup) (usage : Usage)
    (before after : ScopeTree) : Prop where
  grows : ∃ added, before.Grows scope added after ∧ Fields.names added = declared
  fresh : ∀ name ∈ declared, name ∉ Fields.names (before.symbols scope)
  found : ∀ lookup ∈ lookups, lookup.found?.isSome
  agrees : ∀ final, after.Settles scope final →
    ((∀ lookup ∈ lookups, lookup.Agrees final) ↔
      usage.ordered ∧ ∀ name ∈ usage.free, Lookup.Agrees final ⟨scope, name, before⟩)

/-- What the statements of a body look up. The body declares nothing further, so only the scopes
around it are left to decide. -/
structure BodyLooks (scope : Nat) (declared : List String) (lookups : List Lookup) (usage : Usage)
    (before after : ScopeTree) : Prop where
  grows : ∃ added, before.Grows scope added after ∧ Fields.names added = declared
  fresh : ∀ name ∈ declared, name ∉ Fields.names (before.symbols scope)
  found : ∀ lookup ∈ lookups, lookup.found?.isSome
  agrees : ∀ final, after.Settles scope final → final.symbols scope = after.symbols scope →
    ((∀ lookup ∈ lookups, lookup.Agrees final) ↔
      usage.ordered ∧ ∀ name ∈ usage.free, name ∈ Fields.names (before.symbols scope) ∨
        final.outer? scope name = before.outer? scope name)

section Looks

variable {scope : Nat} {declared more : List String} {lookups others : List Lookup}
  {usage rest : Usage} {before middle after : ScopeTree}

theorem Looks.silent (scope : Nat) (tree : ScopeTree) : Looks scope [] [] .none tree tree where
  grows := ⟨[], .refl scope tree, rfl⟩
  fresh := by simp
  found := by simp
  agrees := by simp [Usage.none]

theorem Looks.lt (first : Looks scope declared lookups usage before middle)
    (h : scope < before.next) : scope < middle.next := by
  obtain ⟨_, grows, -⟩ := first.grows
  exact Nat.lt_of_lt_of_le h grows.next_le

theorem Looks.inFunction_eq (first : Looks scope declared lookups usage before middle)
    (h : scope < before.next) : middle.inFunction scope = before.inFunction scope := by
  obtain ⟨_, grows, -⟩ := first.grows
  exact grows.inFunction_eq h

/-- Two steps of an expression, or an expression and what is done with it. -/
theorem Looks.andThen (h : scope < before.next) (first : Looks scope [] lookups usage before middle)
    (last : Looks scope more others rest middle after) :
    Looks scope more (lookups ++ others) (usage.append rest) before after := by
  obtain ⟨added, grows, none⟩ := first.grows
  obtain rfl : added = [] := List.map_eq_nil_iff.mp none
  obtain ⟨added, growsMore, names⟩ := last.grows
  refine ⟨⟨added, by simpa using grows.trans growsMore h, names⟩, ?_, ?_, ?_⟩
  · intro name member
    have fresh := last.fresh name member
    rwa [grows.symbols_eq h, List.append_nil] at fresh
  · intro lookup member
    rcases List.mem_append.mp member with member | member
    · exact first.found lookup member
    · exact last.found lookup member
  · intro final settles
    have same (name : String) : Lookup.Agrees final ⟨scope, name, middle⟩ ↔
        Lookup.Agrees final ⟨scope, name, before⟩ := by
      simp only [Lookup.Agrees, Lookup.found?, grows.nearest?_eq h]
    rw [List.forall_mem_append, first.agrees final (settles.before growsMore (first.lt h)),
      last.agrees final settles]
    simp only [Usage.ordered_append, Usage.free_append, List.forall_mem_append, same]
    constructor
    · rintro ⟨⟨a, b⟩, c, d⟩
      exact ⟨⟨a, c⟩, b, d⟩
    · rintro ⟨⟨a, c⟩, b, d⟩
      exact ⟨⟨a, b⟩, c, d⟩

/-- Seen from the scope in which a body stands, the body's own names are decided. -/
theorem BodyLooks.looks {kind : ScopeKind} {parameters : List (String × Ty)}
    (h : scope < before.next)
    (entered : (before.push scope kind).Grows before.next parameters middle)
    (body : BodyLooks before.next declared lookups usage middle after) :
    Looks scope [] lookups (usage.below (Fields.names parameters)) before after := by
  obtain ⟨added, grows, -⟩ := body.grows
  have inner : before.next < (before.push scope kind).next := by simp
  have whole := entered.trans grows inner
  refine ⟨⟨[], .inner h whole, rfl⟩, by simp, body.found, ?_⟩
  intro final settles
  obtain ⟨within, left⟩ := settles.inner h whole
  have symbols : middle.symbols before.next = parameters := by
    rw [entered.symbols_eq inner, ScopeTree.symbols, ScopeTree.getElem?_push_next, List.nil_append]
  have old : scope < after.next ∧ before.next < after.next := by
    have := whole.next_le
    rw [ScopeTree.next_push] at this
    omega
  have around (name : String) : final.outer? before.next name = middle.outer? before.next name ↔
      Lookup.Agrees final ⟨scope, name, before⟩ := by
    rw [entered.outer?_eq inner, ScopeTree.outer?_push kind h, ScopeTree.outer?,
      within.ancestors_eq old.2, whole.ancestors_inner h, List.tail_cons,
      ← settles.ancestors_eq old.1]
    rfl
  rw [body.agrees final within left, symbols]
  simp only [around, Usage.ordered_below, Usage.mem_free_below, and_imp]
  refine and_congr_right fun _ => forall_congr' fun name => forall_congr' fun _ => ?_
  exact ⟨fun known absent => known.resolve_left absent, Decidable.or_iff_not_imp_left.mpr⟩

/-- Whether a later tree agrees on a name that a statement takes from around it: the body must not
declare it from there on, and unless the body declared it before, the scopes around decide. -/
theorem agrees_iff {final : ScopeTree} {name : String} (h : scope < before.next)
    (later : scope < final.next)
    (names : Fields.names (final.symbols scope) = Fields.names (before.symbols scope) ++ declared)
    (fresh : ∀ name ∈ declared, name ∉ Fields.names (before.symbols scope)) :
    Lookup.Agrees final ⟨scope, name, before⟩ ↔ name ∉ declared ∧
      (name ∈ Fields.names (before.symbols scope) ∨
        final.outer? scope name = before.outer? scope name) := by
  simp only [Lookup.Agrees, Lookup.found?, ScopeTree.nearest?_eq h, ScopeTree.nearest?_eq later,
    names, List.mem_append]
  by_cases known : name ∈ Fields.names (before.symbols scope)
  · have new : name ∉ declared := fun member => fresh name member known
    simp [known, new]
  · by_cases next : name ∈ declared
    · simp [known, next, (ScopeTree.outer?_ne h).symm]
    · simp [known, next]

theorem BodyLooks.nil (scope : Nat) (tree : ScopeTree) :
    BodyLooks scope [] [] .none tree tree where
  grows := ⟨[], .refl scope tree, rfl⟩
  fresh := by simp
  found := by simp
  agrees := by simp [Usage.none]

/-- A statement and those behind it. -/
theorem BodyLooks.cons (h : scope < before.next)
    (first : Looks scope declared lookups usage before middle)
    (last : BodyLooks scope more others rest middle after) :
    BodyLooks scope (declared ++ more) (lookups ++ others)
      ((usage.above (declared ++ more)).append (rest.below declared)) before after := by
  obtain ⟨added, grows, rfl⟩ := first.grows
  obtain ⟨added', growsMore, rfl⟩ := last.grows
  have names : Fields.names (middle.symbols scope) =
      Fields.names (before.symbols scope) ++ Fields.names added := by
    simp [grows.symbols_eq h, Fields.names]
  have namesAll : Fields.names (after.symbols scope) =
      Fields.names (before.symbols scope) ++ (Fields.names added ++ Fields.names added') := by
    simp [growsMore.symbols_eq (first.lt h), grows.symbols_eq h, Fields.names]
  have fresh : ∀ name ∈ Fields.names added ++ Fields.names added',
      name ∉ Fields.names (before.symbols scope) := by
    intro name member known
    rcases List.mem_append.mp member with member | member
    · exact first.fresh name member known
    · exact last.fresh name member (by simp [names, known])
  refine ⟨⟨added ++ added', grows.trans growsMore h, by simp [Fields.names]⟩, fresh, ?_, ?_⟩
  · intro lookup member
    rcases List.mem_append.mp member with member | member
    · exact first.found lookup member
    · exact last.found lookup member
  · intro final settles left
    have later : scope < final.next :=
      Nat.lt_of_lt_of_le (Nat.lt_of_lt_of_le (first.lt h) growsMore.next_le) settles.next_le
    rw [List.forall_mem_append, first.agrees final (settles.before growsMore (first.lt h)),
      last.agrees final settles left]
    simp only [agrees_iff h later (left ▸ namesAll) fresh, names, grows.outer?_eq h,
      Usage.ordered_append, Usage.ordered_above, Usage.ordered_below, Usage.free_append,
      Usage.free_above, List.forall_mem_append, Usage.mem_free_below]
    constructor
    · rintro ⟨⟨ordered, own⟩, orderedRest, restNames⟩
      refine ⟨⟨⟨ordered, fun name member => (own name member).1⟩, orderedRest⟩,
        fun name member => (own name member).2, ?_⟩
      rintro name ⟨member, absent⟩
      rcases restNames name member with known | around
      · exact .inl ((List.mem_append.mp known).resolve_right absent)
      · exact .inr around
    · rintro ⟨⟨⟨ordered, apart⟩, orderedRest⟩, own, restNames⟩
      refine ⟨⟨ordered, fun name member => ⟨apart name member, own name member⟩⟩, orderedRest, ?_⟩
      intro name member
      by_cases absent : name ∈ Fields.names added
      · exact .inl (List.mem_append_right _ absent)
      · exact (restNames name ⟨member, absent⟩).imp_left (List.mem_append_left _)

end Looks

end Arbor
