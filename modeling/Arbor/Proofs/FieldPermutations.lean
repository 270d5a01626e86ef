import Mathlib.Data.List.Nodup
import Mathlib.Logic.Relation
import Arbor.Proofs.Reordering

/-!
# Structural equality is reordering

Two types are structurally equal exactly when the one becomes the other by permutations, each of the
fields of one object type, at any depth. One permutation leads to an equal type, and so do many,
since types that declare no field twice are compared by an equivalence. The way back goes from the
inside out: the types inside are reordered first, one behind the other, and then the fields.
-/

namespace Arbor

section Related

variable {α β : Type} {related : α → β → Prop}

/-- Of two tables that match, the one is the other in another order with related values. -/
theorem Fields.Match.exists_reordered {fields : List (String × α)} {other : List (String × β)}
    (matched : Match related fields other) (apart : (names fields).Nodup)
    (apartOther : (names other).Nodup) :
    ∃ kept, List.Forall₂ (Entry related) fields kept ∧ kept.Perm other := by
  have parts : ∀ f ∈ fields, ∃ e, Entry related f e ∧ e ∈ other := by
    rintro ⟨name, value⟩ member
    obtain ⟨value', found, holds⟩ := matched.exists_value (lookup_of_mem apart member)
    exact ⟨(name, value'), .mk holds, mem_of_lookup found⟩
  obtain ⟨kept, pairs⟩ := exists_forall₂ parts
  have entries := pairs.imp fun _ _ both => both.1
  have inside : kept ⊆ other := by
    intro e member
    obtain ⟨_, -, -, found⟩ := exists_of_mem_forall₂ pairs e member
    exact found
  have nodup : kept.Nodup := by
    rw [names_eq_of_entries entries] at apart
    exact apart.of_map
  have sizes : other.length ≤ kept.length :=
    Nat.le_of_eq ((matched.length_eq apart apartOther).symm.trans pairs.length_eq)
  exact ⟨kept, entries, (List.subperm_of_subset nodup inside).perm_of_length_le sizes⟩

end Related

namespace Ty

/-- The fields of one object type, which is the type or stands in it at any depth, are put in
another order. -/
inductive Permutes : Ty → Ty → Prop where
  | here {fields fields' : List (String × Ty)} : fields.Perm fields' →
      Permutes (.obj fields) (.obj fields')
  | field {front back : List (String × Ty)} {name : String} {type type' : Ty} :
      Permutes type type' →
      Permutes (.obj (front ++ (name, type) :: back)) (.obj (front ++ (name, type') :: back))
  | parameter {front back : List Ty} {type type' returns : Ty} : Permutes type type' →
      Permutes (.fn (front ++ type :: back) returns) (.fn (front ++ type' :: back) returns)
  | result {parameters : List Ty} {returns returns' : Ty} : Permutes returns returns' →
      Permutes (.fn parameters returns) (.fn parameters returns')

/-- The one type becomes the other by permutations of fields. -/
def Reordered : Ty → Ty → Prop :=
  Relation.ReflTransGen Permutes

variable {type other third : Ty}

/-! ## Permutations lead to equal types -/

theorem obj_equiv_of_entries {fields kept others : List (String × Ty)}
    (apart : (Fields.names fields).Nodup)
    (pairs : List.Forall₂ (Fields.Entry fun t u => t.equiv u) fields kept)
    (perm : kept.Perm others) : (Ty.obj fields).equiv (.obj others) :=
  (obj_equiv_iff apart).mpr
    ⟨Fields.nodup_of_reordered apart pairs perm, Fields.match_of_reordered apart pairs perm⟩

theorem types_equiv_refl {types : List Ty} (distinct : ∀ t ∈ types, t.Distinct) :
    List.Forall₂ (fun t u => t.equiv u) types types :=
  List.forall₂_same.mpr fun t member => (distinct t member).equiv_refl

theorem fields_equiv_refl {fields : List (String × Ty)} (distinct : ∀ f ∈ fields, f.2.Distinct) :
    List.Forall₂ (Fields.Entry fun t u => t.equiv u) fields fields :=
  List.forall₂_same.mpr fun f member => .mk (distinct f member).equiv_refl

/-- One permutation leads to an equal type. -/
theorem Permutes.equiv (step : type.Permutes other) (distinct : type.Distinct) :
    type.equiv other := by
  induction step with
  | here perm =>
    cases distinct with
    | obj apart inner => exact obj_equiv_of_entries apart (fields_equiv_refl inner) perm
  | @field front back name _ _ step ih =>
    cases distinct with
    | obj apart inner =>
      simp only [List.forall_mem_append, List.forall_mem_cons] at inner
      obtain ⟨before, here, behind⟩ := inner
      have entry : Fields.Entry (fun t u : Ty => t.equiv u) (name, _) (name, _) := .mk (ih here)
      have pairs := List.rel_append (fields_equiv_refl before) (.cons entry (fields_equiv_refl behind))
      exact obj_equiv_of_entries apart pairs (.refl _)
  | parameter step ih =>
    cases distinct with
    | fn inner returns =>
      simp only [List.forall_mem_append, List.forall_mem_cons] at inner
      obtain ⟨before, here, behind⟩ := inner
      have pairs := List.rel_append (types_equiv_refl before) (.cons (ih here) (types_equiv_refl behind))
      exact fn_equiv_iff.mpr ⟨pairs, returns.equiv_refl⟩
  | result step ih =>
    cases distinct with
    | fn inner returns => exact fn_equiv_iff.mpr ⟨types_equiv_refl inner, ih returns⟩

theorem Reordered.equiv (reordered : type.Reordered other) (distinct : type.Distinct) :
    type.equiv other := by
  induction reordered with
  | refl => exact distinct.equiv_refl
  | tail _ step ih => exact distinct.equiv_trans ih (step.equiv (distinct.of_equiv ih))

/-! ## Equal types are reordered -/

/-- Parts of a type that are reordered one by one are reordered together, from the front to the
back. -/
theorem reordered_of_forall₂ {α : Type} {related : α → α → Prop} {items others : List α}
    (build : List α → Ty)
    (one : ∀ {front back : List α} {item other : α}, related item other →
      (build (front ++ item :: back)).Reordered (build (front ++ other :: back)))
    (pairs : List.Forall₂ related items others) (front : List α) :
    (build (front ++ items)).Reordered (build (front ++ others)) := by
  induction pairs generalizing front with
  | nil => exact .refl
  | @cons first first' rest rest' here _ ih =>
    have more := ih (front ++ [first'])
    rw [List.append_assoc, List.append_assoc] at more
    exact (one here).trans more

theorem reordered_parameters {parameters others : List Ty}
    (pairs : List.Forall₂ Reordered parameters others) (returns : Ty) :
    (Ty.fn parameters returns).Reordered (.fn others returns) := by
  refine reordered_of_forall₂ (fun types => .fn types returns) ?_ pairs []
  intro front back _ _ here
  exact here.lift (fun t => Ty.fn (front ++ t :: back) returns) fun _ _ => .parameter

theorem reordered_fields {fields kept : List (String × Ty)}
    (pairs : List.Forall₂ (Fields.Entry Reordered) fields kept) :
    (Ty.obj fields).Reordered (.obj kept) := by
  refine reordered_of_forall₂ .obj ?_ pairs []
  rintro front back _ _ ⟨here⟩
  exact here.lift (fun t => Ty.obj (front ++ (_, t) :: back)) fun _ _ => .field

/-- Equal types are reordered from the inside out. -/
theorem Distinct.reordered (distinct : type.Distinct) (same : type.equiv other) :
    type.Reordered other := by
  induction distinct generalizing other with
  | prim p =>
    rw [prim_equiv_iff.mp same]
    exact .refl
  | fn _ _ parametersIH returnsIH =>
    cases other with
    | fn others result =>
      obtain ⟨pairs, results⟩ := fn_equiv_iff.mp same
      have inside := forall₂_refine pairs fun t member _ => parametersIH t member
      have last : (Ty.fn others _).Reordered (.fn others result) :=
        (returnsIH results).lift (Ty.fn others) fun _ _ => .result
      exact (reordered_parameters inside _).trans last
    | _ => cases same
  | obj apart _ ih =>
    cases other with
    | obj others =>
      obtain ⟨apart', matched⟩ := (obj_equiv_iff apart).mp same
      obtain ⟨kept, pairs, perm⟩ := matched.exists_reordered apart apart'
      have inside := Fields.entries_refine pairs fun f member _ => ih f member
      exact (reordered_fields inside).tail (.here perm)
    | _ => cases same
  | list =>
    cases other with
    | list => exact .refl
    | _ => cases same

/-- Structurally equal types are of one tag. -/
theorem tag_eq_of_equiv (same : type.equiv other) :
    type.tag = other.tag ∧ type.primitive? = other.primitive? := by
  cases type with
  | prim p =>
    rw [prim_equiv_iff.mp same]
    exact ⟨rfl, rfl⟩
  | fn parameters returns =>
    cases other with
    | fn others result => exact ⟨rfl, rfl⟩
    | _ => cases same
  | obj fields =>
    cases other with
    | obj others => exact ⟨rfl, rfl⟩
    | _ => cases same
  | list =>
    cases other with
    | list => exact ⟨rfl, rfl⟩
    | _ => cases same

/-- On types that declare no field twice, structural equality is to be reached by permutations of
fields. So it is an equivalence, and equal types are of one tag and are one primitive type or none. -/
theorem equiv_iff_reordered (distinct : type.Distinct) :
    (type.equiv other ↔ type.Reordered other) ∧
      (type.equiv type ∧ (type.equiv other → other.equiv type) ∧
        (type.equiv other → other.equiv third → type.equiv third)) ∧
      (type.equiv other → type.tag = other.tag ∧ type.primitive? = other.primitive? ∧
        type.isNumeric = other.isNumeric) := by
  refine ⟨⟨distinct.reordered, fun reordered => reordered.equiv distinct⟩,
    ⟨distinct.equiv_refl, distinct.equiv_symm, distinct.equiv_trans⟩, ?_⟩
  intro same
  obtain ⟨tags, primitives⟩ := tag_eq_of_equiv same
  exact ⟨tags, primitives, by rw [isNumeric, isNumeric, primitives]⟩

/-- A function of a point in the plane, with the fields of the point in either order. -/
def mover (point : List (String × Ty)) : Ty :=
  .fn [.obj [("to", .obj point), ("steps", .prim .int)]] (.obj point)

theorem equiv_iff_reordered_of_mover :
    let point : List (String × Ty) := [("x", .prim .float), ("y", .prim .float)]
    (mover point).Distinct ∧ (mover point).Reordered (mover point.reverse) ∧
      (mover point).tag = (mover point.reverse).tag := by
  intro point
  have inner : (Ty.obj point).Distinct := .obj (by decide) (by simp [point, Distinct.prim])
  have argument : (Ty.obj [("to", .obj point), ("steps", .prim .int)]).Distinct :=
    .obj (by decide) (by simp [inner, Distinct.prim])
  have distinct : (mover point).Distinct := .fn (List.forall_mem_singleton.mpr argument) inner
  have laws := @equiv_iff_reordered _ (mover point.reverse) .list distinct
  exact ⟨distinct, laws.1.mp rfl, (laws.2.2 rfl).1⟩

end Ty

end Arbor
