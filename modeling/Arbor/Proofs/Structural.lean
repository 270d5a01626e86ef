import Mathlib.Data.List.Perm.Subperm
import Arbor.Proofs.NodeInduction
import Arbor.Proofs.Tables

/-!
# Laws of structural equality

Structural equality of object types looks for the fields of the one in the other and compares the
numbers of fields. Where no field is declared twice this is the same as to compare what the two
types have under each name, which does not depend on any order; there it is an equivalence.
-/

namespace Arbor

namespace Ty

theorem equivAll_iff {types others : List Ty} :
    equivAll types others ↔ List.Forall₂ (fun t u => t.equiv u) types others := by
  induction types generalizing others with
  | nil => cases others <;> simp [equivAll]
  | cons type rest ih =>
    cases others with
    | nil => simp [equivAll]
    | cons other more => simp [equivAll, ih]

theorem equivFields_iff {fields others : List (String × Ty)} :
    equivFields fields others ↔
      ∀ f ∈ fields, ∃ other, others.lookup f.1 = some other ∧ f.2.equiv other := by
  induction fields with
  | nil => simp [equivFields]
  | cons field rest ih =>
    obtain ⟨name, type⟩ := field
    rw [equivFields, Bool.and_eq_true, ih, List.forall_mem_cons]
    cases others.lookup name <;> simp

/-- No object type in the type declares a field twice. -/
inductive Distinct : Ty → Prop where
  | prim (p : Primitive) : Distinct (.prim p)
  | fn {parameters : List Ty} {returns : Ty} : (∀ t ∈ parameters, Distinct t) → Distinct returns →
      Distinct (.fn parameters returns)
  | obj {fields : List (String × Ty)} : (Fields.names fields).Nodup →
      (∀ f ∈ fields, Distinct f.2) → Distinct (.obj fields)
  | list : Distinct .list

/-- Where no field is declared twice, object types are equal when they have the same fields with
equal types. The fields of the one are looked for in the other only, so the converse inclusion is
for the numbers of fields to give. -/
theorem obj_equiv_iff {fields others : List (String × Ty)} (apart : (Fields.names fields).Nodup) :
    (Ty.obj fields).equiv (.obj others) ↔
      (Fields.names others).Nodup ∧ Fields.Match (fun t u => t.equiv u) fields others := by
  rw [equiv, Bool.and_eq_true, beq_iff_eq, equivFields_iff]
  constructor
  · rintro ⟨size, found⟩
    have inside : Fields.names fields ⊆ Fields.names others := by
      intro name member
      obtain ⟨field, declared, rfl⟩ := List.mem_map.mp member
      obtain ⟨other, given, -⟩ := found field declared
      exact Fields.lookup_isSome.mp (by rw [given]; rfl)
    have sizes : (Fields.names others).length ≤ (Fields.names fields).length := by
      simp [Fields.names, size]
    have perm := (List.subperm_of_subset apart inside).perm_of_length_le sizes
    refine ⟨perm.nodup_iff.mp apart, fun name => perm.mem_iff, ?_⟩
    intro name type other given given'
    obtain ⟨_, again, same⟩ := found (name, type) (Fields.mem_of_lookup given)
    rw [given'] at again
    cases again
    exact same
  · rintro ⟨apartOthers, matched⟩
    refine ⟨matched.length_eq apart apartOthers, ?_⟩
    intro field declared
    exact matched.exists_value (Fields.lookup_of_mem apart declared)

theorem fn_equiv_iff {parameters others : List Ty} {returns result : Ty} :
    (Ty.fn parameters returns).equiv (.fn others result) ↔
      List.Forall₂ (fun t u => t.equiv u) parameters others ∧ returns.equiv result := by
  rw [equiv, Bool.and_eq_true, equivAll_iff]

theorem prim_equiv_iff {p : Primitive} {other : Ty} : (Ty.prim p).equiv other ↔ other = .prim p := by
  cases other with
  | prim q =>
    rw [equiv, beq_iff_eq, Ty.prim.injEq]
    exact eq_comm
  | _ => simp [equiv]

namespace Distinct

variable {type other third : Ty}

theorem equiv_refl (distinct : type.Distinct) : type.equiv type := by
  induction distinct with
  | prim p => exact prim_equiv_iff.mpr rfl
  | fn _ _ parametersIH returnsIH =>
    exact fn_equiv_iff.mpr ⟨List.forall₂_same.mpr parametersIH, returnsIH⟩
  | @obj fields apart _ ih =>
    refine (obj_equiv_iff apart).mpr ⟨apart, fun _ => Iff.rfl, ?_⟩
    intro name t u found again
    rw [found] at again
    cases again
    exact ih _ (Fields.mem_of_lookup found)
  | list => rfl

/-- Types that are equal to a third one are equal. -/
theorem equiv_of_equiv (distinct : type.Distinct) (same : type.equiv other)
    (again : type.equiv third) : other.equiv third := by
  induction distinct generalizing other third with
  | prim p =>
    rw [prim_equiv_iff.mp same, prim_equiv_iff.mp again]
    exact prim_equiv_iff.mpr rfl
  | @fn parameters returns inner _ parametersIH returnsIH =>
    cases other with
    | fn others result =>
      cases third with
      | fn thirds last =>
        obtain ⟨pairs, results⟩ := fn_equiv_iff.mp same
        obtain ⟨pairs', results'⟩ := fn_equiv_iff.mp again
        refine fn_equiv_iff.mpr ⟨?_, returnsIH results results'⟩
        clear same again inner
        induction pairs generalizing thirds with
        | nil =>
          cases pairs'
          exact .nil
        | cons first rest ih =>
          cases pairs' with
          | cons first' rest' =>
            have inside := parametersIH _ List.mem_cons_self first first'
            exact .cons inside (ih (fun t ht => parametersIH t (by simp [ht])) _ rest')
      | _ => cases again
    | _ => cases same
  | @obj fields apart _ ih =>
    cases other with
    | obj others =>
      cases third with
      | obj thirds =>
        obtain ⟨apart', matched⟩ := (obj_equiv_iff apart).mp same
        obtain ⟨apart'', matched'⟩ := (obj_equiv_iff apart).mp again
        refine (obj_equiv_iff apart').mpr ⟨apart'', ?_, ?_⟩
        · intro name
          rw [← matched.mem_names, matched'.mem_names]
        · intro name t u found found'
          obtain ⟨origin, given, -⟩ := matched.flip.exists_value found
          have inside := Fields.mem_of_lookup given
          exact ih _ inside (matched.values given found) (matched'.values given found')
      | _ => cases again
    | _ => cases same
  | list =>
    cases other with
    | list => exact again
    | _ => cases same

theorem of_equiv (distinct : type.Distinct) (same : type.equiv other) : other.Distinct := by
  induction distinct generalizing other with
  | prim p =>
    rw [prim_equiv_iff.mp same]
    exact .prim p
  | @fn parameters returns inner _ parametersIH returnsIH =>
    cases other with
    | fn others result =>
      obtain ⟨pairs, results⟩ := fn_equiv_iff.mp same
      refine .fn ?_ (returnsIH results)
      clear same inner
      induction pairs with
      | nil => simp
      | cons first rest ih =>
        have inside := parametersIH _ List.mem_cons_self first
        have others := ih fun t ht => parametersIH t (by simp [ht])
        simpa using ⟨inside, others⟩
    | _ => cases same
  | @obj fields apart _ ih =>
    cases other with
    | obj others =>
      obtain ⟨apart', matched⟩ := (obj_equiv_iff apart).mp same
      refine .obj apart' ?_
      intro field declared
      have found := Fields.lookup_of_mem apart' declared
      obtain ⟨origin, given, -⟩ := matched.flip.exists_value found
      exact ih _ (Fields.mem_of_lookup given) (matched.values given found)
    | _ => cases same
  | list =>
    cases other with
    | list => exact .list
    | _ => cases same

theorem equiv_symm (distinct : type.Distinct) (same : type.equiv other) : other.equiv type :=
  distinct.equiv_of_equiv same distinct.equiv_refl

theorem equiv_trans (distinct : type.Distinct) (same : type.equiv other)
    (next : other.equiv third) : type.equiv third :=
  (distinct.of_equiv same).equiv_of_equiv (distinct.equiv_symm same) next

end Distinct

end Ty

end Arbor
