import Mathlib.Data.List.Perm.Basic
import Arbor.Fields

/-!
# Looking names up in tables

Tables are lists of entries and the first entry of a name counts. These are the facts about
`List.lookup` that proofs about scopes and object fields share. Where no name stands twice, a table
is known by what it has under each name, in whatever order.
-/

namespace Arbor.Fields

variable {α β : Type}

/-- Looking an entry up does not depend on what the entries are turned into. -/
theorem lookup_map (f : α → β) (name : String) (fields : List (String × α)) :
    (fields.map fun field => (field.1, f field.2)).lookup name = (fields.lookup name).map f := by
  induction fields with
  | nil => rfl
  | cons field rest ih =>
    rw [List.map_cons, List.lookup_cons, List.lookup_cons, ih]
    cases name == field.1 <;> rfl

theorem mem_of_lookup {name : String} {value : α} {fields : List (String × α)}
    (found : fields.lookup name = some value) : (name, value) ∈ fields := by
  obtain ⟨front, back, rfl, -⟩ := List.lookup_eq_some_iff.mp found
  simp

/-- A name is found exactly when it is among the names of the table. -/
theorem lookup_isSome {name : String} {fields : List (String × α)} :
    (fields.lookup name).isSome ↔ name ∈ names fields := by
  simp only [List.lookup_isSome_iff, names, List.mem_map, beq_iff_eq]
  constructor
  · rintro ⟨entry, member, rfl⟩
    exact ⟨entry, member, rfl⟩
  · rintro ⟨entry, member, rfl⟩
    exact ⟨entry, member, rfl⟩

theorem lookup_eq_none {name : String} {fields : List (String × α)} :
    fields.lookup name = none ↔ name ∉ names fields := by
  rw [← lookup_isSome, Option.not_isSome_iff_eq_none]

theorem lookup_of_mem {fields : List (String × α)} (apart : (names fields).Nodup) {name : String}
    {value : α} (member : (name, value) ∈ fields) : fields.lookup name = some value := by
  induction fields with
  | nil => cases member
  | cons field rest ih =>
    obtain ⟨fresh, apart⟩ := List.nodup_cons.mp apart
    rw [List.lookup_cons]
    rcases List.mem_cons.mp member with rfl | member
    · simp
    · have other : (name == field.1) = false := by
        rw [beq_eq_false_iff_ne]
        rintro rfl
        exact fresh (List.mem_map.mpr ⟨_, member, rfl⟩)
      rw [other]
      exact ih apart member

/-- Where no name stands twice, the order of the entries does not matter. -/
theorem lookup_perm {fields other : List (String × α)} (apart : (names fields).Nodup)
    (perm : fields.Perm other) (name : String) : fields.lookup name = other.lookup name := by
  have apartOther : (names other).Nodup := (perm.map Prod.fst).nodup_iff.mp apart
  cases found : fields.lookup name with
  | some value => exact (lookup_of_mem apartOther (perm.mem_iff.mp (mem_of_lookup found))).symm
  | none =>
    rw [lookup_eq_none] at found
    exact (lookup_eq_none.mpr fun named => found ((perm.map Prod.fst).mem_iff.mpr named)).symm

/-- The tables have the same names, and related values under each of them. -/
structure Match (related : α → β → Prop) (fields : List (String × α))
    (other : List (String × β)) : Prop where
  mem_names : ∀ name, name ∈ names fields ↔ name ∈ names other
  values : ∀ {name value value'}, fields.lookup name = some value →
    other.lookup name = some value' → related value value'

namespace Match

variable {related : α → β → Prop} {fields : List (String × α)} {other : List (String × β)}

theorem exists_value (matched : Match related fields other) {name : String} {value : α}
    (found : fields.lookup name = some value) :
    ∃ value', other.lookup name = some value' ∧ related value value' := by
  have named : name ∈ names fields := lookup_isSome.mp (by rw [found]; rfl)
  obtain ⟨value', found'⟩ :=
    Option.isSome_iff_exists.mp (lookup_isSome.mpr ((matched.mem_names name).mp named))
  exact ⟨value', found', matched.values found found'⟩

theorem flip (matched : Match related fields other) :
    Match (fun value' value => related value value') other fields where
  mem_names name := (matched.mem_names name).symm
  values found' found := matched.values found found'

/-- What is found under a name is the same, once the values are turned into something that related
values share. -/
theorem lookup_map_eq {γ : Type} {f : α → γ} {g : β → γ}
    (matched : Match (fun value value' => g value' = f value) fields other) (name : String) :
    (other.lookup name).map g = (fields.lookup name).map f := by
  cases found : fields.lookup name with
  | some value =>
    obtain ⟨value', found', same⟩ := matched.exists_value found
    rw [found', Option.map_some, Option.map_some, same]
  | none =>
    rw [lookup_eq_none, matched.mem_names] at found
    rw [lookup_eq_none.mpr found]
    rfl

theorem length_eq (matched : Match related fields other) (apart : (names fields).Nodup)
    (apartOther : (names other).Nodup) : fields.length = other.length := by
  have perm := (List.perm_ext_iff_of_nodup apart apartOther).mpr matched.mem_names
  simpa [names] using perm.length_eq

end Match

end Arbor.Fields
