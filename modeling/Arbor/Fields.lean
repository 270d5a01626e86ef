/-!
# Ordered tables

A table from names to values is the list of its entries in the order in which their names
first appeared. Writing to a name that is present keeps its place and changes its value.
-/

namespace Arbor.Fields

variable {α : Type}

/-- The names of a table, in order. -/
def names (fields : List (String × α)) : List String :=
  fields.map Prod.fst

/-- The table with `name` bound to `value`. -/
def insert (name : String) (value : α) : List (String × α) → List (String × α)
  | [] => [(name, value)]
  | entry :: rest =>
    if entry.1 = name then (name, value) :: rest else entry :: insert name value rest

/-- The table that a sequence of writes leaves behind. -/
def ofPairs (pairs : List (String × α)) : List (String × α) :=
  pairs.foldl (fun fields p => insert p.1 p.2 fields) []

/-- A write keeps the names when its own is among them, and adds it at the end otherwise. -/
theorem names_insert (name : String) (value : α) (fields : List (String × α)) :
    names (insert name value fields) =
      if name ∈ names fields then names fields else names fields ++ [name] := by
  induction fields with
  | nil => simp [insert, names]
  | cons entry rest ih =>
    by_cases h : entry.1 = name
    · simp [insert, names, h]
    · have h' : ¬name = entry.1 := fun e => h e.symm
      simp only [insert, h, ↓reduceIte, names, List.map_cons, List.mem_cons, h', false_or] at ih ⊢
      rw [ih]
      split <;> simp_all

/-- No name appears twice after a write to a table in which none does. -/
theorem nodup_names_insert {name : String} {value : α} {fields : List (String × α)}
    (h : (names fields).Nodup) : (names (insert name value fields)).Nodup := by
  rw [names_insert]
  split
  · exact h
  · next hn =>
    rw [List.nodup_append]
    exact ⟨h, by simp, fun a ha b hb => by rintro rfl; simp at hb; exact hn (hb ▸ ha)⟩

/-- No name appears twice in a table built by writes. -/
theorem nodup_names_ofPairs (pairs : List (String × α)) : (names (ofPairs pairs)).Nodup := by
  have step : ∀ (start : List (String × α)), (names start).Nodup →
      (names (pairs.foldl (fun fields p => insert p.1 p.2 fields) start)).Nodup := by
    induction pairs with
    | nil => exact fun _ h => h
    | cons p rest ih => exact fun start h => ih _ (nodup_names_insert h)
  exact step [] (by simp [names])

end Arbor.Fields
