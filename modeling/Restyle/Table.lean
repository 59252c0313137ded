/-!
# Tables

A table holds values under names, in the order in which the names came first.
-/

namespace Restyle

/-- Values under distinct names, in order. -/
abbrev Table (α : Type) := List (String × α)

namespace Table

variable {α : Type}

/-- The value under a name. -/
def get? : Table α → String → Option α
  | [], _ => none
  | (k, v) :: rest, name => if k = name then some v else get? rest name

/-- Whether there is a value under a name. -/
def has (t : Table α) (name : String) : Bool :=
  (t.get? name).isSome

/-- Puts a value under a name: a known name keeps its place, a new one goes to the end. -/
def set : Table α → String → α → Table α
  | [], name, value => [(name, value)]
  | (k, v) :: rest, name, value =>
    if k = name then (k, value) :: rest else (k, v) :: set rest name value

/-- Removes a name. -/
def erase : Table α → String → Table α
  | [], _ => []
  | (k, v) :: rest, name => if k = name then rest else (k, v) :: erase rest name

/-- Changes the value under a name that is present. -/
def modify (t : Table α) (name : String) (f : α → α) : Table α :=
  t.map fun (k, v) => if k = name then (k, f v) else (k, v)

/-- The names in order. -/
def names (t : Table α) : List String := t.map (·.1)

/-- The values in order. -/
def values (t : Table α) : List α := t.map (·.2)

/-- The table of a list of pairs; a repeated name keeps its place and takes the last value. -/
def ofList (pairs : List (String × α)) : Table α :=
  pairs.foldl (fun t (k, v) => t.set k v) []

/-- Reading the name just set gives the value set. -/
@[simp] theorem get?_set_self (t : Table α) (name : String) (value : α) :
    (t.set name value).get? name = some value := by
  induction t with
  | nil => simp [set, get?]
  | cons entry t ih =>
      obtain ⟨k, v⟩ := entry
      by_cases h : k = name <;> simp [set, get?, h, ih]

/-- Setting a name leaves every other name alone. -/
theorem get?_set_of_ne (t : Table α) {name other : String} (value : α) (h : name ≠ other) :
    (t.set name value).get? other = t.get? other := by
  induction t with
  | nil => simp [set, get?, h]
  | cons entry t ih =>
      obtain ⟨k, v⟩ := entry
      by_cases hk : k = name
      · subst hk
        simp [set, get?, h]
      · by_cases ho : k = other
        · subst ho
          simp [set, get?, hk]
        · simp [set, get?, hk, ho, ih]

/-- Setting a known name keeps the names; setting a new one appends it. -/
theorem names_set (t : Table α) (name : String) (value : α) :
    (t.set name value).names = if name ∈ t.names then t.names else t.names ++ [name] := by
  induction t with
  | nil => simp [set, names]
  | cons entry t ih =>
      obtain ⟨k, v⟩ := entry
      by_cases h : k = name
      · subst h
        simp [set, names]
      · have h' : name ≠ k := fun e => h e.symm
        simp only [names] at ih
        by_cases hm : name ∈ List.map (·.1) t <;> simp_all [set, names]

end Table

end Restyle
