/-!
# Tables

An association list read as a map: the first entry under a key counts, and setting a key that is
there replaces its value in place.  Tables keep the order in which their keys arrived, because that
order shows wherever a table is printed or walked, and a table built by `set` holds no key twice.
-/

namespace Colloquy

/-- Values under names, in order of arrival. -/
abbrev Table (α : Type) := List (String × α)

namespace Table

variable {α : Type}

/-- The value under a key. -/
def get? (table : Table α) (key : String) : Option α := table.lookup key

/-- There is a value under the key. -/
def has (table : Table α) (key : String) : Bool := (get? table key).isSome

/-- The keys in order. -/
def keys (table : Table α) : List String := table.map (·.1)

/-- Gives a key a value: in place if the key is there, and otherwise at the end. -/
def set : Table α → String → α → Table α
  | [], key, value => [(key, value)]
  | (k, v) :: rest, key, value =>
    if k = key then (key, value) :: rest else (k, v) :: set rest key value

/-- Sets every entry of the second table in the first, in order. -/
def overlay (base top : Table α) : Table α := top.foldl (fun acc m => acc.set m.1 m.2) base

/-- The table of some entries, a later one overriding an earlier one in place. -/
def ofList (entries : List (String × α)) : Table α := overlay [] entries

theorem get?_cons (k : String) (v : α) (rest : Table α) (key : String) :
    get? ((k, v) :: rest) key = if key = k then some v else get? rest key := by
  by_cases h : key = k
  · simp [get?, h]
  · have : (key == k) = false := by simpa using h
    simp [get?, h, List.lookup_cons, this]

@[simp] theorem get?_set_self (table : Table α) (key : String) (value : α) :
    (table.set key value).get? key = some value := by
  induction table with
  | nil => simp [set, get?]
  | cons m rest ih =>
    obtain ⟨k, v⟩ := m
    by_cases h : k = key
    · simp [set, h, get?]
    · simp [set, h, get?_cons, Ne.symm h, ih]

@[simp] theorem get?_set_of_ne (table : Table α) {key other : String} (value : α)
    (h : other ≠ key) : (table.set key value).get? other = table.get? other := by
  induction table with
  | nil =>
    have : (other == key) = false := by simpa using h
    simp [set, get?, List.lookup_cons, this]
  | cons m rest ih =>
    obtain ⟨k, v⟩ := m
    by_cases hk : k = key
    · subst hk
      simp [set, get?_cons, h]
    · simp [set, hk, get?_cons, ih]

end Table

end Colloquy
