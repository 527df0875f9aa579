/-
Finite maps from names, for functions and variables.

A name is bound at most once; putting a name in again replaces what it
was bound to.

Main fact: a map answers with what was put in last, and otherwise as
before (`find?_insert`).
-/
namespace Reckoner

/-- Things found by name, each name at most once. -/
structure NameMap (α : Type) where
  entries : List (String × α)
  deriving DecidableEq, Repr

namespace NameMap

variable {α : Type}

-- ========================================================= the operations

def empty : NameMap α := ⟨[]⟩

def find? (map : NameMap α) (name : String) : Option α :=
  map.entries.lookup name

def contains (map : NameMap α) (name : String) : Bool :=
  (map.find? name).isSome

def isEmpty (map : NameMap α) : Bool := map.entries.isEmpty

/-- The map with a name bound anew. -/
def insert (map : NameMap α) (name : String) (x : α) : NameMap α :=
  ⟨(name, x) :: map.entries.filter fun entry => entry.1 != name⟩

/-- The map of a list of bindings, of which later ones replace earlier
ones. -/
def ofList (bindings : List (String × α)) : NameMap α :=
  bindings.foldl (fun map binding => map.insert binding.1 binding.2) empty

-- ============================================================== the facts

/-- Leaving out one name does not hide another. -/
private theorem lookup_filter_ne {name other : String} (h : other ≠ name) :
    ∀ entries : List (String × α),
      (entries.filter fun entry => entry.1 != name).lookup other
        = entries.lookup other
  | [] => rfl
  | (key, x) :: rest => by
      have ih := lookup_filter_ne h rest
      by_cases hkey : key = name
      · subst hkey
        have hne : (other == key) = false := by simpa using h
        simp [List.lookup_cons, ih, hne]
      · by_cases hother : other = key
        · subst hother
          simp [h]
        · simp [List.lookup_cons, ih, hkey]

/-- A map answers with what was put in last, and otherwise as before. -/
theorem find?_insert (map : NameMap α) (name other : String) (x : α) :
    (map.insert name x).find? other
      = if other = name then some x else map.find? other := by
  by_cases h : other = name
  · subst h
    simp [find?, insert]
  · have hne : (other == name) = false := by simpa using h
    simp [find?, insert, List.lookup_cons, hne, h, lookup_filter_ne h]

/-- A name is bound exactly when it is found. -/
theorem contains_eq_true_iff {map : NameMap α} {name : String} :
    map.contains name = true ↔ ∃ x, map.find? name = some x := by
  simp [contains, Option.isSome_iff_exists]

/-- What is found is one of the entries. -/
theorem mem_entries_of_find? {map : NameMap α} {name : String} {x : α}
    (h : map.find? name = some x) : (name, x) ∈ map.entries := by
  obtain ⟨before, after, hentries, -⟩ := List.lookup_eq_some_iff.mp h
  simp [hentries]

end NameMap

/-- The variables that are bound. -/
abbrev Bindings := NameMap Float

end Reckoner
