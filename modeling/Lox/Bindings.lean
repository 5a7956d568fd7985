/-!
# Bindings of names

A finite map from names to values, kept as a list in which every name stands at
most once.  Setting a name that is already bound replaces its value and keeps its
place.

**View.** `get?` is all that can be seen of a map: `get?_set` says what it answers
after a change.
-/

namespace Lox

/-- A finite map from names to values. -/
structure Bindings (α : Type) where
  /-- The bound names with their values. -/
  entries : List (String × α)

namespace Bindings

variable {α : Type}

/-- The map that binds no name. -/
def empty : Bindings α := ⟨[]⟩

/-- The value of the first entry for a name. -/
def find? (name : String) : List (String × α) → Option α
  | [] => none
  | (key, value) :: entries => if key = name then some value else find? name entries

/-- The value of a name. -/
def get? (b : Bindings α) (name : String) : Option α := find? name b.entries

/-- Replaces the value of the first entry for a name, or adds an entry at the
end. -/
def replace (name : String) (value : α) : List (String × α) → List (String × α)
  | [] => [(name, value)]
  | (key, old) :: entries =>
    if key = name then (key, value) :: entries
    else (key, old) :: replace name value entries

/-- Binds a name to a value. -/
def set (b : Bindings α) (name : String) (value : α) : Bindings α :=
  ⟨replace name value b.entries⟩

/-- A name has a value. -/
def contains (b : Bindings α) (name : String) : Bool := (b.get? name).isSome

@[simp] theorem get?_empty (name : String) : (empty : Bindings α).get? name = none := rfl

theorem find?_replace (name other : String) (value : α) (entries : List (String × α)) :
    find? other (replace name value entries) =
      if name = other then some value else find? other entries := by
  induction entries with
  | nil => rfl
  | cons entry entries ih =>
    obtain ⟨key, old⟩ := entry
    by_cases hkey : key = name
    · subst hkey
      by_cases hother : key = other <;> simp [replace, find?, hother]
    · by_cases hother : key = other
      · subst hother
        simp [replace, find?, hkey, Ne.symm hkey]
      · simp [replace, find?, hkey, hother, ih]

/-- A set name has the new value and every other name keeps its own. -/
@[simp] theorem get?_set (b : Bindings α) (name other : String) (value : α) :
    (b.set name value).get? other = if name = other then some value else b.get? other :=
  find?_replace name other value b.entries

end Bindings

end Lox
