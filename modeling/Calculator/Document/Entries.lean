/-!
# Entries

Values under keys, each key once, in the order in which the keys first came. Putting a value under
a key again replaces the value and keeps its place.
-/

namespace Calculator

/-- A list of keys with their values. -/
abbrev Entries (α : Type) := List (String × α)

namespace Entries

variable {α : Type}

/-- Puts a value under a key. -/
def put (key : String) (value : α) : Entries α → Entries α
  | [] => [(key, value)]
  | entry :: entries =>
    if entry.1 = key then (key, value) :: entries else entry :: put key value entries

/-- The value under a key. -/
def get? (key : String) : Entries α → Option α
  | [] => none
  | entry :: entries => if entry.1 = key then some entry.2 else get? key entries

/-- The entries of a list of keys with values, a later value in place of an earlier one. -/
def ofList (pairs : List (String × α)) : Entries α :=
  pairs.foldl (fun entries pair => entries.put pair.1 pair.2) []

/-- What is under a key after a value was put under a key. -/
theorem get?_put (entries : Entries α) (key other : String) (value : α) :
    (entries.put key value).get? other =
      if key = other then some value else entries.get? other := by
  induction entries with
  | nil => simp [put, get?]
  | cons entry entries ih =>
    rw [put]
    by_cases hkey : entry.1 = key
    · subst hkey
      by_cases hother : entry.1 = other <;> simp [get?, hother]
    · rw [if_neg hkey, get?, get?, ih]
      by_cases hother : entry.1 = other
      · rw [if_pos hother, if_pos hother, if_neg fun h => hkey (hother.trans h.symm)]
      · rw [if_neg hother, if_neg hother]

end Entries

end Calculator
