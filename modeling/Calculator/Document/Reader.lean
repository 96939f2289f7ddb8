/-!
# Readers

A reader takes a value off the front of a text, and some of the text with it. Since it shortens
the text, it can be repeated until it fails.
-/

namespace Calculator

/-- A function that takes a value off a text, or fails; what is left is shorter. -/
structure Reader (α : Type) where
  read : List Char → Option (α × List Char)
  shortens : ∀ {cs rest : List Char} {a : α}, read cs = some (a, rest) → rest.length < cs.length

namespace Reader

variable {α : Type}

/-- Reads values as long as there are any. -/
def many (r : Reader α) (cs : List Char) : List α × List Char :=
  match _h : r.read cs with
  | some (a, rest) =>
    let more := r.many rest
    (a :: more.1, more.2)
  | none => ([], cs)
termination_by cs.length
decreasing_by exact r.shortens _h

/-- Where no value can be read there are none, and nothing is taken. -/
theorem many_eq_nil {r : Reader α} {cs : List Char} (h : r.read cs = none) :
    r.many cs = ([], cs) := by
  rw [many]
  split
  · next h' => simp [h] at h'
  · rfl

/-- Where a value can be read it is the first one. -/
theorem many_eq_cons {r : Reader α} {cs rest : List Char} {a : α}
    (h : r.read cs = some (a, rest)) : r.many cs = (a :: (r.many rest).1, (r.many rest).2) := by
  rw [many]
  split
  · next h' =>
    obtain ⟨rfl, rfl⟩ := by simpa [h] using h'
    rfl
  · next h' => simp [h] at h'

/-- Reading many values never lengthens the text. -/
theorem length_many_le (r : Reader α) (cs : List Char) : (r.many cs).2.length ≤ cs.length := by
  fun_induction many r cs with
  | case1 cs a rest hread more ih => exact Nat.le_trans ih (Nat.le_of_lt (r.shortens hread))
  | case2 cs hread => exact Nat.le_refl _

end Reader

end Calculator
