import Mathlib.Data.List.Induction
import Calculator.Document.Entries

/-!
# Entries as maps

Entries have each key once, and what was put last under a key is found under it.
-/

namespace Calculator.Entries

variable {α β : Type}

/-- Putting a value under a key adds no other key. -/
theorem mem_put {entries : Entries α} {key : String} {value : α} {entry : String × α}
    (h : entry ∈ entries.put key value) : entry.1 = key ∨ entry ∈ entries := by
  induction entries with
  | nil =>
    obtain rfl : entry = (key, value) := by simpa [put] using h
    exact .inl rfl
  | cons first entries ih =>
    rw [put] at h
    split at h
    · rcases List.mem_cons.1 h with rfl | h
      · exact .inl rfl
      · exact .inr (List.mem_cons_of_mem first h)
    · rcases List.mem_cons.1 h with rfl | h
      · exact .inr List.mem_cons_self
      · exact (ih h).imp_right (List.mem_cons_of_mem first)

/-- Putting a value under a key leaves each key once. -/
theorem pairwise_put {entries : Entries α} (h : entries.Pairwise fun e f => e.1 ≠ f.1)
    (key : String) (value : α) : (entries.put key value).Pairwise fun e f => e.1 ≠ f.1 := by
  induction entries with
  | nil => exact List.pairwise_singleton _ _
  | cons first entries ih =>
    obtain ⟨hfirst, hentries⟩ := List.pairwise_cons.1 h
    rw [put]
    split
    · next heq => exact List.pairwise_cons.2 ⟨heq ▸ hfirst, hentries⟩
    · next hne =>
      refine List.pairwise_cons.2 ⟨fun entry hentry => ?_, ih hentries⟩
      rcases mem_put hentry with hkey | hentry
      · exact hkey ▸ hne
      · exact hfirst entry hentry

theorem ofList_concat (pairs : List (String × α)) (pair : String × α) :
    ofList (pairs ++ [pair]) = (ofList pairs).put pair.1 pair.2 := by
  simp [ofList]

/-- Each key of a list is there once. -/
theorem pairwise_ofList (pairs : List (String × α)) :
    (ofList pairs).Pairwise fun e f => e.1 ≠ f.1 := by
  induction pairs using List.reverseRecOn with
  | nil => exact .nil
  | append_singleton pairs pair ih =>
    rw [ofList_concat]
    exact pairwise_put ih pair.1 pair.2

/-- Under a key there is the last value that a list has for it. -/
theorem get?_ofList_map (f : β → String × α) (xs : List β) (key : String) :
    (ofList (xs.map f)).get? key = (xs.findRev? fun x => (f x).1 == key).map fun x => (f x).2 := by
  rw [List.findRev?_eq_find?_reverse]
  induction xs using List.reverseRecOn with
  | nil => rfl
  | append_singleton xs x ih =>
    rw [List.map_append, List.map_singleton, ofList_concat, get?_put, ih, List.reverse_concat,
      List.find?_cons]
    by_cases hkey : (f x).1 = key
    · simp [hkey]
    · simp [hkey, beq_false_of_ne hkey]

end Calculator.Entries
