import Calculator.Syntax.Parentheses

/-!
# Balanced texts

A text is balanced if its parentheses match in pairs. The scans for groups and for commas see
nothing of what stands inside a balanced part, and they find every balanced pair as one group.
-/

namespace Calculator

/-- A text whose parentheses match in pairs. -/
inductive Balanced : List Char → Prop
  | nil : Balanced []
  | char {c : Char} {cs : List Char} (hopen : c ≠ '(') (hclose : c ≠ ')') (h : Balanced cs) :
    Balanced (c :: cs)
  | group {cs ds : List Char} (hinside : Balanced cs) (hafter : Balanced ds) :
    Balanced ('(' :: (cs ++ ')' :: ds))

namespace Balanced

/-- Balanced texts may be put next to each other. -/
theorem append {cs ds : List Char} (hcs : Balanced cs) (hds : Balanced ds) :
    Balanced (cs ++ ds) := by
  induction hcs with
  | nil => exact hds
  | char hopen hclose _ ih => exact .char hopen hclose ih
  | @group inside after hinside _ _ ih =>
    rw [List.cons_append, List.append_assoc, List.cons_append]
    exact .group hinside ih

/-- A text without parentheses is balanced. -/
theorem of_forall {cs : List Char} (h : ∀ c ∈ cs, c ≠ '(' ∧ c ≠ ')') : Balanced cs := by
  induction cs with
  | nil => exact .nil
  | cons c cs ih =>
    have hc := h c (by simp)
    exact .char hc.1 hc.2 (ih fun d hd => h d (by simp [hd]))

/-- A pair of parentheses around a balanced text is balanced. -/
theorem parenthesized {cs : List Char} (h : Balanced cs) : Balanced ('(' :: (cs ++ [')'])) :=
  .group h .nil

end Balanced

/-- Outside parentheses a character leaves the nesting as it is. -/
theorem nestingAfter_of_ne {c : Char} (hopen : c ≠ '(') (hclose : c ≠ ')') (depth : Nat) :
    nestingAfter depth c = depth := by
  rw [nestingAfter, if_neg hopen, if_neg hclose]

/-- A balanced text leaves the nesting as it is. -/
theorem Balanced.foldl_nestingAfter {cs : List Char} (h : Balanced cs) (depth : Nat) :
    cs.foldl nestingAfter depth = depth := by
  induction h generalizing depth with
  | nil => rfl
  | char hopen hclose _ ih => rw [List.foldl_cons, nestingAfter_of_ne hopen hclose, ih]
  | group _ _ ihinside ihafter =>
    rw [List.foldl_cons, List.foldl_append, List.foldl_cons, ihinside, ihafter]
    rfl

/-- The search for the closing parenthesis passes over a balanced text. -/
theorem Balanced.closeGroup_append {cs : List Char} (h : Balanced cs) (depth : Nat)
    (rest : List Char) :
    closeGroup depth (cs ++ rest) =
      (closeGroup depth rest).map fun split => (cs ++ split.1, split.2) := by
  induction h generalizing depth rest with
  | nil => simp
  | char hopen hclose _ ih =>
    rw [List.cons_append, closeGroup, if_neg (fun h => hclose h.1),
      nestingAfter_of_ne hopen hclose, ih, Option.map_map]
    rfl
  | @group inside after _ _ ihinside ihafter =>
    have hopening : nestingAfter depth '(' = depth + 1 := rfl
    have hclosing : nestingAfter (depth + 1) ')' = depth := rfl
    rw [List.cons_append, closeGroup, if_neg (by simp), hopening, List.append_assoc,
      ihinside, List.cons_append, closeGroup, if_neg (by simp), hclosing, ihafter]
    cases closeGroup depth rest <;> simp

/-- A balanced text up to a closing parenthesis is the inside of the group. -/
theorem Balanced.closeGroup_eq_some {cs : List Char} (h : Balanced cs) (rest : List Char) :
    closeGroup 0 (cs ++ ')' :: rest) = some (cs, rest) := by
  rw [h.closeGroup_append, closeGroup, if_pos (by simp)]
  simp

/-- The first group of a text is the balanced pair after a part without parentheses. -/
theorem Balanced.firstGroup_eq_some {inside : List Char} (h : Balanced inside)
    (name : List Char) (hname : ∀ c ∈ name, c ≠ '(' ∧ c ≠ ')') (offset : Nat) (rest : List Char) :
    firstGroup offset (name ++ '(' :: (inside ++ ')' :: rest)) =
      .ok (some ⟨name, inside, rest⟩) := by
  induction name generalizing offset with
  | nil => rw [List.nil_append, firstGroup, if_pos rfl, h.closeGroup_eq_some]
  | cons c name ih =>
    have hc := hname c (by simp)
    rw [List.cons_append, firstGroup, if_neg hc.1, if_neg hc.2,
      ih fun d hd => hname d (by simp [hd])]

/-- The first group of a balanced text is found, or there is none. -/
theorem Balanced.firstGroup_ok {cs : List Char} (h : Balanced cs) (offset : Nat) :
    ∃ found, firstGroup offset cs = .ok found := by
  induction h generalizing offset with
  | nil => exact ⟨none, rfl⟩
  | char hopen hclose _ ih =>
    obtain ⟨found, hfound⟩ := ih (offset + 1)
    rw [firstGroup, if_neg hopen, if_neg hclose, hfound]
    cases found with
    | none => exact ⟨none, rfl⟩
    | some g => exact ⟨_, rfl⟩
  | group hinside _ _ _ =>
    have hfound := hinside.firstGroup_eq_some [] (by simp) offset
    exact ⟨_, hfound _⟩

/-- The scan for groups passes over a balanced text inside a group. -/
theorem Balanced.groupsFrom_some_append {cs : List Char} (h : Balanced cs)
    (opening depth offset : Nat) (rest : List Char) :
    groupsFrom (some (opening, depth)) offset (cs ++ rest) =
      groupsFrom (some (opening, depth)) (offset + cs.length) rest := by
  induction h generalizing depth offset rest with
  | nil => rfl
  | @char c cs hopen hclose _ ih =>
    rw [List.cons_append, groupsFrom, if_neg (fun h => hclose h.1),
      nestingAfter_of_ne hopen hclose, ih, List.length_cons, Nat.add_right_comm, Nat.add_assoc]
  | @group inside after _ _ ihinside ihafter =>
    have hopening : nestingAfter depth '(' = depth + 1 := rfl
    have hclosing : nestingAfter (depth + 1) ')' = depth := rfl
    rw [List.cons_append, groupsFrom, if_neg (by simp), hopening, List.append_assoc,
      ihinside, List.cons_append, groupsFrom, if_neg (by simp), hclosing, ihafter]
    congr 1
    simp only [List.length_cons, List.length_append]
    omega

/-- The groups of a balanced text are found. -/
theorem Balanced.groupsFrom_ok {cs : List Char} (h : Balanced cs) (offset : Nat) :
    ∃ groups, groupsFrom none offset cs = .ok groups := by
  induction h generalizing offset with
  | nil => exact ⟨[], rfl⟩
  | char hopen hclose _ ih =>
    rw [groupsFrom, if_neg hopen, if_neg hclose]
    exact ih (offset + 1)
  | @group inside after hinside _ _ ihafter =>
    obtain ⟨groups, hgroups⟩ := ihafter (offset + 1 + inside.length + 1)
    rw [groupsFrom, if_pos rfl, hinside.groupsFrom_some_append, groupsFrom, if_pos (by simp),
      hgroups]
    exact ⟨_, rfl⟩

end Calculator
