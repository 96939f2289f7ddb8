import Calculator.Text.Blank

/-!
# Trimmed texts

Trimming takes the blanks off both ends of a text, in either order, so blanks at an end make no
difference. What ends with a character that is no blank stays whole in front of a text whose end is
trimmed.
-/

namespace Calculator.Text

variable {c : Char} {cs ds : List Char}

/-- A character is dropped from the end if it is blank and so is all that follows. -/
theorem trimEnd_cons (c : Char) (cs : List Char) :
    trimEnd (c :: cs) = if isBlank c = true ∧ trimEnd cs = [] then [] else c :: trimEnd cs := by
  rw [trimEnd, trimEnd, List.reverse_cons, List.dropWhile_append]
  cases hrest : cs.reverse.dropWhile isBlank with
  | nil => cases hc : isBlank c <;> simp [hc]
  | cons d ds => simp

/-- What does not end with a blank stays in front of what is trimmed. -/
theorem trimEnd_append (h : ∀ c ∈ cs.getLast?, isBlank c = false) :
    trimEnd (cs ++ ds) = cs ++ trimEnd ds := by
  induction cs with
  | nil => rfl
  | cons c cs ih =>
    rw [List.cons_append, trimEnd_cons]
    cases cs with
    | nil =>
      have hc : isBlank c = false := h c rfl
      simp [hc]
    | cons d cs =>
      rw [ih fun c hc => h c (by simpa using hc), if_neg (by simp)]
      rfl

/-- A blank at the end makes no difference to what is trimmed at the end. -/
theorem trimEnd_append_blank (hc : isBlank c = true) : trimEnd (cs ++ [c]) = trimEnd cs := by
  simp [trimEnd, hc]

/-- What does not start with a blank is not trimmed at the start. -/
theorem trimStart_eq_self (h : ∀ c ∈ cs.head?, isBlank c = false) : trimStart cs = cs := by
  cases cs with
  | nil => rfl
  | cons c cs =>
    have hc : isBlank c = false := h c rfl
    simp [trimStart, hc]

/-- The two ends may be trimmed in either order. -/
theorem trimStart_trimEnd (cs : List Char) : trimStart (trimEnd cs) = trim cs := by
  induction cs with
  | nil => rfl
  | cons c cs ih =>
    rw [trim] at ih ⊢
    cases hc : isBlank c with
    | false =>
      have hend : trimEnd (c :: cs) = c :: trimEnd cs := by simp [trimEnd_cons, hc]
      have hstart (ds : List Char) : trimStart (c :: ds) = c :: ds := by simp [trimStart, hc]
      rw [hend, hstart, hstart, hend]
    | true =>
      have hstart (ds : List Char) : trimStart (c :: ds) = trimStart ds := by
        simp [trimStart, hc]
      rw [hstart, ← ih, trimEnd_cons]
      by_cases hcs : trimEnd cs = []
      · rw [if_pos ⟨hc, hcs⟩, hcs]
      · rw [if_neg fun h => hcs h.2, hstart]

/-- A blank at the start makes no difference. -/
theorem trim_cons_blank (hc : isBlank c = true) : trim (c :: cs) = trim cs := by
  simp [trim, trimStart, hc]

/-- A blank at the end makes no difference. -/
theorem trim_append_blank (hc : isBlank c = true) : trim (cs ++ [c]) = trim cs := by
  rw [← trimStart_trimEnd, trimEnd_append_blank hc, trimStart_trimEnd]

/-- Blanks that are dropped at the start make no difference. -/
theorem trim_dropWhile {f : Char → Bool} (hf : ∀ c, f c = true → isBlank c = true)
    (cs : List Char) : trim (cs.dropWhile f) = trim cs := by
  induction cs with
  | nil => rfl
  | cons c cs ih =>
    cases hc : f c with
    | false => simp [hc]
    | true => rw [List.dropWhile_cons_of_pos hc, ih, trim_cons_blank (hf c hc)]

/-- What is trimmed at the end is trimmed no further there. -/
theorem trim_trimEnd (cs : List Char) : trim (trimEnd cs) = trim cs := by
  have hidem : trimEnd (trimEnd cs) = trimEnd cs := by
    induction cs with
    | nil => rfl
    | cons c cs ih =>
      rw [trimEnd_cons]
      split
      · rfl
      · next h => rw [trimEnd_cons, ih, if_neg h]
  rw [← trimStart_trimEnd, hidem, trimStart_trimEnd]

/-- What starts and ends with no blank stays in front of what is trimmed. -/
theorem trim_append (hne : cs ≠ []) (hfirst : ∀ c ∈ cs.head?, isBlank c = false)
    (hlast : ∀ c ∈ cs.getLast?, isBlank c = false) : trim (cs ++ ds) = cs ++ trimEnd ds := by
  have hhead : (cs ++ ds).head? = cs.head? := by
    cases cs with
    | nil => exact absurd rfl hne
    | cons c cs => rfl
  rw [trim, trimStart_eq_self (hhead ▸ hfirst), trimEnd_append hlast]

end Calculator.Text
