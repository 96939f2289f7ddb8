import Calculator.Proofs.Syntax.Soundness

/-!
# Unmatched parentheses

Matching with a stack leaves some parentheses of a text unmatched, and none exactly if the text is
balanced. The scan for groups, which counts what is open and starts anew after every group, stops
at the leftmost of them; so does the search for the pairs around a whole piece, or it takes nothing
off.
-/

namespace Calculator

/-- The offsets of the parentheses that have no partner, when every closing one is matched with the
last one that is open. The first argument has the offsets of the open ones, the last one first. -/
def unmatched : List Nat → Nat → List Char → List Nat
  | opened, _, [] => opened
  | opened, offset, c :: cs =>
    if c = '(' then unmatched (offset :: opened) (offset + 1) cs
    else if c = ')' then
      if opened.isEmpty then offset :: unmatched [] (offset + 1) cs
      else unmatched opened.tail (offset + 1) cs
    else unmatched opened (offset + 1) cs

/-- The offset of the leftmost parenthesis without a partner. -/
def leftmostUnmatched? (offset : Nat) (cs : List Char) : Option Nat :=
  (unmatched [] offset cs).min?

/-- A balanced text leaves the stack as it is. -/
theorem Balanced.unmatched_append {cs : List Char} (h : Balanced cs) (opened : List Nat)
    (offset : Nat) (rest : List Char) :
    unmatched opened offset (cs ++ rest) = unmatched opened (offset + cs.length) rest := by
  induction h generalizing opened offset rest with
  | nil => rfl
  | @char c cs hopen hclose _ ih =>
    rw [List.cons_append, unmatched, if_neg hopen, if_neg hclose, ih, List.length_cons]
    congr 1
    omega
  | @group inside after _ _ ihinside ihafter =>
    rw [List.cons_append, unmatched, if_pos rfl, List.append_assoc, ihinside, List.cons_append,
      unmatched, if_neg (by decide), if_pos rfl, if_neg (by simp), List.tail_cons, ihafter]
    congr 1
    simp only [List.length_cons, List.length_append]
    omega

/-- What is unmatched was open before the text or stands in it. -/
theorem mem_or_le_of_mem_unmatched {opened : List Nat} {offset k : Nat} {cs : List Char}
    (h : k ∈ unmatched opened offset cs) : k ∈ opened ∨ offset ≤ k := by
  induction cs generalizing opened offset with
  | nil => exact .inl h
  | cons c cs ih =>
    rw [unmatched] at h
    split at h
    · rcases ih h with h | h
      · rcases List.mem_cons.1 h with rfl | h
        · exact .inr (Nat.le_refl k)
        · exact .inl h
      · exact .inr (Nat.le_of_succ_le h)
    · split at h
      · cases opened with
        | nil =>
          rcases List.mem_cons.1 h with rfl | h
          · exact .inr (Nat.le_refl k)
          · exact .inr (Nat.le_of_succ_le ((ih h).resolve_left List.not_mem_nil))
        | cons o opened =>
          rcases ih h with h | h
          · exact .inl (List.mem_cons_of_mem o h)
          · exact .inr (Nat.le_of_succ_le h)
      · exact (ih h).imp_right Nat.le_of_succ_le

/-- A group that is never closed leaves the parenthesis that opened it unmatched. -/
theorem mem_unmatched_of_closeGroup {above below : List Nat} {opening offset : Nat}
    {cs : List Char} (h : closeGroup above.length cs = none) :
    opening ∈ unmatched (above ++ opening :: below) offset cs := by
  induction cs generalizing above offset with
  | nil => simp [unmatched]
  | cons c cs ih =>
    rw [closeGroup] at h
    split at h
    · cases h
    · next hopen =>
      have hrest := Option.map_eq_none_iff.1 h
      rw [unmatched]
      split
      · next hc =>
        subst hc
        have hdeeper : closeGroup (offset :: above).length cs = none := hrest
        exact ih hdeeper
      · split
        · next hc =>
          subst hc
          cases above with
          | nil => exact absurd ⟨rfl, rfl⟩ hopen
          | cons o above => exact ih hrest
        · next hne hne' =>
          rw [nestingAfter_of_ne hne hne'] at hrest
          exact ih hrest

/-- A text goes on after a balanced part of some length with a parenthesis that has no partner. -/
inductive Breaks : Nat → List Char → Prop
  | closing {before : List Char} (h : Balanced before) (rest : List Char) :
    Breaks before.length (before ++ ')' :: rest)
  | opening {before rest : List Char} (h : Balanced before) (hrest : closeGroup 0 rest = none) :
    Breaks before.length (before ++ '(' :: rest)

/-- A group that is not closed is not closed with more of them open either. -/
theorem closeGroup_add_eq_none {depth : Nat} {cs : List Char} (h : closeGroup depth cs = none)
    (more : Nat) : closeGroup (depth + more) cs = none := by
  induction cs generalizing depth with
  | nil => rfl
  | cons c cs ih =>
    rw [closeGroup] at h ⊢
    split at h
    · cases h
    · next hopen =>
      have hnesting : nestingAfter (depth + more) c = nestingAfter depth c + more := by
        unfold nestingAfter
        split
        · omega
        · split
          · next hclose =>
            have hpositive : depth ≠ 0 := fun hdepth => hopen ⟨hclose, hdepth⟩
            omega
          · rfl
      rw [if_neg (fun hc => hopen ⟨hc.1, by omega⟩), hnesting,
        ih (Option.map_eq_none_iff.1 h), Option.map_none]

/-- What stands before a text that breaks may be any balanced text. -/
theorem Breaks.append {cs ds : List Char} {k : Nat} (h : Breaks k ds) (hcs : Balanced cs) :
    Breaks (cs.length + k) (cs ++ ds) := by
  cases h with
  | closing h rest =>
    rw [← List.length_append, ← List.append_assoc]
    exact .closing (hcs.append h) rest
  | opening h hrest =>
    rw [← List.length_append, ← List.append_assoc]
    exact .opening (hcs.append h) hrest

/-- Every text is balanced or breaks somewhere. -/
theorem balanced_or_breaks (cs : List Char) : Balanced cs ∨ ∃ k, Breaks k cs := by
  generalize hlength : cs.length = n
  induction n using Nat.strongRecOn generalizing cs with
  | ind n ih =>
    subst hlength
    -- What follows a balanced part at the start decides.
    have hafter {before rest : List Char} (hbefore : Balanced before)
        (hshorter : rest.length < cs.length) (hcs : cs = before ++ rest) :
        Balanced cs ∨ ∃ k, Breaks k cs := by
      rw [hcs]
      rcases ih _ hshorter rest rfl with h | ⟨k, h⟩
      · exact .inl (hbefore.append h)
      · exact .inr ⟨_, h.append hbefore⟩
    cases cs with
    | nil => exact .inl .nil
    | cons c cs =>
      by_cases hclose : c = ')'
      · exact .inr ⟨0, hclose ▸ .closing .nil cs⟩
      by_cases hopen : c = '('
      · subst hopen
        have hbreaks (hnone : closeGroup 0 cs = none) : Breaks 0 ('(' :: cs) := .opening .nil hnone
        rcases ih cs.length (Nat.lt_succ_self _) cs rfl with h | ⟨k, h⟩
        · have hnone := h.closeGroup_append 0 []
          rw [List.append_nil] at hnone
          exact .inr ⟨0, hbreaks (by simp [hnone, closeGroup])⟩
        · cases h with
          | @closing inside h rest =>
            refine @hafter _ rest h.parenthesized ?_ (by simp)
            simp only [List.length_cons, List.length_append]
            omega
          | opening h hrest =>
            have hnone := closeGroup_add_eq_none hrest 1
            refine .inr ⟨0, hbreaks ?_⟩
            rw [h.closeGroup_append, closeGroup, if_neg (by decide)]
            simpa [nestingAfter] using hnone
      · exact @hafter [c] cs (.char hopen hclose .nil) (Nat.lt_succ_self _) rfl

/-- The leftmost unmatched parenthesis is found where the text breaks. -/
theorem Breaks.leftmostUnmatched?_eq {cs : List Char} {k : Nat} (h : Breaks k cs) (offset : Nat) :
    leftmostUnmatched? offset cs = some (offset + k) := by
  rw [leftmostUnmatched?, List.min?_eq_some_iff]
  cases h with
  | @closing before h rest =>
    have hclosing : unmatched [] (offset + before.length) (')' :: rest) =
        (offset + before.length) :: unmatched [] (offset + before.length + 1) rest := rfl
    rw [h.unmatched_append, hclosing]
    refine ⟨List.mem_cons_self, fun i hi => ?_⟩
    rcases List.mem_cons.1 hi with rfl | hi
    · exact Nat.le_refl _
    · have hle := (mem_or_le_of_mem_unmatched hi).resolve_left List.not_mem_nil
      omega
  | @opening before rest h hrest =>
    have hopening : unmatched [] (offset + before.length) ('(' :: rest) =
        unmatched [offset + before.length] (offset + before.length + 1) rest := rfl
    rw [h.unmatched_append, hopening]
    refine ⟨@mem_unmatched_of_closeGroup [] [] _ _ _ hrest, fun i hi => ?_⟩
    rcases mem_or_le_of_mem_unmatched hi with hi | hle
    · exact Nat.le_of_eq (List.mem_singleton.1 hi).symm
    · omega

/-- Exactly the balanced texts leave no parenthesis unmatched. -/
theorem leftmostUnmatched?_eq_none_iff {offset : Nat} {cs : List Char} :
    leftmostUnmatched? offset cs = none ↔ Balanced cs := by
  constructor
  · intro h
    obtain hcs | ⟨k, hk⟩ := balanced_or_breaks cs
    · exact hcs
    · rw [hk.leftmostUnmatched?_eq] at h
      cases h
  · intro h
    have hunmatched := h.unmatched_append [] offset []
    rw [List.append_nil] at hunmatched
    rw [leftmostUnmatched?, hunmatched]
    rfl

/-- What stands between the parentheses of a group is balanced. -/
theorem balanced_of_closeGroup {cs inside after : List Char}
    (h : closeGroup 0 cs = some (inside, after)) : Balanced inside := by
  obtain hcs | ⟨k, hk⟩ := balanced_or_breaks cs
  · have hnone := hcs.closeGroup_append 0 []
    rw [List.append_nil, h] at hnone
    cases hnone
  · cases hk with
    | closing hbefore rest =>
      rw [hbefore.closeGroup_eq_some] at h
      obtain ⟨rfl, -⟩ := Prod.mk.inj (Option.some.inj h)
      exact hbefore
    | opening hbefore hrest =>
      have hnone := closeGroup_add_eq_none hrest 1
      rw [hbefore.closeGroup_append, closeGroup, if_neg (by decide)] at h
      simp [nestingAfter, hnone] at h

/-- What stands inside the first group is balanced. -/
theorem balanced_of_firstGroup {offset : Nat} {cs : List Char} {g : Group}
    (h : firstGroup offset cs = .ok (some g)) : Balanced g.inside := by
  induction cs generalizing offset g with
  | nil => cases h
  | cons c cs ih =>
    rw [firstGroup] at h
    split at h
    · split at h
      · next inside after hclose =>
        obtain rfl := Option.some.inj (Except.ok.inj h)
        exact balanced_of_closeGroup hclose
      · cases h
    · split at h
      · cases h
      · split at h
        · next g' hrest =>
          obtain rfl := Option.some.inj (Except.ok.inj h)
          exact ih (g := g') hrest
        · cases h
        · cases h

/-- The scan of a group that is never closed fails where the group was opened. -/
theorem groupsFrom_some_eq_error {opening depth offset : Nat} {cs : List Char}
    (h : closeGroup depth cs = none) :
    groupsFrom (some (opening, depth)) offset cs = .error ⟨.unmatchedParenthesis, opening⟩ := by
  induction cs generalizing depth offset with
  | nil => rfl
  | cons c cs ih =>
    rw [closeGroup] at h
    split at h
    · cases h
    · next hopen => rw [groupsFrom, if_neg hopen, ih (Option.map_eq_none_iff.1 h)]

/-- A fault after a balanced part is the fault of the scan for groups. -/
theorem Balanced.groupsFrom_append_eq_error {cs rest : List Char} (h : Balanced cs)
    {offset : Nat} {fault : Fault}
    (hrest : groupsFrom none (offset + cs.length) rest = .error fault) :
    groupsFrom none offset (cs ++ rest) = .error fault := by
  induction h generalizing offset with
  | nil => exact hrest
  | @char c cs hopen hclose _ ih =>
    rw [List.cons_append, groupsFrom, if_neg hopen, if_neg hclose]
    apply ih
    rwa [List.length_cons, Nat.add_comm cs.length, ← Nat.add_assoc] at hrest
  | @group inside after hinside _ _ ihafter =>
    have hlength : offset + 1 + inside.length + 1 + after.length =
        offset + ('(' :: (inside ++ ')' :: after)).length := by
      simp only [List.length_cons, List.length_append]
      omega
    rw [← hlength] at hrest
    rw [List.cons_append, List.append_assoc, groupsFrom, if_pos rfl,
      hinside.groupsFrom_some_append, List.cons_append, groupsFrom, if_pos (by simp), ihafter hrest]

/-- The scan for groups fails where a text breaks. -/
theorem Breaks.groupsFrom_eq_error {cs : List Char} {k : Nat} (h : Breaks k cs) (offset : Nat) :
    groupsFrom none offset cs = .error ⟨.unmatchedParenthesis, offset + k⟩ := by
  cases h with
  | closing h rest => exact h.groupsFrom_append_eq_error rfl
  | opening h hrest => exact h.groupsFrom_append_eq_error (groupsFrom_some_eq_error hrest)

/-- Where no first group is found for a fault, the scan for all groups has the same one. -/
theorem groupsFrom_of_firstGroup_eq_error {offset : Nat} {cs : List Char} {fault : Fault}
    (h : firstGroup offset cs = .error fault) : groupsFrom none offset cs = .error fault := by
  induction cs generalizing offset with
  | nil => cases h
  | cons c cs ih =>
    rw [firstGroup] at h
    rw [groupsFrom]
    split at h
    · next hopen =>
      split at h
      · cases h
      · next hclose => rw [if_pos hopen, groupsFrom_some_eq_error hclose, Except.error.inj h]
    · next hopen =>
      rw [if_neg hopen]
      split at h
      · next hclose => rw [if_pos hclose, Except.error.inj h]
      · next hclose =>
        rw [if_neg hclose]
        split at h
        · cases h
        · cases h
        · next hrest =>
          obtain rfl := Except.error.inj h
          exact ih hrest

namespace Piece

/-- The groups of a piece are found, or its leftmost unmatched parenthesis is the fault. -/
theorem groups_eq_error_iff {p : Piece} {fault : Fault} :
    p.groups = .error fault ↔
      ∃ k, leftmostUnmatched? p.offset p.chars = some k ∧ fault = ⟨.unmatchedParenthesis, k⟩ := by
  obtain hbalanced | ⟨i, hi⟩ := balanced_or_breaks p.chars
  · obtain ⟨groups, hgroups⟩ := hbalanced.groupsFrom_ok p.offset
    rw [Piece.groups, hgroups, leftmostUnmatched?_eq_none_iff.2 hbalanced]
    simp
  · rw [Piece.groups, hi.groupsFrom_eq_error, hi.leftmostUnmatched?_eq]
    simp [eq_comm]

/-- The parentheses around a balanced piece are taken off, and what is left is balanced. -/
theorem exists_unwrap_of_balanced {p : Piece} (h : Balanced p.chars) :
    ∃ q : Piece, p.unwrap = .ok q ∧ Balanced q.chars := by
  fun_induction Piece.unwrap p with
  | case1 p inside hgroup ih => exact ih (balanced_of_firstGroup hgroup)
  | case2 p found hgroup hnot => exact ⟨p, rfl, h⟩
  | case3 p fault hgroup =>
    obtain ⟨found, hfound⟩ := h.firstGroup_ok p.offset
    rw [hgroup] at hfound
    cases hfound

/-- From a piece with an unmatched parenthesis nothing is taken off, or the leftmost one is the
fault. -/
theorem unwrap_of_unmatched {p : Piece} {k : Nat}
    (h : leftmostUnmatched? p.offset p.chars = some k) :
    p.unwrap = .ok p ∨ p.unwrap = .error ⟨.unmatchedParenthesis, k⟩ := by
  have hgroups : p.groups = .error ⟨.unmatchedParenthesis, k⟩ :=
    groups_eq_error_iff.2 ⟨k, h, rfl⟩
  rw [unwrap]
  split
  · next inside hgroup =>
    have hchars : p.chars = '(' :: (inside ++ [')']) := firstGroup_eq hgroup
    have hbalanced : Balanced p.chars := hchars ▸ (balanced_of_firstGroup hgroup).parenthesized
    rw [leftmostUnmatched?_eq_none_iff.2 hbalanced] at h
    cases h
  · exact .inl rfl
  · next fault hgroup =>
    have hfault := (groupsFrom_of_firstGroup_eq_error hgroup).symm.trans hgroups
    exact .inr (congrArg Except.error (Except.error.inj hfault))

end Piece

end Calculator
