import Calculator.Proofs.Syntax.Unmatched

/-!
# Matched parentheses

Two parentheses of a piece match if the text between them is balanced. In a balanced text every
parenthesis has its partner, and a group keeps its pairs to itself: a pair of the whole text is the
pair around the group, or lies inside the group, or lies after it. The offset where a text breaks
is that of its leftmost parenthesis without a partner.
-/

namespace Calculator

/-- A character of two texts that are put together stands in the first one, between the two, or in
the second one. -/
theorem append_cons_cases {α : Type} {front back before after : List α} {c d : α}
    (h : before ++ c :: after = front ++ d :: back) :
    (∃ rest, front = before ++ c :: rest ∧ after = rest ++ d :: back) ∨
      (before = front ∧ c = d ∧ after = back) ∨
        ∃ rest, before = front ++ d :: rest ∧ back = rest ++ c :: after := by
  rcases List.append_eq_append_iff.1 h with ⟨rest, hfront, hrest⟩ | ⟨rest, hbefore, hrest⟩
  · cases rest with
    | nil =>
      obtain ⟨rfl, rfl⟩ := List.cons.inj hrest
      exact .inr (.inl ⟨by simpa using hfront.symm, rfl, rfl⟩)
    | cons e rest =>
      obtain ⟨rfl, rfl⟩ := List.cons.inj hrest
      exact .inl ⟨rest, hfront, rfl⟩
  · cases rest with
    | nil =>
      obtain ⟨rfl, rfl⟩ := List.cons.inj hrest
      exact .inr (.inl ⟨by simpa using hbefore, rfl, rfl⟩)
    | cons e rest =>
      obtain ⟨rfl, rfl⟩ := List.cons.inj hrest
      exact .inr (.inr ⟨rest, hbefore, rfl⟩)

/-- What stands in front of the parenthesis that closes a group is determined. -/
theorem Balanced.eq_of_append_eq {cs ds rest rest' : List Char} (hcs : Balanced cs)
    (hds : Balanced ds) (h : cs ++ ')' :: rest = ds ++ ')' :: rest') : cs = ds ∧ rest = rest' := by
  have hclose := hcs.closeGroup_eq_some rest
  rw [h, hds.closeGroup_eq_some] at hclose
  obtain ⟨rfl, rfl⟩ := Prod.mk.inj (Option.some.inj hclose)
  exact ⟨rfl, rfl⟩

/-- An opening parenthesis of a balanced text is closed in it. -/
theorem Balanced.exists_closing {cs before rest : List Char} (h : Balanced cs)
    (hcs : cs = before ++ '(' :: rest) :
    ∃ inside after, rest = inside ++ ')' :: after ∧ Balanced inside := by
  induction h generalizing before rest with
  | nil => simp at hcs
  | char hopen _ _ ih =>
    cases before with
    | nil => exact absurd (List.cons.inj hcs).1 hopen
    | cons => exact ih (List.cons.inj hcs).2
  | @group inside after hinside _ ihinside ihafter =>
    cases before with
    | nil => exact ⟨inside, after, (List.cons.inj hcs).2.symm, hinside⟩
    | cons d before =>
      obtain ⟨rest', hfront, rfl⟩ | ⟨-, hne, -⟩ | ⟨rest', -, hback⟩ :=
        append_cons_cases (List.cons.inj hcs).2.symm
      · obtain ⟨inside', after', rfl, hinside'⟩ := ihinside hfront
        exact ⟨inside', after' ++ ')' :: after, by simp, hinside'⟩
      · cases hne
      · exact ihafter hback

namespace Piece

/-- The character stands at the offset. -/
def HasAt (p : Piece) (k : Nat) (c : Char) : Prop :=
  ∃ n, p.chars[n]? = some c ∧ k = p.offset + n

/-- A parenthesis stands at the offset. -/
def HasParenthesisAt (p : Piece) (k : Nat) : Prop :=
  p.HasAt k '(' ∨ p.HasAt k ')'

/-- The offsets are those of an opening parenthesis and of the closing one that matches it: what
stands between them is balanced. -/
def Matched (p : Piece) (i j : Nat) : Prop :=
  ∃ before inside after, p.chars = before ++ '(' :: (inside ++ ')' :: after) ∧ Balanced inside ∧
    i = p.offset + before.length ∧ j = i + inside.length + 1

/-- A parenthesis that matches no other one stands at the offset. -/
def Unpaired (p : Piece) (k : Nat) : Prop :=
  p.HasParenthesisAt k ∧ ∀ i, ¬p.Matched k i ∧ ¬p.Matched i k

section Offsets

variable {p : Piece} {i j k : Nat} {c d : Char}

/-- At an offset stands one character. -/
theorem HasAt.unique (hc : p.HasAt k c) (hd : p.HasAt k d) : c = d := by
  obtain ⟨n, hn, rfl⟩ := hc
  obtain ⟨n', hn', heq⟩ := hd
  obtain rfl : n = n' := by omega
  rw [hn] at hn'
  exact Option.some.inj hn'

/-- A character of a piece stands between its ends. -/
theorem HasAt.bounds (h : p.HasAt k c) : p.offset ≤ k ∧ k < p.stop := by
  obtain ⟨n, hn, rfl⟩ := h
  obtain ⟨hlt, -⟩ := List.getElem?_eq_some_iff.1 hn
  exact ⟨Nat.le_add_right _ _, Nat.add_lt_add_left hlt _⟩

/-- Matched parentheses stand in the piece, the opening one first. -/
theorem Matched.bounds (h : p.Matched i j) : p.offset ≤ i ∧ i < j ∧ j < p.stop := by
  obtain ⟨before, inside, after, hchars, -, rfl, rfl⟩ := h
  have hlength := congrArg List.length hchars
  simp only [List.length_append, List.length_cons] at hlength
  unfold stop
  omega

/-- Matched parentheses are an opening and a closing one. -/
theorem Matched.hasAt (h : p.Matched i j) : p.HasAt i '(' ∧ p.HasAt j ')' := by
  obtain ⟨before, inside, after, hchars, -, rfl, rfl⟩ := h
  have hassoc : p.chars = (before ++ '(' :: inside) ++ ')' :: after := by simp [hchars]
  refine ⟨⟨before.length, by simp [hchars], rfl⟩, (before ++ '(' :: inside).length, ?_, ?_⟩
  · simp [hassoc]
  · simp only [List.length_append, List.length_cons]
    omega

end Offsets

section Steps

variable {offset i j k : Nat} {c d : Char} {cs ds : List Char}

/-- In an empty text stands no character. -/
theorem not_hasAt_nil : ¬(⟨offset, []⟩ : Piece).HasAt k c := by
  simp [HasAt]

/-- The first character stands at the first offset, and the others after it. -/
theorem hasAt_cons_iff :
    (⟨offset, c :: cs⟩ : Piece).HasAt k d ↔
      (k = offset ∧ d = c) ∨ (⟨offset + 1, cs⟩ : Piece).HasAt k d := by
  constructor
  · rintro ⟨_ | n, hn, rfl⟩
    · exact .inl ⟨rfl, (Option.some.inj hn).symm⟩
    · refine .inr ⟨n, hn, ?_⟩
      simp only
      omega
  · rintro (⟨rfl, rfl⟩ | ⟨n, hn, rfl⟩)
    · exact ⟨0, rfl, rfl⟩
    · refine ⟨n + 1, hn, ?_⟩
      simp only
      omega

/-- A character of two texts that are put together stands in one of them. -/
theorem hasAt_append_iff :
    (⟨offset, cs ++ ds⟩ : Piece).HasAt k d ↔
      (⟨offset, cs⟩ : Piece).HasAt k d ∨ (⟨offset + cs.length, ds⟩ : Piece).HasAt k d := by
  induction cs generalizing offset with
  | nil => simp [not_hasAt_nil]
  | cons c cs ih =>
    have hlength : offset + 1 + cs.length = offset + (c :: cs).length := by
      rw [List.length_cons]
      omega
    rw [List.cons_append, hasAt_cons_iff, hasAt_cons_iff, ih, hlength, or_assoc]

/-- A character of a text that starts with a group is one of the parentheses around the group, or
it stands inside the group, or after it. -/
theorem hasAt_group_iff {inside after : List Char} :
    (⟨offset, '(' :: (inside ++ ')' :: after)⟩ : Piece).HasAt k d ↔
      (k = offset ∧ d = '(') ∨ (⟨offset + 1, inside⟩ : Piece).HasAt k d ∨
        (k = offset + inside.length + 1 ∧ d = ')') ∨
          (⟨offset + inside.length + 2, after⟩ : Piece).HasAt k d := by
  have hlength : offset + 1 + inside.length = offset + inside.length + 1 := by omega
  rw [hasAt_cons_iff, hasAt_append_iff, hasAt_cons_iff, hlength]

/-- In an empty text stands no parenthesis. -/
theorem not_hasParenthesisAt_nil : ¬(⟨offset, []⟩ : Piece).HasParenthesisAt k :=
  fun h => h.elim not_hasAt_nil not_hasAt_nil

/-- In front of another character the parentheses of a text are the same ones. -/
theorem hasParenthesisAt_cons_iff (hopen : c ≠ '(') (hclose : c ≠ ')') :
    (⟨offset, c :: cs⟩ : Piece).HasParenthesisAt k ↔
      (⟨offset + 1, cs⟩ : Piece).HasParenthesisAt k := by
  simp only [HasParenthesisAt, hasAt_cons_iff, hopen.symm, hclose.symm, and_false, false_or]

/-- A parenthesis of a text that starts with a group is one of those around the group, or it stands
inside the group, or after it. -/
theorem hasParenthesisAt_group_iff {inside after : List Char} :
    (⟨offset, '(' :: (inside ++ ')' :: after)⟩ : Piece).HasParenthesisAt k ↔
      k = offset ∨ (⟨offset + 1, inside⟩ : Piece).HasParenthesisAt k ∨
        k = offset + inside.length + 1 ∨
          (⟨offset + inside.length + 2, after⟩ : Piece).HasParenthesisAt k := by
  simp only [HasParenthesisAt, hasAt_group_iff]
  grind

/-- In an empty text nothing matches. -/
theorem not_matched_nil : ¬(⟨offset, []⟩ : Piece).Matched i j := by
  rintro ⟨before, inside, after, hchars, -⟩
  simp at hchars

/-- A character that does not open a group belongs to no pair of what follows it. -/
theorem matched_cons_iff (hopen : c ≠ '(') :
    (⟨offset, c :: cs⟩ : Piece).Matched i j ↔ (⟨offset + 1, cs⟩ : Piece).Matched i j := by
  constructor
  · rintro ⟨before, inside, after, hchars, hinside, rfl, rfl⟩
    cases before with
    | nil => exact absurd (List.cons.inj hchars).1 hopen
    | cons d before =>
      refine ⟨before, inside, after, (List.cons.inj hchars).2, hinside, ?_, rfl⟩
      simp only [List.length_cons]
      omega
  · rintro ⟨before, inside, after, hchars, hinside, rfl, rfl⟩
    refine ⟨c :: before, inside, after, congrArg (c :: ·) hchars, hinside, ?_, rfl⟩
    simp only [List.length_cons]
    omega

/-- A pair of a text that starts with a group is the one around the group, or it lies inside the
group, or after it. -/
theorem matched_group_iff {inside after : List Char} (hinside : Balanced inside) :
    (⟨offset, '(' :: (inside ++ ')' :: after)⟩ : Piece).Matched i j ↔
      (i = offset ∧ j = offset + inside.length + 1) ∨
        (⟨offset + 1, inside⟩ : Piece).Matched i j ∨
          (⟨offset + inside.length + 2, after⟩ : Piece).Matched i j := by
  constructor
  · rintro ⟨before, inside', after', hchars, hinside', rfl, rfl⟩
    cases before with
    | nil =>
      obtain ⟨rfl, -⟩ := hinside.eq_of_append_eq hinside' (List.cons.inj hchars).2
      exact .inl ⟨rfl, rfl⟩
    | cons d before =>
      obtain ⟨rest, rfl, hrest⟩ | ⟨-, hne, -⟩ | ⟨rest, rfl, hrest⟩ :=
        append_cons_cases (List.cons.inj hchars).2.symm
      · -- The partner of a parenthesis inside the group stands there as well.
        obtain ⟨inside'', after'', rfl, hinside''⟩ := hinside.exists_closing rfl
        rw [List.append_assoc] at hrest
        obtain ⟨rfl, rfl⟩ := hinside'.eq_of_append_eq hinside'' hrest
        refine .inr (.inl ⟨before, inside', after'', rfl, hinside', ?_, rfl⟩)
        simp only [List.length_cons]
        omega
      · cases hne
      · refine .inr (.inr ⟨rest, inside', after', hrest, hinside', ?_, rfl⟩)
        simp only [List.length_cons, List.length_append]
        omega
  · rintro (⟨rfl, rfl⟩ | ⟨before, inside', after', rfl, hinside', rfl, rfl⟩ |
      ⟨before, inside', after', rfl, hinside', rfl, rfl⟩)
    · exact ⟨[], inside, after, rfl, hinside, rfl, rfl⟩
    · refine ⟨'(' :: before, inside', after' ++ ')' :: after, by simp, hinside', ?_, rfl⟩
      simp only [List.length_cons]
      omega
    · refine ⟨'(' :: (inside ++ ')' :: before), inside', after', by simp, hinside', ?_, rfl⟩
      simp only [List.length_cons, List.length_append]
      omega

/-- A pair of a text that starts with a balanced part lies in that part or after it. -/
theorem matched_append_iff (hcs : Balanced cs) :
    (⟨offset, cs ++ ds⟩ : Piece).Matched i j ↔
      (⟨offset, cs⟩ : Piece).Matched i j ∨ (⟨offset + cs.length, ds⟩ : Piece).Matched i j := by
  induction hcs generalizing offset with
  | nil => simp [not_matched_nil]
  | @char c cs hopen _ _ ih =>
    have hlength : offset + 1 + cs.length = offset + (c :: cs).length := by
      rw [List.length_cons]
      omega
    rw [List.cons_append, matched_cons_iff hopen, matched_cons_iff hopen, ih, hlength]
  | @group inside after hinside _ _ ih =>
    have hlength : offset + inside.length + 2 + after.length =
        offset + ('(' :: (inside ++ ')' :: after)).length := by
      simp only [List.length_cons, List.length_append]
      omega
    rw [List.cons_append, List.append_assoc, List.cons_append, matched_group_iff hinside,
      matched_group_iff hinside, ih, hlength, or_assoc, or_assoc]

end Steps

end Piece

/-- In a balanced text every parenthesis is matched. -/
theorem Balanced.exists_matched {cs : List Char} (h : Balanced cs) {offset k : Nat}
    (hk : (⟨offset, cs⟩ : Piece).HasParenthesisAt k) :
    ∃ i, (⟨offset, cs⟩ : Piece).Matched k i ∨ (⟨offset, cs⟩ : Piece).Matched i k := by
  induction h generalizing offset with
  | nil => exact absurd hk Piece.not_hasParenthesisAt_nil
  | char hopen hclose _ ih =>
    simp only [Piece.matched_cons_iff hopen]
    exact ih ((Piece.hasParenthesisAt_cons_iff hopen hclose).1 hk)
  | @group inside after hinside _ ihinside ihafter =>
    simp only [Piece.matched_group_iff hinside]
    obtain rfl | hk | rfl | hk := Piece.hasParenthesisAt_group_iff.1 hk
    · exact ⟨_, .inl (.inl ⟨rfl, rfl⟩)⟩
    · refine (ihinside hk).imp fun i hi => ?_
      exact hi.imp (fun h => .inr (.inl h)) (fun h => .inr (.inl h))
    · exact ⟨_, .inr (.inl ⟨rfl, rfl⟩)⟩
    · refine (ihafter hk).imp fun i hi => ?_
      exact hi.imp (fun h => .inr (.inr h)) (fun h => .inr (.inr h))

/-- Where a text breaks stands a parenthesis that is not matched. -/
theorem Breaks.unpaired {p : Piece} {k : Nat} (h : Breaks k p.chars) :
    p.Unpaired (p.offset + k) := by
  generalize hchars : p.chars = cs at h
  cases h with
  | @closing before hbefore rest =>
    have hat : p.HasAt (p.offset + before.length) ')' := ⟨before.length, by simp [hchars], rfl⟩
    refine ⟨.inr hat, fun i => ⟨fun hmatched => ?_, fun hmatched => ?_⟩⟩
    · cases hmatched.hasAt.1.unique hat
    · -- The parenthesis that it closes would stand in the balanced part, and be closed there.
      obtain ⟨front, inside, after, hchars', hinside, rfl, hlength⟩ := hmatched
      have hassoc : (front ++ '(' :: inside) ++ ')' :: after = before ++ ')' :: rest := by
        rw [← hchars, hchars']
        simp
      have hfront : front ++ '(' :: inside = before := by
        refine (List.append_inj hassoc ?_).1
        simp only [List.length_append, List.length_cons]
        omega
      obtain ⟨inside', after', rfl, hinside'⟩ := hbefore.exists_closing hfront.symm
      have heq : (inside' ++ ')' :: after') ++ ')' :: [] = inside' ++ ')' :: (after' ++ [')']) := by
        simp
      obtain ⟨-, hnil⟩ := hinside.eq_of_append_eq hinside' heq
      simp at hnil
  | @opening before rest hbefore hrest =>
    have hat : p.HasAt (p.offset + before.length) '(' := ⟨before.length, by simp [hchars], rfl⟩
    refine ⟨.inl hat, fun i => ⟨fun hmatched => ?_, fun hmatched => ?_⟩⟩
    · obtain ⟨front, inside, after, hchars', hinside, hlength, -⟩ := hmatched
      rw [hchars] at hchars'
      obtain ⟨-, heq⟩ := List.append_inj hchars' (by omega)
      rw [(List.cons.inj heq).2, hinside.closeGroup_eq_some] at hrest
      cases hrest
    · cases hmatched.hasAt.2.unique hat

/-- Before the offset where a text breaks every parenthesis is matched. -/
theorem Breaks.not_unpaired {p : Piece} {k l : Nat} (h : Breaks k p.chars)
    (hl : l < p.offset + k) : ¬p.Unpaired l := by
  obtain ⟨offset, cs⟩ := p
  obtain ⟨before, rest, hbefore, rfl, rfl⟩ :
      ∃ before rest, Balanced before ∧ cs = before ++ rest ∧ before.length = k := by
    cases h with
    | closing h => exact ⟨_, _, h, rfl, rfl⟩
    | opening h => exact ⟨_, _, h, rfl, rfl⟩
  rintro ⟨hparenthesis, hnone⟩
  have hleft {c : Char} (hc : (⟨offset, before ++ rest⟩ : Piece).HasAt l c) :
      (⟨offset, before⟩ : Piece).HasAt l c := by
    refine (Piece.hasAt_append_iff.1 hc).resolve_right ?_
    rintro ⟨n, -, rfl⟩
    simp only at hl
    omega
  obtain ⟨i, hi | hi⟩ := hbefore.exists_matched (hparenthesis.imp hleft hleft)
  · exact (hnone i).1 ((Piece.matched_append_iff hbefore).2 (.inl hi))
  · exact (hnone i).2 ((Piece.matched_append_iff hbefore).2 (.inl hi))

/-- The leftmost parenthesis that a stack leaves unmatched is the leftmost one that is not
matched. -/
theorem Piece.leftmostUnmatched?_eq_some_iff {p : Piece} {k : Nat} :
    leftmostUnmatched? p.offset p.chars = some k ↔ p.Unpaired k ∧ ∀ l < k, ¬p.Unpaired l := by
  constructor
  · intro h
    obtain hbalanced | ⟨i, hi⟩ := balanced_or_breaks p.chars
    · rw [leftmostUnmatched?_eq_none_iff.2 hbalanced] at h
      cases h
    · rw [hi.leftmostUnmatched?_eq] at h
      obtain rfl := Option.some.inj h
      exact ⟨hi.unpaired, fun l => hi.not_unpaired⟩
  · rintro ⟨⟨hparenthesis, hnone⟩, hleast⟩
    obtain hbalanced | ⟨i, hi⟩ := balanced_or_breaks p.chars
    · obtain ⟨i, hi | hi⟩ := hbalanced.exists_matched hparenthesis
      · exact absurd hi (hnone i).1
      · exact absurd hi (hnone i).2
    · rw [hi.leftmostUnmatched?_eq]
      congr 1
      refine Nat.le_antisymm ?_ ?_
      · by_contra hlt
        exact hi.not_unpaired (by omega) ⟨hparenthesis, hnone⟩
      · by_contra hlt
        exact hleast _ (by omega) hi.unpaired

end Calculator
