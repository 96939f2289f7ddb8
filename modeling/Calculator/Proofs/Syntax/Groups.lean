import Calculator.Proofs.Syntax.Matching

/-!
# Groups

The scan for the groups of a piece returns its outermost pairs of parentheses from left to right,
and it does so for the balanced pieces only. For the others the fault is the leftmost parenthesis
without a partner. Taking off the pairs around a piece stops with the last one that is matched from
its first character to its last.
-/

namespace Calculator

namespace Piece

/-- The offsets are those of a matched pair that stands inside no other one. -/
def Outermost (p : Piece) (i j : Nat) : Prop :=
  p.Matched i j ∧ ∀ i' j', p.Matched i' j' → ¬(i' < i ∧ j < j')

/-- The pairs are the outermost ones of the piece, one after another, and no parenthesis stands
outside them. -/
structure HasGroups (p : Piece) (groups : List (Nat × Nat)) : Prop where
  increasing : groups.Pairwise fun g h => g.2 < h.1
  mem_iff : ∀ i j, (i, j) ∈ groups ↔ p.Outermost i j
  covers : ∀ k, p.HasParenthesisAt k → ∃ g ∈ groups, g.1 ≤ k ∧ k ≤ g.2

/-- The piece starts with as many parentheses as it ends with, each matched with its mirror
image. -/
def WrappedBy (p : Piece) (n : Nat) : Prop :=
  ∀ k < n, p.Matched (p.offset + k) (p.stop - (k + 1))

/-- All the pairs around a piece are taken off, and no more, which leaves the other piece. -/
structure UnwrapsTo (p q : Piece) (n : Nat) : Prop where
  offset_eq : q.offset = p.offset + n
  chars_eq : p.chars = List.replicate n '(' ++ (q.chars ++ List.replicate n ')')
  wrappedBy_iff : ∀ m, p.WrappedBy m ↔ m ≤ n
  not_wrapped : ¬q.WrappedBy 1

section Steps

variable {offset i j : Nat}

/-- In an empty text no pair is outermost. -/
theorem not_outermost_nil : ¬(⟨offset, []⟩ : Piece).Outermost i j :=
  fun h => not_matched_nil h.1

/-- In front of a character that opens no group the outermost pairs of a text are the same ones. -/
theorem outermost_cons_iff {c : Char} {cs : List Char} (hopen : c ≠ '(') :
    (⟨offset, c :: cs⟩ : Piece).Outermost i j ↔ (⟨offset + 1, cs⟩ : Piece).Outermost i j := by
  simp only [Outermost, matched_cons_iff hopen]

/-- An outermost pair of a text that starts with a group is the one around the group, or it stands
after the group. -/
theorem outermost_group_iff {inside after : List Char} (hinside : Balanced inside) :
    (⟨offset, '(' :: (inside ++ ')' :: after)⟩ : Piece).Outermost i j ↔
      (i = offset ∧ j = offset + inside.length + 1) ∨
        (⟨offset + inside.length + 2, after⟩ : Piece).Outermost i j := by
  have hbounds {cs : List Char} {start i j : Nat} (h : (⟨start, cs⟩ : Piece).Matched i j) :
      start ≤ i ∧ i < j ∧ j < start + cs.length := h.bounds
  constructor
  · rintro ⟨hmatched, hnone⟩
    obtain haround | hin | hpast := (matched_group_iff hinside).1 hmatched
    · exact .inl haround
    · have hin := hbounds hin
      refine absurd ⟨?_, ?_⟩ (hnone _ _ ((matched_group_iff hinside).2 (.inl ⟨rfl, rfl⟩))) <;> omega
    · refine .inr ⟨hpast, fun i' j' h => hnone i' j' ?_⟩
      exact (matched_group_iff hinside).2 (.inr (.inr h))
  · rintro (⟨rfl, rfl⟩ | ⟨hpast, hnone⟩)
    · refine ⟨(matched_group_iff hinside).2 (.inl ⟨rfl, rfl⟩), fun i' j' h => ?_⟩
      have hstart := (hbounds h).1
      omega
    · refine ⟨(matched_group_iff hinside).2 (.inr (.inr hpast)), fun i' j' h => ?_⟩
      have hpast := hbounds hpast
      obtain ⟨rfl, rfl⟩ | hin | hpast' := (matched_group_iff hinside).1 h
      · omega
      · have hin := hbounds hin
        omega
      · exact hnone i' j' hpast'

end Steps

end Piece

/-- The scan for groups returns the groups of a balanced text. -/
theorem Balanced.groupsFrom_hasGroups {cs : List Char} (h : Balanced cs) (offset : Nat) :
    ∃ groups, groupsFrom none offset cs = .ok groups ∧
      (⟨offset, cs⟩ : Piece).HasGroups groups := by
  induction h generalizing offset with
  | nil =>
    refine ⟨[], rfl, .nil, fun i j => ?_, fun k hk => absurd hk Piece.not_hasParenthesisAt_nil⟩
    simp [Piece.not_outermost_nil]
  | @char c cs hopen hclose _ ih =>
    obtain ⟨groups, hgroups, hpairs⟩ := ih (offset + 1)
    rw [groupsFrom, if_neg hopen, if_neg hclose]
    refine ⟨groups, hgroups, hpairs.increasing, fun i j => ?_, fun k hk => ?_⟩
    · rw [Piece.outermost_cons_iff hopen, hpairs.mem_iff]
    · exact hpairs.covers k ((Piece.hasParenthesisAt_cons_iff hopen hclose).1 hk)
  | @group inside after hinside _ _ ihafter =>
    obtain ⟨groups, hgroups, hpairs⟩ := ihafter (offset + inside.length + 2)
    have hclosing : offset + 1 + inside.length = offset + inside.length + 1 := by omega
    rw [groupsFrom, if_pos rfl, hinside.groupsFrom_some_append, groupsFrom, if_pos (by simp),
      hclosing, hgroups]
    refine ⟨_, rfl, .cons ?_ hpairs.increasing, fun i j => ?_, fun k hk => ?_⟩
    · rintro ⟨i, j⟩ hg
      have hbounds := ((hpairs.mem_iff i j).1 hg).1.bounds
      simp only at hbounds ⊢
      omega
    · rw [List.mem_cons, Prod.mk.injEq, hpairs.mem_iff, Piece.outermost_group_iff hinside]
    · have hin (hle : offset ≤ k) (hle' : k ≤ offset + inside.length + 1) :
          ∃ g ∈ (offset, offset + inside.length + 1) :: groups, g.1 ≤ k ∧ k ≤ g.2 :=
        ⟨_, List.mem_cons_self, hle, hle'⟩
      obtain rfl | hk | rfl | hk := Piece.hasParenthesisAt_group_iff.1 hk
      · exact hin (by omega) (by omega)
      · have hbounds := hk.elim Piece.HasAt.bounds Piece.HasAt.bounds
        simp only [Piece.stop] at hbounds
        exact hin (by omega) (by omega)
      · exact hin (by omega) (by omega)
      · obtain ⟨g, hg, hle⟩ := hpairs.covers k hk
        exact ⟨g, List.mem_cons_of_mem _ hg, hle⟩

namespace Piece

/-- A piece is wrapped if its first character opens a group that its last character closes. -/
theorem wrappedBy_one_iff {p : Piece} :
    p.WrappedBy 1 ↔ ∃ inside, Balanced inside ∧ p.chars = '(' :: (inside ++ [')']) := by
  constructor
  · intro h
    obtain ⟨before, inside, after, hchars, hinside, hstart, hstop⟩ := h 0 Nat.one_pos
    obtain rfl : before = [] := List.length_eq_zero_iff.1 (by omega)
    have hlength := congrArg List.length hchars
    simp only [stop, List.nil_append, List.length_cons, List.length_append] at hstop hlength
    obtain rfl : after = [] := List.length_eq_zero_iff.1 (by omega)
    exact ⟨inside, hinside, hchars⟩
  · rintro ⟨inside, hinside, hchars⟩ k hk
    obtain rfl : k = 0 := by omega
    refine ⟨[], inside, [], hchars, hinside, rfl, ?_⟩
    have hlength := congrArg List.length hchars
    simp only [List.length_cons, List.length_append, List.length_nil] at hlength
    unfold stop
    omega

/-- A wrapped piece is wrapped by one pair more than what stands inside the first one. -/
theorem wrappedBy_succ_iff {offset n : Nat} {inside : List Char} (hinside : Balanced inside) :
    (⟨offset, '(' :: (inside ++ [')'])⟩ : Piece).WrappedBy (n + 1) ↔
      (⟨offset + 1, inside⟩ : Piece).WrappedBy n := by
  -- The pairs inside the first one are those of the whole piece, counted from the second one on.
  have hmirror (k : Nat) :
      (⟨offset, '(' :: (inside ++ [')'])⟩ : Piece).stop - (k + 1 + 1) =
        (⟨offset + 1, inside⟩ : Piece).stop - (k + 1) := by
    simp only [stop, List.length_cons, List.length_append, List.length_nil]
    omega
  constructor
  · intro h k hk
    have hmatched := h (k + 1) (by omega)
    rw [hmirror, matched_group_iff hinside] at hmatched
    obtain ⟨hstart, -⟩ | hin | hpast := hmatched
    · simp only at hstart
      omega
    · rwa [← Nat.add_assoc, Nat.add_right_comm] at hin
    · exact absurd hpast not_matched_nil
  · rintro h (_ | k) hk
    · refine (matched_group_iff hinside).2 (.inl ⟨rfl, ?_⟩)
      simp only [stop, List.length_cons, List.length_append, List.length_nil]
      omega
    · have hmatched := h k (by omega)
      rw [hmirror, matched_group_iff hinside]
      rw [Nat.add_right_comm, Nat.add_assoc] at hmatched
      exact .inr (.inl hmatched)

/-- All the pairs around a piece are taken off. -/
theorem unwrapsTo_of_unwrap {p q : Piece} (h : p.unwrap = .ok q) : ∃ n, p.UnwrapsTo q n := by
  fun_induction Piece.unwrap p with
  | case1 p inside hgroup ih =>
    obtain ⟨n, hoffset, hchars, hwrapped, hnot⟩ := ih h
    obtain ⟨offset, cs⟩ := p
    obtain rfl : cs = '(' :: (inside ++ [')']) := firstGroup_eq hgroup
    refine ⟨n + 1, ?_, ?_, fun m => ?_, hnot⟩
    · simp only at hoffset ⊢
      omega
    · simp only at hchars ⊢
      rw [hchars, List.replicate_succ, List.replicate_succ']
      simp
    · cases m with
      | zero => simp [WrappedBy]
      | succ m =>
        rw [wrappedBy_succ_iff (balanced_of_firstGroup hgroup), hwrapped]
        omega
  | case2 p found hnot hgroup =>
    obtain rfl := Except.ok.inj h
    have hnot' : ¬p.WrappedBy 1 := by
      rw [wrappedBy_one_iff]
      rintro ⟨inside, hinside, hchars⟩
      have hfound := hinside.firstGroup_eq_some [] (by simp) p.offset []
      rw [List.nil_append, ← hchars, hgroup] at hfound
      exact hnot inside (Except.ok.inj hfound)
    refine ⟨0, rfl, by simp, fun m => ⟨fun hm => ?_, fun hm k hk => ?_⟩, hnot'⟩
    · by_contra hpos
      exact hnot' fun k hk => hm k (by omega)
    · omega
  | case3 => cases h

/-- The scan for groups succeeds on exactly the balanced pieces. -/
theorem exists_groups_iff {p : Piece} : (∃ groups, p.groups = .ok groups) ↔ Balanced p.chars := by
  constructor
  · rintro ⟨groups, hgroups⟩
    obtain hbalanced | ⟨k, hk⟩ := balanced_or_breaks p.chars
    · exact hbalanced
    · rw [Piece.groups, hk.groupsFrom_eq_error] at hgroups
      cases hgroups
  · exact fun h => h.groupsFrom_ok p.offset

/-- What the scan for groups returns are the groups. -/
theorem hasGroups_of_groups {p : Piece} {groups : List (Nat × Nat)} (h : p.groups = .ok groups) :
    p.HasGroups groups := by
  obtain ⟨groups', hgroups', hpairs⟩ :=
    (exists_groups_iff.1 ⟨groups, h⟩).groupsFrom_hasGroups p.offset
  obtain rfl := Except.ok.inj (h.symm.trans hgroups')
  exact hpairs

/-- The scan for groups fails at the leftmost parenthesis without a partner. -/
theorem unpaired_of_groups {p : Piece} {fault : Fault} (h : p.groups = .error fault) :
    ∃ k, fault = ⟨.unmatchedParenthesis, k⟩ ∧ p.Unpaired k ∧ ∀ l < k, ¬p.Unpaired l := by
  obtain ⟨k, hk, rfl⟩ := groups_eq_error_iff.1 h
  exact ⟨k, rfl, leftmostUnmatched?_eq_some_iff.1 hk⟩

/-- The groups of a piece are found if and only if it is balanced. They are its outermost pairs,
from left to right, and no parenthesis stands outside them; otherwise the fault is the leftmost
parenthesis without a partner. From a balanced piece all the pairs around it are taken off, and
whenever this does not fail, exactly those. -/
theorem groups_and_unwrap_exact (p : Piece) :
    ((∃ groups, p.groups = .ok groups) ↔ Balanced p.chars) ∧
      (∀ groups, p.groups = .ok groups → p.HasGroups groups) ∧
        (∀ fault, p.groups = .error fault →
          ∃ k, fault = ⟨.unmatchedParenthesis, k⟩ ∧ p.Unpaired k ∧ ∀ l < k, ¬p.Unpaired l) ∧
          (Balanced p.chars → ∃ q, p.unwrap = .ok q) ∧
            ∀ q, p.unwrap = .ok q → ∃ n, p.UnwrapsTo q n := by
  refine ⟨exists_groups_iff, fun _ => hasGroups_of_groups, fun _ => unpaired_of_groups,
    fun hbalanced => ?_, fun _ => unwrapsTo_of_unwrap⟩
  obtain ⟨q, hq, -⟩ := exists_unwrap_of_balanced hbalanced
  exact ⟨q, hq⟩

/-- Of the piece `(a(b))`, which starts at the third character, all the parentheses are in one
group, which is taken off, and only that one. -/
theorem groups_and_unwrap_nestedPair :
    (⟨2, ['(', 'a', '(', 'b', ')', ')']⟩ : Piece).HasGroups [(2, 7)] ∧
      ∃ q n, (⟨2, ['(', 'a', '(', 'b', ')', ')']⟩ : Piece).UnwrapsTo q n := by
  have hexact := groups_and_unwrap_exact ⟨2, ['(', 'a', '(', 'b', ')', ')']⟩
  obtain ⟨q, hq⟩ := hexact.2.2.2.1 (hexact.1.1 ⟨_, rfl⟩)
  exact ⟨hexact.2.1 _ rfl, q, hexact.2.2.2.2 q hq⟩

end Piece

end Calculator
