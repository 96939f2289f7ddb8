import Calculator.Proofs.Syntax.Groups
import Calculator.Proofs.Syntax.Parts

/-!
# Parameters

The commas that stand inside no pair of parentheses cut a balanced piece into its parts. Splitting
at them returns these parts if none is empty, and otherwise fails at the first comma that has an
empty part before it or that ends the piece.
-/

namespace Calculator

namespace Piece

/-- A comma that stands inside no pair of parentheses stands at the offset. -/
def TopComma (p : Piece) (k : Nat) : Prop :=
  p.HasAt k ',' ∧ ∀ i j, p.Matched i j → ¬(i < k ∧ k < j)

/-- A part starts at the offset: there the piece starts, or a comma stands before it. -/
def StartsPart (p : Piece) (i : Nat) : Prop :=
  i = p.offset ∨ ∃ l, p.TopComma l ∧ i = l + 1

/-- A part ends at the offset: there the piece ends, or a comma stands there. -/
def EndsPart (p : Piece) (j : Nat) : Prop :=
  j = p.stop ∨ p.TopComma j

/-- A part lies between the offsets, without a comma on the way. -/
def HasPart (p : Piece) (i j : Nat) : Prop :=
  p.StartsPart i ∧ p.EndsPart j ∧ i ≤ j ∧ ∀ k, i ≤ k → k < j → ¬p.TopComma k

/-- A comma stands at the offset that has an empty part before it or that ends the piece. -/
def LeavesEmpty (p : Piece) (k : Nat) : Prop :=
  p.TopComma k ∧ (p.StartsPart k ∨ k + 1 = p.stop)

/-- The pieces are the parts of the piece from left to right, with a comma between any two of
them. -/
structure SplitsInto (p : Piece) (pieces : List Piece) : Prop where
  chars_eq : p.chars = [','].intercalate (pieces.map (·.chars))
  head?_eq : pieces.head?.map (·.offset) = some p.offset
  consecutive : pieces.IsChain fun q r => r.offset = q.stop + 1
  balanced : ∀ q ∈ pieces, Balanced q.chars
  not_topComma : ∀ q ∈ pieces, ∀ k, ¬q.TopComma k
  hasPart_iff : ∀ i j, p.HasPart i j ↔ ∃ q ∈ pieces, q.offset = i ∧ q.stop = j

section Commas

variable {offset i j k : Nat} {c : Char} {cs ds : List Char}

/-- A comma of a text that starts with a balanced part stands in that part or after it. -/
theorem topComma_append_iff (hcs : Balanced cs) :
    (⟨offset, cs ++ ds⟩ : Piece).TopComma k ↔
      (⟨offset, cs⟩ : Piece).TopComma k ∨ (⟨offset + cs.length, ds⟩ : Piece).TopComma k := by
  constructor
  · rintro ⟨hat, hnone⟩
    refine (hasAt_append_iff.1 hat).imp (fun hat => ⟨hat, fun i j h => hnone i j ?_⟩)
      (fun hat => ⟨hat, fun i j h => hnone i j ?_⟩)
    · exact (matched_append_iff hcs).2 (.inl h)
    · exact (matched_append_iff hcs).2 (.inr h)
  -- A pair in one of the two parts does not surround a comma in the other one.
  · rintro (⟨hat, hnone⟩ | ⟨hat, hnone⟩)
    · refine ⟨hasAt_append_iff.2 (.inl hat), fun i j h => ?_⟩
      obtain h | h := (matched_append_iff hcs).1 h
      · exact hnone i j h
      · have hcomma := hat.bounds
        have hpair := h.bounds
        simp only [stop] at hcomma hpair
        omega
    · refine ⟨hasAt_append_iff.2 (.inr hat), fun i j h => ?_⟩
      obtain h | h := (matched_append_iff hcs).1 h
      · have hcomma := hat.bounds
        have hpair := h.bounds
        simp only [stop] at hcomma hpair
        omega
      · exact hnone i j h

/-- In an empty text stands no comma. -/
theorem not_topComma_nil : ¬(⟨offset, []⟩ : Piece).TopComma k :=
  fun h => not_hasAt_nil h.1

/-- The comma of a text of one character is that character. -/
theorem topComma_singleton_iff (hopen : c ≠ '(') :
    (⟨offset, [c]⟩ : Piece).TopComma k ↔ k = offset ∧ c = ',' := by
  simp [TopComma, hasAt_cons_iff, matched_cons_iff hopen, not_matched_nil, not_hasAt_nil, eq_comm]

/-- A comma inside a group does not split the text. -/
theorem not_topComma_parenthesized (hcs : Balanced cs) :
    ¬(⟨offset, '(' :: (cs ++ [')'])⟩ : Piece).TopComma k := by
  rintro ⟨hat, hnone⟩
  refine hnone _ _ ((matched_group_iff hcs).2 (.inl ⟨rfl, rfl⟩)) ?_
  have hinside : (⟨offset + 1, cs⟩ : Piece).HasAt k ',' := by
    simpa [hasAt_group_iff, not_hasAt_nil] using hat
  have hbounds := hinside.bounds
  simp only [stop] at hbounds
  omega

end Commas

end Piece

/-- A balanced text is split at all the commas that stand inside no parentheses. -/
theorem Balanced.not_topComma_of_splitCommas {cs : List Char} (h : Balanced cs) {part : List Char}
    {parts : List (List Char)} (hsplit : Calculator.splitCommas 0 cs = (part, parts)) :
    ∀ ds ∈ part :: parts, ∀ offset k, ¬(⟨offset, ds⟩ : Piece).TopComma k := by
  induction h generalizing part parts with
  | nil =>
    obtain ⟨rfl, rfl⟩ := Prod.mk.inj hsplit
    simpa using fun _ _ => Piece.not_topComma_nil
  | @char c cs hopen hclose _ ih =>
    rw [Calculator.splitCommas, nestingAfter_of_ne hopen hclose] at hsplit
    rcases hrest : Calculator.splitCommas 0 cs with ⟨next, more⟩
    obtain ⟨hnext, hmore⟩ := List.forall_mem_cons.1 (ih hrest)
    rw [hrest] at hsplit
    simp only at hsplit
    split at hsplit
    · obtain ⟨rfl, rfl⟩ := Prod.mk.inj hsplit
      exact List.forall_mem_cons.2
        ⟨fun _ _ => Piece.not_topComma_nil, List.forall_mem_cons.2 ⟨hnext, hmore⟩⟩
    · next hcomma =>
      obtain ⟨rfl, rfl⟩ := Prod.mk.inj hsplit
      refine List.forall_mem_cons.2 ⟨fun offset k hk => ?_, hmore⟩
      rw [← List.singleton_append,
        Piece.topComma_append_iff (.char hopen hclose .nil),
        Piece.topComma_singleton_iff hopen] at hk
      exact hk.elim (fun hc => hcomma ⟨hc.2, trivial⟩) (hnext _ k)
  | @group inside after hinside _ _ ihafter =>
    have hgroup := (Phrase.parenthesized hinside).commas after
    simp only [List.cons_append, List.append_assoc, List.nil_append] at hgroup
    rw [hgroup] at hsplit
    obtain ⟨rfl, rfl⟩ := Prod.mk.inj hsplit
    obtain ⟨hpart, hparts⟩ := List.forall_mem_cons.1 (ihafter rfl)
    refine List.forall_mem_cons.2 ⟨fun offset k hk => ?_, hparts⟩
    rw [List.append_cons, ← List.cons_append,
      Piece.topComma_append_iff hinside.parenthesized] at hk
    exact hk.elim (Piece.not_topComma_parenthesized hinside) (hpart _ k)

namespace Piece

section Step

variable {offset i j k : Nat} {part rest : List Char}

/-- The first comma of a text is the one after its first part. -/
theorem topComma_part_iff (hpart : Balanced part)
    (hnone : ∀ offset k, ¬(⟨offset, part⟩ : Piece).TopComma k) :
    (⟨offset, part ++ ',' :: rest⟩ : Piece).TopComma k ↔
      k = offset + part.length ∨ (⟨offset + part.length + 1, rest⟩ : Piece).TopComma k := by
  have hcomma : Balanced [','] := .char (by decide) (by decide) .nil
  rw [topComma_append_iff hpart, ← List.singleton_append, topComma_append_iff hcomma,
    topComma_singleton_iff (by decide)]
  simp [hnone]

/-- A text ends where what follows its first comma ends. -/
theorem stop_part_eq :
    (⟨offset, part ++ ',' :: rest⟩ : Piece).stop =
      (⟨offset + part.length + 1, rest⟩ : Piece).stop := by
  simp only [stop, List.length_append, List.length_cons]
  omega

/-- A part starts no earlier than the piece does. -/
theorem StartsPart.le {p : Piece} (h : p.StartsPart i) : p.offset ≤ i := by
  obtain rfl | ⟨l, hl, rfl⟩ := h
  · exact Nat.le_refl _
  · exact Nat.le_succ_of_le hl.1.bounds.1

/-- A part ends no earlier than the piece starts. -/
theorem EndsPart.le {p : Piece} (h : p.EndsPart j) : p.offset ≤ j := by
  obtain rfl | hj := h
  · exact Nat.le_add_right _ _
  · exact hj.1.bounds.1

/-- The parts of a text start where it does and where those after the first comma start. -/
theorem startsPart_part_iff (hpart : Balanced part)
    (hnone : ∀ offset k, ¬(⟨offset, part⟩ : Piece).TopComma k) :
    (⟨offset, part ++ ',' :: rest⟩ : Piece).StartsPart i ↔
      i = offset ∨ (⟨offset + part.length + 1, rest⟩ : Piece).StartsPart i := by
  simp only [StartsPart, topComma_part_iff hpart hnone, or_and_right, exists_or, exists_eq_left]

/-- The parts of a text end at its first comma and where those after this comma end. -/
theorem endsPart_part_iff (hpart : Balanced part)
    (hnone : ∀ offset k, ¬(⟨offset, part⟩ : Piece).TopComma k) :
    (⟨offset, part ++ ',' :: rest⟩ : Piece).EndsPart j ↔
      j = offset + part.length ∨ (⟨offset + part.length + 1, rest⟩ : Piece).EndsPart j := by
  simp only [EndsPart, topComma_part_iff hpart hnone, stop_part_eq]
  exact or_left_comm

/-- The parts of a text are its first part and those after the first comma. -/
theorem hasPart_part_iff (hpart : Balanced part)
    (hnone : ∀ offset k, ¬(⟨offset, part⟩ : Piece).TopComma k) :
    (⟨offset, part ++ ',' :: rest⟩ : Piece).HasPart i j ↔
      (i = offset ∧ j = offset + part.length) ∨
        (⟨offset + part.length + 1, rest⟩ : Piece).HasPart i j := by
  simp only [HasPart, startsPart_part_iff hpart hnone, endsPart_part_iff hpart hnone,
    topComma_part_iff hpart hnone]
  constructor
  · rintro ⟨rfl | hstart, rfl | hend, hle, hclear⟩
    · exact .inl ⟨rfl, rfl⟩
    · have hlate := hend.le
      exact absurd (.inl rfl) (hclear (i + part.length) (by omega) hlate)
    · have hlate := hstart.le
      simp only at hlate
      omega
    · exact .inr ⟨hstart, hend, hle, fun k hk hlt h => hclear k hk hlt (.inr h)⟩
  · rintro (⟨rfl, rfl⟩ | ⟨hstart, hend, hle, hclear⟩)
    · refine ⟨.inl rfl, .inl rfl, by omega, ?_⟩
      rintro k - hlt (rfl | hk)
      · omega
      · have hlate := hk.1.bounds.1
        simp only at hlate
        omega
    · refine ⟨.inr hstart, .inr hend, hle, ?_⟩
      rintro k hk hlt (rfl | htop)
      · have hlate := hstart.le
        simp only at hlate
        omega
      · exact hclear k hk hlt htop

/-- A comma beside an empty part is the first one, with nothing before it or after it, or it is one
of the rest. -/
theorem leavesEmpty_part_iff (hpart : Balanced part)
    (hnone : ∀ offset k, ¬(⟨offset, part⟩ : Piece).TopComma k) :
    (⟨offset, part ++ ',' :: rest⟩ : Piece).LeavesEmpty k ↔
      (k = offset + part.length ∧ (part = [] ∨ rest = [])) ∨
        (⟨offset + part.length + 1, rest⟩ : Piece).LeavesEmpty k := by
  have hstop : (⟨offset + part.length + 1, rest⟩ : Piece).stop =
      offset + part.length + 1 + rest.length := rfl
  simp only [LeavesEmpty, startsPart_part_iff hpart hnone, topComma_part_iff hpart hnone,
    stop_part_eq, hstop, ← List.length_eq_zero_iff]
  constructor
  · rintro ⟨rfl | hk, hempty⟩
    · refine .inl ⟨rfl, ?_⟩
      obtain (heq | hstart) | hend := hempty
      · exact .inl (by omega)
      · have hlate := hstart.le
        simp only at hlate
        omega
      · exact .inr (by omega)
    · have hlate := hk.1.bounds.1
      simp only at hlate
      exact .inr ⟨hk, hempty.imp_left fun hstart => hstart.resolve_left (by omega)⟩
  · rintro (⟨rfl, hempty⟩ | ⟨hk, hempty⟩)
    · exact ⟨.inl rfl, hempty.imp (fun h => .inl (by omega)) (fun h => by omega)⟩
    · exact ⟨.inr hk, hempty.imp_left .inr⟩

end Step

/-- A balanced piece without commas is its only part. -/
theorem splitsInto_singleton {p : Piece} (h : Balanced p.chars) (hnone : ∀ k, ¬p.TopComma k) :
    p.SplitsInto [p] where
  chars_eq := by simp
  head?_eq := rfl
  consecutive := .singleton p
  balanced := by simpa using h
  not_topComma := by simpa using hnone
  hasPart_iff := by
    have hle : p.offset ≤ p.stop := Nat.le_add_right _ _
    simp only [HasPart, StartsPart, EndsPart, hnone, List.mem_singleton, exists_eq_left]
    grind

/-- The first part of a text comes before the parts of what follows its first comma. -/
theorem SplitsInto.cons {offset : Nat} {part rest : List Char} {pieces : List Piece}
    (hpart : Balanced part) (hnone : ∀ offset k, ¬(⟨offset, part⟩ : Piece).TopComma k)
    (h : (⟨offset + part.length + 1, rest⟩ : Piece).SplitsInto pieces) :
    (⟨offset, part ++ ',' :: rest⟩ : Piece).SplitsInto (⟨offset, part⟩ :: pieces) := by
  obtain ⟨hchars, hhead, hconsecutive, hbalanced, hclear, hparts⟩ := h
  cases pieces with
  | nil => cases hhead
  | cons q pieces =>
    refine ⟨?_, rfl, .cons_cons (Option.some.inj hhead) hconsecutive,
      List.forall_mem_cons.2 ⟨hpart, hbalanced⟩, List.forall_mem_cons.2 ⟨hnone offset, hclear⟩,
      fun i j => ?_⟩
    · simp only at hchars
      simp [hchars]
    · rw [hasPart_part_iff hpart hnone, hparts]
      simp only [List.mem_cons, exists_eq_or_imp, stop, eq_comm]

/-- Parts without commas are what a text is split into, unless a comma beside an empty part is
found, and then that is the first such comma. -/
theorem refuseEmptyParts_spec {part : List Char} {parts : List (List Char)}
    (hbalanced : ∀ ds ∈ part :: parts, Balanced ds)
    (hnone : ∀ ds ∈ part :: parts, ∀ offset k, ¬(⟨offset, ds⟩ : Piece).TopComma k)
    (offset : Nat) :
    (∃ pieces, refuseEmptyParts offset part parts = .ok pieces ∧
      (⟨offset, [','].intercalate (part :: parts)⟩ : Piece).SplitsInto pieces ∧
        ∀ k, ¬(⟨offset, [','].intercalate (part :: parts)⟩ : Piece).LeavesEmpty k) ∨
      ∃ k, refuseEmptyParts offset part parts = .error ⟨.emptyParameter, k⟩ ∧
        (⟨offset, [','].intercalate (part :: parts)⟩ : Piece).LeavesEmpty k ∧
          ∀ l < k, ¬(⟨offset, [','].intercalate (part :: parts)⟩ : Piece).LeavesEmpty l := by
  induction parts generalizing offset part with
  | nil =>
    have hpart := hbalanced part (by simp)
    have hclear := hnone part (by simp)
    rw [List.intercalate_singleton]
    exact .inl ⟨_, rfl, splitsInto_singleton hpart (hclear offset),
      fun k hk => hclear offset k hk.1⟩
  | cons next parts ih =>
    obtain ⟨hpart, hbalanced⟩ := List.forall_mem_cons.1 hbalanced
    obtain ⟨hclear, hnone⟩ := List.forall_mem_cons.1 hnone
    have hrest : [','].intercalate (next :: parts) = [] ↔ next = [] ∧ parts = [] := by
      cases parts <;> simp
    rw [List.intercalate_cons_cons, List.append_assoc, List.singleton_append]
    simp only [leavesEmpty_part_iff hpart hclear, hrest]
    by_cases hempty : part = [] ∨ next = [] ∧ parts = []
    · refine .inr ⟨offset + part.length, ?_, .inl ⟨rfl, hempty⟩, fun l hl => ?_⟩
      · rw [refuseEmptyParts, if_pos (by simpa using hempty)]
      · rintro (⟨rfl, -⟩ | hlate)
        · omega
        · have hbounds := hlate.1.1.bounds
          simp only at hbounds
          omega
    · simp only [hempty, and_false, false_or]
      rw [refuseEmptyParts, if_neg (by simpa using hempty)]
      obtain ⟨pieces, hpieces, hsplit, hleaves⟩ | ⟨k, hfault, hleaves⟩ :=
        ih hbalanced hnone (offset + part.length + 1)
      · exact .inl ⟨⟨offset, part⟩ :: pieces, by rw [hpieces], hsplit.cons hpart hclear, hleaves⟩
      · exact .inr ⟨k, by rw [hfault], hleaves⟩

/-- A balanced piece is split into its parts, or the fault is its first comma that has an empty part
before it or that ends the piece. -/
theorem parameters_of_balanced {p : Piece} (h : Balanced p.chars) (hne : p.chars ≠ []) :
    (∃ pieces, p.parameters = .ok pieces ∧ p.SplitsInto pieces ∧ ∀ k, ¬p.LeavesEmpty k) ∨
      ∃ k, p.parameters = .error ⟨.emptyParameter, k⟩ ∧ p.LeavesEmpty k ∧
        ∀ l < k, ¬p.LeavesEmpty l := by
  obtain ⟨groups, hgroups⟩ := exists_groups_iff.2 h
  rcases hsplit : splitCommas 0 p.chars with ⟨part, parts⟩
  have hparameters : p.parameters = refuseEmptyParts p.offset part parts := by
    rw [parameters, if_neg (by simpa using hne), hgroups, hsplit]
  have hspec := refuseEmptyParts_spec (h.splitCommas hsplit)
    (h.not_topComma_of_splitCommas hsplit) p.offset
  rwa [← splitCommas_eq hsplit, ← hparameters] at hspec

/-- In a piece that is not empty a comma leaves an empty part if and only if there is one. -/
theorem exists_leavesEmpty_iff {p : Piece} (hne : p.chars ≠ []) :
    (∃ k, p.LeavesEmpty k) ↔ ∃ i, p.HasPart i i := by
  constructor
  · rintro ⟨k, htop, hstart | hend⟩
    · exact ⟨k, hstart, .inr htop, Nat.le_refl k, fun l hl hlt => by omega⟩
    · exact ⟨k + 1, .inr ⟨k, htop, rfl⟩, .inl hend, Nat.le_refl _, fun l hl hlt => by omega⟩
  · rintro ⟨i, hstart, rfl | htop, -, -⟩
    · obtain heq | ⟨l, hl, heq⟩ := hstart
      · exact absurd (List.length_eq_zero_iff.1 (Nat.add_eq_left.1 heq)) hne
      · exact ⟨l, hl, .inr heq.symm⟩
    · exact ⟨i, htop, .inl hstart⟩

/-- If no comma leaves an empty part, then no part is empty. -/
theorem HasPart.lt_of_not_leavesEmpty {p : Piece} {i j : Nat} (hpart : p.HasPart i j)
    (hne : p.chars ≠ []) (hleaves : ∀ k, ¬p.LeavesEmpty k) : i < j := by
  refine Nat.lt_of_le_of_ne hpart.2.2.1 ?_
  rintro rfl
  obtain ⟨k, hk⟩ := (exists_leavesEmpty_iff hne).2 ⟨i, hpart⟩
  exact hleaves k hk

/-- If no part is empty, then none of the pieces is that a piece is split into. -/
theorem SplitsInto.ne_nil {p : Piece} {pieces : List Piece} (h : p.SplitsInto pieces)
    (hlt : ∀ i j, p.HasPart i j → i < j) : ∀ q ∈ pieces, q.chars ≠ [] := by
  intro q hq hnil
  have hpart := hlt _ _ ((h.hasPart_iff _ _).2 ⟨q, hq, rfl, rfl⟩)
  simp [stop, hnil] at hpart

/-- A piece that is not balanced has no parameters: a parenthesis without a partner is found
first. -/
theorem parameters_of_not_balanced {p : Piece} (h : ¬Balanced p.chars) :
    ∃ k, p.parameters = .error ⟨.unmatchedParenthesis, k⟩ ∧ p.Unpaired k := by
  have hne : p.chars ≠ [] := fun hnil => h (hnil ▸ .nil)
  cases hgroups : p.groups with
  | ok groups => exact absurd (exists_groups_iff.1 ⟨groups, hgroups⟩) h
  | error fault =>
    obtain ⟨k, rfl, hk, -⟩ := unpaired_of_groups hgroups
    refine ⟨k, ?_, hk⟩
    rw [parameters, if_neg (by simpa using hne), hgroups]

/-- A balanced piece has parameters if and only if it is not empty and none of its parts is. They
are its parts, from left to right. Otherwise the fault is an empty parameter, at the start of an
empty piece, and else at the first comma that has an empty part before it or that ends the piece.
A piece that is not balanced fails for an unmatched parenthesis. -/
theorem parameters_exact (p : Piece) :
    (Balanced p.chars →
      ((∃ pieces, p.parameters = .ok pieces) ↔
        p.chars ≠ [] ∧ ∀ i j, p.HasPart i j → i < j) ∧
      (∀ pieces, p.parameters = .ok pieces → p.SplitsInto pieces ∧ ∀ q ∈ pieces, q.chars ≠ []) ∧
      ∀ fault, p.parameters = .error fault → fault.cause = .emptyParameter ∧
        ((p.chars = [] ∧ fault.offset = p.offset) ∨
          (p.chars ≠ [] ∧ p.LeavesEmpty fault.offset ∧
            ∀ l < fault.offset, ¬p.LeavesEmpty l))) ∧
    (¬Balanced p.chars → ∃ k, p.parameters = .error ⟨.unmatchedParenthesis, k⟩) := by
  refine ⟨fun h => ?_, fun h => ?_⟩
  · by_cases hne : p.chars = []
    · have hparameters : p.parameters = .error ⟨.emptyParameter, p.offset⟩ := by
        rw [parameters, if_pos (by simpa using hne)]
      simp [hparameters, hne]
    obtain ⟨pieces, hpieces, hsplit, hleaves⟩ | ⟨k, hfault, hk, hleast⟩ :=
      parameters_of_balanced h hne
    · have hlt : ∀ i j, p.HasPart i j → i < j :=
        fun i j hpart => hpart.lt_of_not_leavesEmpty hne hleaves
      simp only [hpieces]
      refine ⟨⟨fun _ => ⟨hne, hlt⟩, fun _ => ⟨pieces, rfl⟩⟩, ?_, ?_⟩
      · rintro _ ⟨⟩
        exact ⟨hsplit, hsplit.ne_nil hlt⟩
      · rintro _ ⟨⟩
    · simp only [hfault]
      refine ⟨⟨?_, ?_⟩, ?_, ?_⟩
      · rintro ⟨_, ⟨⟩⟩
      · rintro ⟨-, hparts⟩
        obtain ⟨i, hi⟩ := (exists_leavesEmpty_iff hne).1 ⟨k, hk⟩
        exact absurd (hparts i i hi) (Nat.lt_irrefl i)
      · rintro _ ⟨⟩
      · rintro _ ⟨⟩
        exact ⟨rfl, .inr ⟨hne, hk, hleast⟩⟩
  · obtain ⟨k, hk, -⟩ := parameters_of_not_balanced h
    exact ⟨k, hk⟩

/-- The comma inside the parentheses of `a,(b,c)` does not separate parameters, and `a)` has
none. -/
theorem parameters_nestedComma :
    (⟨2, ['a', ',', '(', 'b', ',', 'c', ')']⟩ : Piece).SplitsInto
        [⟨2, ['a']⟩, ⟨4, ['(', 'b', ',', 'c', ')']⟩] ∧
      ∃ k, (⟨2, ['a', ')']⟩ : Piece).parameters = .error ⟨.unmatchedParenthesis, k⟩ := by
  have hbalanced : Balanced (⟨2, ['a', ',', '(', 'b', ',', 'c', ')']⟩ : Piece).chars :=
    exists_groups_iff.1 ⟨_, rfl⟩
  have hunbalanced : ¬Balanced (⟨2, ['a', ')']⟩ : Piece).chars := by
    rw [← exists_groups_iff]
    simp [groups, groupsFrom]
  exact ⟨(((parameters_exact ⟨2, _⟩).1 hbalanced).2.1 _ rfl).1,
    (parameters_exact ⟨2, _⟩).2 hunbalanced⟩

end Piece

end Calculator
