import Calculator.Proofs.Syntax.Parts

/-!
# Where pieces stand

Every piece that is read has been cut out of the source, and its offset is the number of characters
before it. A piece ends like an operand, unless nothing that goes on an operand follows it, and
only between a pair of parentheses is a piece empty.
-/

namespace Calculator

namespace Piece

/-- A piece `q` that is cut out of another one, between `front` and `back`. -/
structure Cut (p : Piece) (front : List Char) (q : Piece) (back : List Char) : Prop where
  chars : p.chars = front ++ (q.chars ++ back)
  offset : q.offset = p.offset + front.length
  stop : ∀ c ∈ back.head?, endsOperand q.chars.getLast? = true ∨ c = ')' ∨ c = ','
  empty : q.chars = [] → front.getLast? = some '(' ∧ back.head? = some ')'

section Cut

variable {p q r : Piece} {front back front' back' : List Char}

/-- The end of a piece may be cut off it unless it is empty. -/
theorem Cut.suffix (hchars : p.chars = front ++ q.chars)
    (hoffset : q.offset = p.offset + front.length) (hne : q.chars ≠ []) : p.Cut front q [] where
  chars := by rw [List.append_nil, hchars]
  offset := hoffset
  stop := nofun
  empty hempty := absurd hempty hne

/-- What is cut out of a piece leaves it at least one character. -/
theorem Cut.ne_nil (h : p.Cut front q back) : p.chars ≠ [] := by
  intro hnil
  have hparts := h.chars.symm.trans hnil
  simp only [List.append_eq_nil_iff] at hparts
  obtain ⟨rfl, hempty, -⟩ := hparts
  cases (h.empty hempty).1

/-- What is cut out of a piece that is itself cut out is cut out of the whole. -/
theorem Cut.trans (h : p.Cut front q back) (h' : q.Cut front' r back') :
    p.Cut (front ++ front') r (back' ++ back) where
  chars := by rw [h.chars, h'.chars]; simp
  offset := by rw [h'.offset, h.offset, List.length_append, Nat.add_assoc]
  stop := by
    intro c hc
    cases back' with
    | cons d back' => exact h'.stop c hc
    | nil =>
      -- Both pieces end with the same character, since the inner one is not empty.
      have hlast : q.chars.getLast? = r.chars.getLast? := by
        rw [h'.chars, List.append_nil, List.getLast?_append_of_ne_nil]
        intro hempty
        cases (h'.empty hempty).2
      exact hlast ▸ h.stop c hc
  empty := by
    intro hempty
    obtain ⟨hfront, hback⟩ := h'.empty hempty
    rw [List.getLast?_append, List.head?_append, hfront, hback]
    exact ⟨rfl, rfl⟩

/-- What stands inside the parentheses that end a piece is cut out of it. -/
theorem Cut.inside (front : List Char) {inside : List Char}
    (hchars : p.chars = front ++ '(' :: (inside ++ [')'])) :
    p.Cut (front ++ ['(']) ⟨p.offset + front.length + 1, inside⟩ [')'] where
  chars := by rw [hchars]; simp
  offset := by rw [List.length_append]; rfl
  stop c hc := .inr (.inl (Option.some.inj hc).symm)
  empty _ := ⟨List.getLast?_concat, rfl⟩

end Cut

end Piece

/-- The link after some others stands where its offset says among the characters that were split,
its operand stands after its operator, and the operator is accepted there. -/
theorem splitAtPrecedence_link {precedence depth offset : Nat} {previous : Option Char}
    {cs first : List Char} {before after : List Link} {link : Link}
    (h : splitAtPrecedence precedence offset (markOperators previous depth cs) =
      (first, before ++ link :: after)) :
    link.offset = offset + (first ++ before.flatMap Link.chars).length ∧
      link.operand.offset = link.offset + 1 ∧
      accepts ((first ++ before.flatMap Link.chars).getLast?.or previous) link.operator = true := by
  induction cs generalizing offset previous depth first before with
  | nil => simp [markOperators, splitAtPrecedence] at h
  | cons c cs ih =>
    rw [markOperators_cons] at h
    rcases hrest : splitAtPrecedence precedence (offset + 1)
      (markOperators (some c) (nestingAfter depth c) cs) with ⟨operand, more⟩
    -- A character before the first operand only shifts what is split after it.
    have hshift {before : List Link} (hmore : more = before ++ link :: after) :
        link.offset = offset + (c :: (operand ++ before.flatMap Link.chars)).length ∧
          link.operand.offset = link.offset + 1 ∧
          accepts (c :: (operand ++ before.flatMap Link.chars)).getLast? link.operator = true := by
      rw [hmore] at hrest
      obtain ⟨hoffset, hoperand, haccepts⟩ := ih hrest
      refine ⟨by rw [hoffset, List.length_cons]; omega, hoperand, ?_⟩
      rw [List.getLast?_cons]
      rwa [Option.or_some] at haccepts
    rw [splitAtPrecedence, hrest] at h
    cases hmark : mark previous depth c with
    | none =>
      simp only [hmark] at h
      obtain ⟨rfl, hmore⟩ := Prod.mk.inj h
      simpa [List.getLast?_cons] using hshift hmore
    | some op =>
      simp only [hmark] at h
      split at h
      · obtain ⟨rfl, hmore⟩ := Prod.mk.inj h
        obtain ⟨hdepth, rfl⟩ := mark_eq_some hmark
        cases before with
        | nil =>
          obtain ⟨rfl, -⟩ := List.cons.inj hmore
          rw [mark, if_pos hdepth] at hmark
          exact ⟨rfl, rfl, (Option.filter_eq_some_iff.1 hmark).2⟩
        | cons other before =>
          obtain ⟨rfl, hrest⟩ := List.cons.inj hmore
          simpa [Link.chars, List.getLast?_cons] using hshift hrest
      · obtain ⟨rfl, hmore⟩ := Prod.mk.inj h
        simpa [List.getLast?_cons] using hshift hmore

/-- Where a character is followed by an operator that splits, an operand may end with it. -/
theorem endsOperand_of_accepts {c : Char} {op : Operator} (h : accepts (some c) op = true) :
    endsOperand (some c) = true := by
  cases hends : endsOperand (some c) with
  | true => rfl
  | false =>
    rw [accepts_some_eq_false hends] at h
    cases h

namespace Piece

section Chain

variable {p : Piece} {chain : Chain}

/-- A chain starts where its piece does. -/
theorem offset_of_chain? (h : p.chain? = some chain) : chain.first.offset = p.offset := by
  simp only [chain?] at h
  split at h
  · cases h
  · split at h
    · obtain rfl := Option.some.inj h
      rfl
    · cases h

/-- A link of a chain stands in the piece where its offset says, its operand stands after its
operator, and the operator is accepted there. -/
theorem link_of_chain? (h : p.chain? = some chain) (before : List Link) {after : List Link}
    {link : Link} (hlinks : chain.link :: chain.links = before ++ link :: after) {front : List Char}
    (hfront : chain.first.chars ++ before.flatMap Link.chars = front) :
    p.chars = front ++ (link.chars ++ after.flatMap Link.chars) ∧
      link.offset = p.offset + front.length ∧ link.operand.offset = link.offset + 1 ∧
      accepts front.getLast? link.operator = true := by
  refine ⟨?_, ?_⟩
  · obtain ⟨hchars, -⟩ := chain?_eq_some h
    rw [hchars, hlinks, ← hfront]
    simp
  · simp only [chain?] at h
    split at h
    · cases h
    · split at h
      · next operand found links hsplit =>
        obtain rfl := Option.some.inj h
        simp only at hlinks hfront
        rw [hlinks] at hsplit
        rw [← hfront]
        simpa using splitAtPrecedence_link hsplit
      · cases h

/-- Around a link of a chain stands the rest of the piece. What follows the link starts with an
operator that splits, so an operand may end with the link. -/
theorem exists_of_mem_links (h : p.chain? = some chain) {link : Link}
    (hmem : link ∈ chain.link :: chain.links) :
    ∃ front back, p.chars = front ++ (link.chars ++ back) ∧
      link.offset = p.offset + front.length ∧ link.operand.offset = link.offset + 1 ∧
      ∀ c ∈ back.head?, endsOperand link.chars.getLast? = true := by
  obtain ⟨before, after, hlinks⟩ := List.append_of_mem hmem
  obtain ⟨hchars, hoffset, hoperand, -⟩ := link_of_chain? h before hlinks rfl
  refine ⟨_, _, hchars, hoffset, hoperand, fun c hc => ?_⟩
  cases after with
  | nil => cases hc
  | cons next after =>
    have hnext : chain.link :: chain.links = (before ++ [link]) ++ next :: after := by
      simpa using hlinks
    obtain ⟨-, -, -, haccepts⟩ := link_of_chain? h (before ++ [link]) hnext rfl
    have hne : link.chars ≠ [] := List.cons_ne_nil _ _
    rw [List.flatMap_append, List.flatMap_singleton, ← List.append_assoc,
      List.getLast?_append_of_ne_nil _ hne, List.getLast?_eq_some_getLast hne] at haccepts
    rw [List.getLast?_eq_some_getLast hne]
    exact endsOperand_of_accepts haccepts

/-- An operand that is not empty is cut out of its piece. -/
theorem exists_cut_of_chain? (h : p.chain? = some chain) {q : Piece} (hmem : q ∈ chain.operands)
    (hne : q.chars ≠ []) : ∃ front back, p.Cut front q back := by
  have hlink {link : Link} (hmem : link ∈ chain.link :: chain.links) (hq : link.operand = q) :
      ∃ front back, p.Cut front q back := by
    obtain ⟨front, back, hchars, hoffset, hoperand, hends⟩ := exists_of_mem_links h hmem
    have hlast : link.chars.getLast? = q.chars.getLast? := by
      rw [Link.chars, hq]
      exact List.getLast?_append_of_ne_nil [_] hne
    refine ⟨front ++ [link.operator.symbol], back, ?_, ?_, fun c hc => ?_, (absurd · hne)⟩
    · rw [hchars, Link.chars, hq]
      simp
    · rw [← hq, hoperand, hoffset, List.length_append]
      rfl
    · exact .inl (hlast ▸ hends c hc)
  simp only [Chain.operands, List.mem_cons, List.mem_map] at hmem
  rcases hmem with rfl | rfl | ⟨link, hmem, rfl⟩
  · obtain ⟨hchars, -, -, haccepts⟩ := link_of_chain? h [] rfl rfl
    refine ⟨[], (chain.link :: chain.links).flatMap Link.chars, by simpa using hchars,
      offset_of_chain? h, fun c _ => ?_, (absurd · hne)⟩
    simp only [List.flatMap_nil, List.append_nil, List.getLast?_eq_some_getLast hne] at haccepts
    rw [List.getLast?_eq_some_getLast hne]
    exact .inl (endsOperand_of_accepts haccepts)
  · exact hlink List.mem_cons_self rfl
  · exact hlink (List.mem_cons_of_mem chain.link hmem) rfl

end Chain

end Piece

/-- The parts between commas are cut out of the whole if none of them is refused. -/
theorem exists_cut_of_refuseEmptyParts {offset : Nat} {part : List Char}
    {parts : List (List Char)} {pieces : List Piece}
    (h : refuseEmptyParts offset part parts = .ok pieces)
    (hne : [','].intercalate (part :: parts) ≠ []) {q : Piece} (hq : q ∈ pieces) :
    ∃ front back, (⟨offset, [','].intercalate (part :: parts)⟩ : Piece).Cut front q back := by
  induction parts generalizing offset part pieces with
  | nil =>
    obtain rfl := Except.ok.inj h
    obtain rfl := List.mem_singleton.1 hq
    exact ⟨[], [], .suffix (by simp) rfl (by simpa using hne)⟩
  | cons next parts ih =>
    simp only [refuseEmptyParts] at h
    split at h
    · cases h
    · next hempty =>
      simp only [Bool.or_eq_true, Bool.and_eq_true, List.isEmpty_iff, not_or, not_and] at hempty
      obtain ⟨hpart, hnext⟩ := hempty
      split at h
      · next more hmore =>
        obtain rfl := Except.ok.inj h
        have hrest : [','].intercalate (next :: parts) ≠ [] := by
          cases parts with
          | nil => simpa using fun hnil => hnext hnil rfl
          | cons => simp [List.intercalate_cons_cons]
        rw [List.intercalate_cons_cons, List.append_assoc]
        rcases List.mem_cons.1 hq with rfl | hq
        · refine ⟨[], [','] ++ [','].intercalate (next :: parts), rfl, rfl, ?_, (absurd · hpart)⟩
          exact fun c hc => .inr (.inr (Option.some.inj hc).symm)
        · obtain ⟨front, back, hcut⟩ := ih hmore hrest hq
          have hafter : (⟨offset, part ++ ([','] ++ [','].intercalate (next :: parts))⟩ :
              Piece).Cut (part ++ [',']) ⟨offset + part.length + 1,
                [','].intercalate (next :: parts)⟩ [] :=
            .suffix (by simp) (by simp; omega) hrest
          exact ⟨_, _, hafter.trans hcut⟩
      · cases h

namespace Piece

/-- The parameters of a call are cut out of what stands inside its parentheses. -/
theorem exists_cut_of_parameters {p q : Piece} {pieces : List Piece}
    (h : p.parameters = .ok pieces) (hq : q ∈ pieces) : ∃ front back, p.Cut front q back := by
  rw [parameters] at h
  split at h
  · cases h
  · next hne =>
    split at h
    · cases h
    · rcases hsplit : splitCommas 0 p.chars with ⟨part, parts⟩
      rw [hsplit] at h
      have hchars := splitCommas_eq hsplit
      have hcut := exists_cut_of_refuseEmptyParts h
        (hchars ▸ fun hempty => hne (List.isEmpty_iff.2 hempty)) hq
      rwa [← hchars] at hcut

/-- A piece that is cut out of a source. -/
def StandsIn (source : List Char) (p : Piece) : Prop :=
  ∃ front back, (⟨0, source⟩ : Piece).Cut front p back

namespace StandsIn

variable {source : List Char} {p q : Piece}

/-- A source that is not empty stands in itself. -/
theorem whole (h : source ≠ []) : StandsIn source ⟨0, source⟩ :=
  ⟨[], [], .suffix rfl rfl h⟩

/-- What is cut out of a piece of a source is cut out of the source. -/
theorem cut (h : StandsIn source p) {front back : List Char} (hcut : p.Cut front q back) :
    StandsIn source q := by
  obtain ⟨front', back', h⟩ := h
  exact ⟨_, _, h.trans hcut⟩

/-- The offset of a piece is where it stands. -/
theorem exists_drop (h : StandsIn source p) :
    ∃ back, source.drop p.offset = p.chars ++ back ∧
      (endsOperand p.chars.getLast? = false → ∀ c ∈ back.head?, c = ')' ∨ c = ',') := by
  obtain ⟨front, back, hcut⟩ := h
  have hchars : source = front ++ (p.chars ++ back) := hcut.chars
  have hoffset : p.offset = front.length := by simpa using hcut.offset
  refine ⟨back, by rw [hoffset, hchars, List.drop_left], fun hends c hc => ?_⟩
  refine (hcut.stop c hc).resolve_left ?_
  rw [hends]
  exact Bool.false_ne_true

/-- A character of a piece stands in the source as far after the offset of the piece. -/
theorem getElem?_of_mem (h : StandsIn source p) {k : Nat} {c : Char} (hc : p.chars[k]? = some c) :
    source[p.offset + k]? = some c := by
  obtain ⟨back, hdrop, -⟩ := h.exists_drop
  obtain ⟨hk, -⟩ := List.getElem?_eq_some_iff.1 hc
  rw [← List.getElem?_drop, hdrop, List.getElem?_append_left hk, hc]

/-- An empty piece stands between a pair of parentheses. -/
theorem parentheses_of_empty (h : StandsIn source p) (hempty : p.chars = []) :
    0 < p.offset ∧ source[p.offset - 1]? = some '(' ∧ source[p.offset]? = some ')' := by
  obtain ⟨front, back, hcut⟩ := h
  have hchars : source = front ++ (p.chars ++ back) := hcut.chars
  have hoffset : p.offset = front.length := by simpa using hcut.offset
  obtain ⟨hfront, hback⟩ := hcut.empty hempty
  rw [hempty, List.nil_append] at hchars
  have hpositive : 0 < front.length := by
    refine List.length_pos_iff.2 ?_
    rintro rfl
    cases hfront
  rw [hoffset, hchars]
  refine ⟨hpositive, ?_, ?_⟩
  · rw [List.getElem?_append_left (Nat.sub_lt hpositive Nat.one_pos), ← List.getLast?_eq_getElem?,
      hfront]
  · rw [List.getElem?_append_right (Nat.le_refl _), Nat.sub_self, ← List.head?_eq_getElem?, hback]

/-- What is left of a piece without the parentheses around it stands in the source. -/
theorem unwrap (h : StandsIn source p) (hunwrap : p.unwrap = .ok q) : StandsIn source q := by
  fun_induction Piece.unwrap p with
  | case1 p inside hgroup ih =>
    exact ih (h.cut (.inside [] (firstGroup_eq hgroup))) hunwrap
  | case2 p found hgroup hnot =>
    obtain rfl := Except.ok.inj hunwrap
    exact h
  | case3 p fault hgroup => cases hunwrap

/-- What stands inside the parentheses of a call stands in the source. -/
theorem call? (h : StandsIn source p) {name : String} {inside : Piece}
    (hcall : p.call? = some (name, inside)) : StandsIn source inside := by
  rw [Piece.call?] at hcall
  split at hcall
  · next c cs inside' hgroup =>
    obtain ⟨-, rfl⟩ := Prod.mk.inj (Option.some.inj hcall)
    exact h.cut (.inside (c :: cs) (firstGroup_eq hgroup))
  · cases hcall

/-- What is read one level below a piece of the source stands in the source. -/
theorem below (h : StandsIn source p) (hbelow : p.Below q) : StandsIn source q := by
  cases hbelow with
  | operand hunwrap hchain hmem hne =>
    obtain ⟨front, back, hcut⟩ := exists_cut_of_chain? hchain hmem hne
    exact (h.unwrap hunwrap).cut hcut
  | parameter hunwrap hcall hpieces hmem =>
    obtain ⟨front, back, hcut⟩ := exists_cut_of_parameters hpieces hmem
    exact ((h.unwrap hunwrap).call? hcall).cut hcut

end StandsIn

end Piece

end Calculator
