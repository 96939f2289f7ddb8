import Calculator.Proofs.Syntax.Exactness
import Calculator.Proofs.Syntax.Failure
import Calculator.Proofs.Syntax.Unmatched
import Mathlib.Logic.Relation

/-!
# Parts of balanced pieces

Whatever the parser reads on its way through a balanced piece is balanced: the inside of the
parentheses around it, the operands of its chain, the parameters of its call. So the only unmatched
parenthesis that it can report is the leftmost one of the whole text, and it reports that one
before anything else.
-/

namespace Calculator

/-- Characters without marks stay before what follows them. -/
theorem splitAtPrecedence_append_of_unmarked {precedence : Nat}
    {marks : List (Char × Option Operator)} (h : marks.filterMap (·.2) = []) (offset : Nat)
    (rest : List (Char × Option Operator)) :
    splitAtPrecedence precedence offset (marks ++ rest) =
      (marks.map (·.1) ++ (splitAtPrecedence precedence (offset + marks.length) rest).1,
        (splitAtPrecedence precedence (offset + marks.length) rest).2) := by
  induction marks generalizing offset with
  | nil => rfl
  | cons mark marks ih =>
    rcases mark with ⟨c, _ | op⟩
    · have hoffset : offset + 1 + marks.length = offset + (marks.length + 1) := by omega
      rw [List.cons_append, splitAtPrecedence, ih (by simpa using h)]
      simp [hoffset]
    · simp at h

/-- A balanced text is split into balanced operands. -/
theorem Balanced.splitAtPrecedence {cs : List Char} (h : Balanced cs) {precedence : Nat}
    {previous : Option Char} {offset : Nat} {first : List Char} {links : List Link}
    (hsplit : splitAtPrecedence precedence offset (markOperators previous 0 cs) = (first, links)) :
    Balanced first ∧ ∀ link ∈ links, Balanced link.operand.chars := by
  induction h generalizing previous offset first links with
  | nil =>
    obtain ⟨rfl, rfl⟩ := Prod.mk.inj hsplit
    exact ⟨.nil, nofun⟩
  | @char c cs hopen hclose _ ih =>
    rw [markOperators_cons, nestingAfter_of_ne hopen hclose, Calculator.splitAtPrecedence] at hsplit
    rcases hrest : Calculator.splitAtPrecedence precedence (offset + 1)
      (markOperators (some c) 0 cs) with ⟨operand, more⟩
    obtain ⟨hoperand, hmore⟩ := ih hrest
    have hkept : Balanced (c :: operand) := .char hopen hclose hoperand
    rw [hrest] at hsplit
    simp only at hsplit
    split at hsplit
    · split at hsplit
      · obtain ⟨rfl, rfl⟩ := Prod.mk.inj hsplit
        exact ⟨.nil, List.forall_mem_cons.2 ⟨hoperand, hmore⟩⟩
      · obtain ⟨rfl, rfl⟩ := Prod.mk.inj hsplit
        exact ⟨hkept, hmore⟩
    · obtain ⟨rfl, rfl⟩ := Prod.mk.inj hsplit
      exact ⟨hkept, hmore⟩
  | @group inside after hinside _ _ ihafter =>
    -- Nothing is marked in the group, so it stays whole at the start of the first operand.
    let group := ('(', none) :: (markOperators (some '(') 1 inside ++ [(')', none)])
    have hmarks : markOperators previous 0 ('(' :: (inside ++ ')' :: after)) =
        group ++ markOperators (some ')') 0 after := by
      have hopening : nestingAfter 0 '(' = 1 := rfl
      have hclosing : nestingAfter 1 ')' = 0 := rfl
      have hmark : mark previous 0 '(' = none := rfl
      rw [markOperators_cons, hopening, hmark, markOperators_append, hinside.foldl_nestingAfter,
        markOperators_cons, hclosing]
      simp [group, mark]
    have hunmarked : group.filterMap (·.2) = [] := by
      simp [group, hinside.filterMap_markOperators (some '(') 0]
    have hchars : group.map (·.1) = '(' :: (inside ++ [')']) := by simp [group]
    rw [hmarks, splitAtPrecedence_append_of_unmarked hunmarked, hchars] at hsplit
    obtain ⟨rfl, rfl⟩ := Prod.mk.inj hsplit
    obtain ⟨hfirst, hlinks⟩ := ihafter rfl
    exact ⟨hinside.parenthesized.append hfirst, hlinks⟩

/-- A balanced text is split at its commas into balanced parts. -/
theorem Balanced.splitCommas {cs : List Char} (h : Balanced cs) {part : List Char}
    {parts : List (List Char)} (hsplit : splitCommas 0 cs = (part, parts)) :
    ∀ p ∈ part :: parts, Balanced p := by
  induction h generalizing part parts with
  | nil =>
    obtain ⟨rfl, rfl⟩ := Prod.mk.inj hsplit
    simpa using Balanced.nil
  | @char c cs hopen hclose _ ih =>
    rw [Calculator.splitCommas, nestingAfter_of_ne hopen hclose] at hsplit
    rcases hrest : Calculator.splitCommas 0 cs with ⟨next, more⟩
    obtain ⟨hnext, hmore⟩ := List.forall_mem_cons.1 (ih hrest)
    rw [hrest] at hsplit
    simp only at hsplit
    split at hsplit
    · obtain ⟨rfl, rfl⟩ := Prod.mk.inj hsplit
      exact List.forall_mem_cons.2 ⟨.nil, List.forall_mem_cons.2 ⟨hnext, hmore⟩⟩
    · obtain ⟨rfl, rfl⟩ := Prod.mk.inj hsplit
      exact List.forall_mem_cons.2 ⟨.char hopen hclose hnext, hmore⟩
  | @group inside after hinside _ _ ihafter =>
    have hgroup := (Phrase.parenthesized hinside).commas after
    simp only [List.cons_append, List.append_assoc, List.nil_append] at hgroup
    rw [hgroup] at hsplit
    obtain ⟨rfl, rfl⟩ := Prod.mk.inj hsplit
    obtain ⟨hpart, hparts⟩ := List.forall_mem_cons.1 (ihafter rfl)
    exact List.forall_mem_cons.2 ⟨.group hinside hpart, hparts⟩

namespace Piece

/-- The operands of the chain of a balanced piece are balanced. -/
theorem balanced_of_chain? {p : Piece} (h : Balanced p.chars) {chain : Chain}
    (hchain : p.chain? = some chain) : ∀ q ∈ chain.operands, Balanced q.chars := by
  simp only [chain?] at hchain
  split at hchain
  · cases hchain
  · split at hchain
    · next operand link links hsplit =>
      obtain ⟨hfirst, hlinks⟩ := h.splitAtPrecedence hsplit
      obtain rfl := Option.some.inj hchain
      obtain ⟨hlink, hlinks⟩ := List.forall_mem_cons.1 hlinks
      exact List.forall_mem_cons.2
        ⟨hfirst, List.forall_mem_cons.2 ⟨hlink, List.forall_mem_map.2 hlinks⟩⟩
    · cases hchain

/-- What stands inside the parentheses of a call is balanced. -/
theorem balanced_of_call? {p inside : Piece} {name : String}
    (hcall : p.call? = some (name, inside)) : Balanced inside.chars := by
  rw [call?] at hcall
  split at hcall
  · next hgroup =>
    obtain ⟨-, rfl⟩ := Prod.mk.inj (Option.some.inj hcall)
    exact balanced_of_firstGroup hgroup
  · cases hcall

/-- The parameters of a balanced piece are balanced. -/
theorem balanced_of_parameters {p : Piece} (h : Balanced p.chars) {pieces : List Piece}
    (hpieces : p.parameters = .ok pieces) : ∀ q ∈ pieces, Balanced q.chars := by
  rw [parameters] at hpieces
  split at hpieces
  · cases hpieces
  · split at hpieces
    · cases hpieces
    · rcases hsplit : splitCommas 0 p.chars with ⟨part, parts⟩
      rw [hsplit] at hpieces
      have hparts := h.splitCommas hsplit
      rw [← refuseEmptyParts_eq_ok hpieces] at hparts
      exact List.forall_mem_map.1 hparts

/-- A piece that is read on the way through another one: the inside of the parentheses around it,
an operand of its chain, or a parameter of its call. -/
inductive Part (p : Piece) : Piece → Prop
  | inside {q : Piece} (h : p.unwrap = .ok q) : Part p q
  | operand {chain : Chain} {q : Piece} (h : p.chain? = some chain) (hq : q ∈ chain.operands) :
    Part p q
  | parameter {name : String} {inside q : Piece} {pieces : List Piece}
    (h : p.call? = some (name, inside)) (hpieces : inside.parameters = .ok pieces)
    (hq : q ∈ pieces) : Part p q

/-- Every part of a balanced piece is balanced. -/
theorem Part.balanced {p q : Piece} (h : p.Part q) (hp : Balanced p.chars) : Balanced q.chars := by
  cases h with
  | inside h =>
    obtain ⟨q', hq', hbalanced⟩ := exists_unwrap_of_balanced hp
    obtain rfl := Except.ok.inj (h.symm.trans hq')
    exact hbalanced
  | operand h hq => exact balanced_of_chain? hp h q hq
  | parameter h hpieces hq => exact balanced_of_parameters (balanced_of_call? h) hpieces q hq

/-- Every piece that is read below a balanced one is balanced. -/
theorem Below.balanced {p q : Piece} (h : p.Below q) (hp : Balanced p.chars) :
    Balanced q.chars := by
  cases h with
  | operand hunwrap hchain hmem _ =>
    exact (Part.operand hchain hmem).balanced ((Part.inside hunwrap).balanced hp)
  | parameter hunwrap hcall hpieces hmem =>
    exact (Part.parameter hcall hpieces hmem).balanced ((Part.inside hunwrap).balanced hp)

end Piece

/-- The parameters of a balanced piece fail only for an empty one. -/
theorem Piece.cause_of_parameters {p : Piece} (hp : Balanced p.chars) {fault : Fault}
    (h : p.parameters = .error fault) : fault.cause = .emptyParameter := by
  obtain ⟨-, rfl⟩ | hgroups | ⟨before, after, -, rfl⟩ := exists_of_parameters_eq_error h
  · rfl
  · obtain ⟨groups, hfound⟩ : ∃ groups, p.groups = .ok groups := hp.groupsFrom_ok p.offset
    cases hfound.symm.trans hgroups
  · rfl

/-- No unmatched parenthesis is found on the way through a balanced piece. -/
theorem Balanced.readPiece_ne_unmatched {unknowns : List Char} {levels : Nat} {p : Piece}
    (h : Balanced p.chars) (offset : Nat) :
    readPiece unknowns levels p ≠ .error (.fault ⟨.unmatchedParenthesis, offset⟩) := by
  intro herr
  -- Every piece that is read for this one is balanced like it.
  induction levels generalizing p with
  | zero => cases herr
  | succ levels ih =>
    have hinside {q : Piece} (hunwrap : p.unwrap = .ok q) : Balanced q.chars :=
      Piece.Part.balanced (.inside hunwrap) h
    cases Piece.fails_of_readPiece herr with
    | unwrap hunwrap =>
      obtain ⟨q, hq, -⟩ := Piece.exists_unwrap_of_balanced h
      cases hq.symm.trans hunwrap
    | groups hunwrap hgroups =>
      obtain ⟨k, hk, -⟩ := Piece.groups_eq_error_iff.1 hgroups
      rw [leftmostUnmatched?_eq_none_iff.2 (hinside hunwrap)] at hk
      cases hk
    | link _ _ _ _ _ hjoin =>
      obtain ⟨err, offset', hfault⟩ := Link.exists_of_join_eq_error hjoin
      cases hfault
    | parameters hunwrap hcall hparameters =>
      cases Piece.cause_of_parameters (Piece.balanced_of_call? hcall) hparameters
    | below hbelow hread => exact ih (hbelow.balanced h) hread

/-- A piece with an unmatched parenthesis fails for the leftmost one, whatever else it has. -/
theorem readPiece_of_unmatched {unknowns : List Char} {levels : Nat} {p : Piece} {k : Nat}
    (h : leftmostUnmatched? p.offset p.chars = some k) :
    readPiece unknowns (levels + 1) p = .error (.fault ⟨.unmatchedParenthesis, k⟩) := by
  have hgroups : p.groups = .error ⟨.unmatchedParenthesis, k⟩ :=
    Piece.groups_eq_error_iff.2 ⟨k, h, rfl⟩
  have hne : ¬p.chars.isEmpty = true := by
    intro hempty
    rw [List.isEmpty_iff.1 hempty] at h
    cases h
  rw [readPiece]
  obtain hunwrap | hunwrap := Piece.unwrap_of_unmatched h
  · rw [hunwrap]
    change (if p.chars.isEmpty = true then _ else p.groups.mapError _ >>= _) = _
    rw [if_neg hne, hgroups]
    rfl
  · rw [hunwrap]
    rfl

/-- A piece fails for an unmatched parenthesis exactly if it has one, and for the leftmost one. -/
theorem readPiece_eq_unmatched_iff {unknowns : List Char} {levels : Nat} {p : Piece} {k : Nat} :
    readPiece unknowns (levels + 1) p = .error (.fault ⟨.unmatchedParenthesis, k⟩) ↔
      leftmostUnmatched? p.offset p.chars = some k := by
  refine ⟨fun h => ?_, readPiece_of_unmatched⟩
  cases hleftmost : leftmostUnmatched? p.offset p.chars with
  | none => exact absurd h ((leftmostUnmatched?_eq_none_iff.1 hleftmost).readPiece_ne_unmatched k)
  | some i =>
    have hfault := h.symm.trans (readPiece_of_unmatched hleftmost)
    obtain ⟨-, rfl⟩ := Fault.mk.inj (PieceFailure.fault.inj (Except.error.inj hfault))
    rfl

/-- A text is refused with the fault that it is not read for, without its blanks, as a piece. -/
theorem exists_of_parse_eq_malformed {unknowns : List Char} {limit : Nat} {text : String}
    {e : ParseError} (h : parse unknowns limit text = .error (.malformed e)) :
    (∀ c ∈ unknowns, isUnknownSymbol c = true) ∧
      ∃ fault, readPiece unknowns (limit + 1) ⟨0, Text.stripBlanks text.toList⟩ =
        .error (.fault fault) ∧ e = .ofFault (Text.stripBlanks text.toList) fault := by
  obtain hunknowns | ⟨c, hrefused⟩ := isUnknownSymbol_or_parse_eq unknowns
  · rw [parse_eq hunknowns] at h
    obtain ⟨failure, hread, hfailure⟩ := Except.mapError_eq_error_iff.1 h
    cases failure with
    | tooDeep => cases hfailure
    | fault fault => exact ⟨hunknowns, fault, hread, (ParseFailure.malformed.inj hfailure).symm⟩
  · cases (hrefused limit text).symm.trans h

/-- A text is refused for a fault exactly if reading it as a piece has that fault. -/
theorem parse_eq_malformed_iff {unknowns : List Char}
    (hunknowns : ∀ c ∈ unknowns, isUnknownSymbol c = true) {limit k : Nat} {text : String}
    {cause : ParseCause} :
    (∃ e, parse unknowns limit text = .error (.malformed e) ∧ e.cause = cause ∧ e.offset = k) ↔
      readPiece unknowns (limit + 1) ⟨0, Text.stripBlanks text.toList⟩ =
        .error (.fault ⟨cause, k⟩) := by
  constructor
  · rintro ⟨e, he, rfl, rfl⟩
    obtain ⟨-, fault, hread, rfl⟩ := exists_of_parse_eq_malformed he
    exact hread
  · intro hread
    rw [parse_eq hunknowns, hread]
    exact ⟨_, rfl, rfl, rfl⟩

/-- A text is refused for an unmatched parenthesis exactly if it has one, and the leftmost one is
reported; it has one exactly if it is not balanced; and in a balanced text no piece that is read
on the way has one. -/
theorem parse_unmatchedParenthesis_iff {unknowns : List Char}
    (hunknowns : ∀ c ∈ unknowns, isUnknownSymbol c = true) (limit : Nat) (text : String) :
    (∀ k, (∃ e, parse unknowns limit text = .error (.malformed e) ∧
        e.cause = .unmatchedParenthesis ∧ e.offset = k) ↔
      leftmostUnmatched? 0 (Text.stripBlanks text.toList) = some k) ∧
    (leftmostUnmatched? 0 (Text.stripBlanks text.toList) = none ↔
      Balanced (Text.stripBlanks text.toList)) ∧
    (Balanced (Text.stripBlanks text.toList) →
      ∀ q, Relation.ReflTransGen Piece.Part ⟨0, Text.stripBlanks text.toList⟩ q →
        ∀ levels offset,
          readPiece unknowns levels q ≠ .error (.fault ⟨.unmatchedParenthesis, offset⟩)) := by
  refine ⟨fun k => (parse_eq_malformed_iff hunknowns).trans readPiece_eq_unmatched_iff,
    leftmostUnmatched?_eq_none_iff, fun h q hq levels offset => ?_⟩
  have hbalanced : Balanced q.chars := by
    induction hq with
    | refl => exact h
    | tail _ hpart ih => exact hpart.balanced ih
  exact hbalanced.readPiece_ne_unmatched offset

/-- The closing parenthesis without a partner is reported, and not the later opening one. -/
theorem parse_unmatchedClosing :
    ∃ e, parse ['x'] 0 "(x + 1)) * (2" = .error (.malformed e) ∧
      e.cause = .unmatchedParenthesis ∧ e.offset = 5 := by
  have hunknowns : ∀ c ∈ ['x'], isUnknownSymbol c = true := by
    intro c hc
    obtain rfl := List.mem_singleton.1 hc
    decide +kernel
  obtain ⟨hreported, -, -⟩ := parse_unmatchedParenthesis_iff hunknowns 0 "(x + 1)) * (2"
  exact (hreported 5).2 (by decide +kernel)

end Calculator
