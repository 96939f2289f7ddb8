import Calculator.Proofs.Syntax.Placement

/-!
# Where parse errors point

The offset of a parse error is that of a character of the source which shows its cause: the
parenthesis that has no partner, the operator that lacks an operand, the comma beside an empty
parameter. Pieces stand where their offsets say, so this only has to be seen in the piece that is
not read. The excerpt of the error is cut out of the source around that character, and the caret
is drawn under it.
-/

namespace Calculator

/-- What stands in a source at the offset where a cause is found. -/
def ParseCause.FoundAt (source : List Char) (offset : Nat) : ParseCause → Prop
  | emptyBody => 0 < offset ∧ source[offset - 1]? = some '(' ∧ source[offset]? = some ')'
  | unmatchedParenthesis => source[offset]? = some '(' ∨ source[offset]? = some ')'
  | unknownFunction name => name.toList ++ ['('] <+: source.drop offset
  | emptyParameter => source[offset]? = some ',' ∨ source[offset]? = some ')'
  | invalidValue => offset < source.length
  | operand (.missing op) => source[offset]? = some op.symbol ∧ op ≠ .factorial ∧
      ∀ c ∈ source[offset + 1]?, c = ')' ∨ c = ','
  | operand (.unexpected op) => op = .factorial ∧ 0 < offset ∧ source[offset - 1]? = some '!' ∧
      ∃ c, source[offset]? = some c ∧ Operator.ofSymbol? c = none ∧ c ≠ ')' ∧ c ≠ ','

/-- A cause is found inside the source. -/
theorem ParseCause.FoundAt.lt_length {source : List Char} {offset : Nat} {cause : ParseCause}
    (h : cause.FoundAt source offset) : offset < source.length := by
  have hfound {c : Char} (hc : source[offset]? = some c) : offset < source.length :=
    (List.getElem?_eq_some_iff.1 hc).1
  cases cause with
  | emptyBody => exact hfound h.2.2
  | unmatchedParenthesis => exact h.elim hfound hfound
  | unknownFunction name =>
    have hlength : (name.toList ++ ['(']).length ≤ (source.drop offset).length := h.length_le
    rw [List.length_append, List.length_drop, List.length_singleton] at hlength
    omega
  | emptyParameter => exact h.elim hfound hfound
  | invalidValue => exact h
  | operand error =>
    cases error with
    | missing op => exact hfound h.1
    | unexpected op =>
      obtain ⟨-, -, -, c, hc, -⟩ := h
      exact hfound hc

/-- A parenthesis stands where a text breaks. -/
theorem Breaks.getElem?_eq {cs : List Char} {k : Nat} (h : Breaks k cs) :
    cs[k]? = some '(' ∨ cs[k]? = some ')' := by
  cases h with
  | closing => exact .inr (by simp)
  | opening => exact .inl (by simp)

/-- The leftmost unmatched parenthesis is one. -/
theorem exists_of_leftmostUnmatched? {offset k : Nat} {cs : List Char}
    (h : leftmostUnmatched? offset cs = some k) :
    ∃ i, k = offset + i ∧ (cs[i]? = some '(' ∨ cs[i]? = some ')') := by
  obtain hbalanced | ⟨i, hi⟩ := balanced_or_breaks cs
  · rw [leftmostUnmatched?_eq_none_iff.2 hbalanced] at h
    cases h
  · rw [hi.leftmostUnmatched?_eq] at h
    exact ⟨i, (Option.some.inj h).symm, hi.getElem?_eq⟩

/-- The parentheses around a piece are not taken off for its leftmost unmatched one. -/
theorem Piece.exists_of_unwrap_eq_error {p : Piece} {fault : Fault} (h : p.unwrap = .error fault) :
    ∃ k, leftmostUnmatched? p.offset p.chars = some k ∧ fault = ⟨.unmatchedParenthesis, k⟩ := by
  cases hleftmost : leftmostUnmatched? p.offset p.chars with
  | none =>
    obtain ⟨q, hq, -⟩ := exists_unwrap_of_balanced (leftmostUnmatched?_eq_none_iff.1 hleftmost)
    cases hq.symm.trans h
  | some k =>
    obtain hunwrap | hunwrap := unwrap_of_unmatched hleftmost
    · cases hunwrap.symm.trans h
    · exact ⟨k, rfl, Except.error.inj (h.symm.trans hunwrap)⟩

/-- A phrase starts neither with a closing parenthesis nor with a comma. -/
theorem Phrase.ne_of_cons {c : Char} {cs : List Char} (h : Phrase (c :: cs)) :
    c ≠ ')' ∧ c ≠ ',' := by
  refine ⟨?_, ?_⟩
  · rintro rfl
    have hbreaks : Breaks 0 (')' :: cs) := .closing .nil cs
    have hnone : leftmostUnmatched? 0 (')' :: cs) = none :=
      leftmostUnmatched?_eq_none_iff.2 h.balanced
    rw [hbreaks.leftmostUnmatched?_eq] at hnone
    cases hnone
  · rintro rfl
    have hcommas := congrArg Prod.fst (h.commas [])
    simp [splitCommas, nestingAfter] at hcommas

namespace Piece.StandsIn

variable {source : List Char} {p : Piece}

/-- The leftmost unmatched parenthesis of a piece of the source is one of the source. -/
theorem foundAt_of_unmatched (h : StandsIn source p) {k : Nat}
    (hk : leftmostUnmatched? p.offset p.chars = some k) :
    ParseCause.unmatchedParenthesis.FoundAt source k := by
  obtain ⟨i, rfl, hi⟩ := exists_of_leftmostUnmatched? hk
  exact hi.imp h.getElem?_of_mem h.getElem?_of_mem

/-- The parameters of a call in the source fail where one is empty. -/
theorem foundAt_of_parameters (h : StandsIn source p) (hp : Balanced p.chars) {fault : Fault}
    (hfault : p.parameters = .error fault) : fault.cause.FoundAt source fault.offset := by
  obtain ⟨hempty, rfl⟩ | hgroups | ⟨before, after, hchars, rfl⟩ :=
    exists_of_parameters_eq_error hfault
  · exact .inr (h.parentheses_of_empty hempty).2.2
  · obtain ⟨groups, hfound⟩ : ∃ groups, p.groups = .ok groups := hp.groupsFrom_ok p.offset
    cases hfound.symm.trans hgroups
  · exact .inl (h.getElem?_of_mem (by simp [hchars]))

/-- The start of a call in the source is its name. -/
theorem foundAt_of_call? (h : StandsIn source p) {name : String} {inside : Piece}
    (hcall : p.call? = some (name, inside)) :
    (ParseCause.unknownFunction name).FoundAt source p.offset := by
  obtain ⟨back, hdrop, -⟩ := h.exists_drop
  refine ⟨inside.chars ++ ')' :: back, ?_⟩
  rw [hdrop, call?_eq_some hcall]
  simp

section Link

variable {chain : Chain} {link : Link}

/-- An operator that lacks its right operand is the last one of a piece, so nothing that goes on an
operand follows it. -/
theorem foundAt_of_missing (h : StandsIn source p) (hchain : p.chain? = some chain)
    (hlink : link ∈ chain.link :: chain.links) (hempty : link.operand.chars = [])
    (hneeds : link.operator.needsRight = true) :
    (ParseCause.operand (.missing link.operator)).FoundAt source link.offset := by
  obtain ⟨front, back, hchars, hoffset, -, hends⟩ := exists_of_mem_links hchain hlink
  have hlink : link.chars = [link.operator.symbol] := by rw [Link.chars, hempty]
  have hwaits : endsOperand link.chars.getLast? = false := by
    rw [hlink, List.getLast?_singleton, Operator.endsOperand_symbol, Operator.isPostfix, hneeds]
    rfl
  obtain rfl : back = [] := by
    cases back with
    | nil => rfl
    | cons c back => cases hwaits.symm.trans (hends c rfl)
  rw [List.append_nil] at hchars
  obtain ⟨after, hdrop, hstop⟩ := h.exists_drop
  have hafter : source.drop link.offset = link.operator.symbol :: after := by
    rw [hoffset, ← List.drop_drop, hdrop, hchars, hlink]
    simp
  have hlast : p.chars.getLast? = link.chars.getLast? := by
    rw [hchars]
    exact List.getLast?_append_of_ne_nil _ (List.cons_ne_nil _ _)
  refine ⟨?_, ?_, ?_⟩
  · rw [← List.head?_drop, hafter, List.head?_cons]
  · intro hfactorial
    rw [hfactorial] at hneeds
    cases hneeds
  · rw [← List.head?_drop, ← List.drop_drop, hafter, List.drop_one, List.tail_cons]
    exact hstop (hlast ▸ hwaits)

/-- What follows an operator that takes no right operand is the start of an operand: any operator
there would have split the chain. -/
theorem foundAt_of_unexpected (h : StandsIn source p) (hchain : p.chain? = some chain)
    (hlink : link ∈ chain.link :: chain.links) (hfull : link.operator.isPostfix = true)
    (hphrase : Phrase link.operand.chars) :
    (ParseCause.operand (.unexpected link.operator)).FoundAt source (link.offset + 1) := by
  obtain ⟨front, back, hchars, hoffset, -, -⟩ := exists_of_mem_links hchain hlink
  have hfactorial : link.operator = .factorial :=
    Operator.eq_factorial_of_needsRight (by simpa [Operator.isPostfix] using hfull)
  obtain ⟨c, cs, hoperand⟩ := List.exists_cons_of_ne_nil hphrase.ne_nil
  rw [Link.chars, hoperand, hfactorial] at hchars
  rw [hoperand] at hphrase
  refine ⟨hfactorial, Nat.succ_pos _, ?_, c, ?_, ?_, hphrase.ne_of_cons⟩
  · rw [Nat.add_sub_cancel, hoffset]
    exact h.getElem?_of_mem (by simp [hchars, Operator.symbol])
  · rw [hoffset, Nat.add_assoc]
    exact h.getElem?_of_mem (by simp [hchars])
  · cases hsymbol : Operator.ofSymbol? c with
    | none => rfl
    | some op =>
      obtain rfl := Operator.ofSymbol?_eq_some_iff.1 hsymbol
      obtain ⟨-, level, -, hlinks⟩ := chain?_eq_some hchain
      obtain ⟨hlevel, htighter⟩ := hlinks link hlink
      have haccepts : accepts (some link.operator.symbol) op = true :=
        accepts_of_endsOperand (by rw [Operator.endsOperand_symbol, hfull]) op
      have hop : level.precedence < op.precedence := by
        refine htighter op ?_
        rw [hoperand, operatorsIn_symbol, if_pos haccepts]
        exact List.mem_cons_self
      rw [← hlevel, hfactorial] at hop
      exact absurd hop (by cases op <;> decide)

/-- An operation in a piece is not put together for an operand that is missing or unexpected, and
the fault is found at its operator or after it. -/
theorem foundAt_of_join (h : StandsIn source p) (hchain : p.chain? = some chain)
    (hlink : link ∈ chain.link :: chain.links) {left right : Option (Expression Float)}
    (hleft : left = none → link = chain.link ∧ chain.first.chars = [])
    (hright : (right = none ∧ link.operand.chars = []) ∨
      (right ≠ none ∧ Phrase link.operand.chars)) {fault : Fault}
    (hjoin : link.join left right = .error (.fault fault)) :
    fault.cause.FoundAt source fault.offset := by
  rcases Link.join_eq_error_iff.1 hjoin with ⟨hmissing, hfault⟩ | ⟨-, hpresent, hfull, hfault⟩
  · obtain rfl := PieceFailure.fault.inj hfault
    obtain ⟨rfl, hneeds⟩ | ⟨rfl, hneeds⟩ := hmissing
    · -- An operator without a left operand starts the piece, where only one splits it that needs
      -- none.
      obtain ⟨rfl, hfirst⟩ := hleft rfl
      obtain ⟨-, -, -, haccepts⟩ := link_of_chain? hchain [] rfl rfl
      rw [hfirst] at haccepts
      have hnone : accepts none chain.link.operator = true := haccepts
      rw [accepts_none, hneeds] at hnone
      cases hnone
    · obtain ⟨-, hempty⟩ | ⟨hpresent, -⟩ := hright
      · exact h.foundAt_of_missing hchain hlink hempty hneeds
      · exact absurd rfl hpresent
  · obtain rfl := PieceFailure.fault.inj hfault
    obtain ⟨hnone, -⟩ | ⟨-, hphrase⟩ := hright
    · exact absurd hnone hpresent
    · exact h.foundAt_of_unexpected hchain hlink hfull hphrase

end Link

/-- A fault that a piece of the source is not read for is found where its offset says. -/
theorem foundAt_of_readPiece {unknowns : List Char}
    (hunknowns : ∀ c ∈ unknowns, isUnknownSymbol c = true) {levels : Nat}
    (h : StandsIn source p) {fault : Fault}
    (hread : readPiece unknowns levels p = .error (.fault fault)) :
    fault.cause.FoundAt source fault.offset := by
  -- Every piece that is read for this one stands in the source like it.
  induction levels generalizing p with
  | zero => cases hread
  | succ levels ih =>
    cases Piece.fails_of_readPiece hread with
    | unwrap hunwrap =>
      obtain ⟨k, hk, rfl⟩ := exists_of_unwrap_eq_error hunwrap
      exact h.foundAt_of_unmatched hk
    | empty hunwrap hempty => exact (h.unwrap hunwrap).parentheses_of_empty hempty
    | groups hunwrap hgroups =>
      obtain ⟨k, hk, rfl⟩ := groups_eq_error_iff.1 hgroups
      exact (h.unwrap hunwrap).foundAt_of_unmatched hk
    | link hunwrap hchain hlink hleft hright hjoin =>
      refine (h.unwrap hunwrap).foundAt_of_join hchain hlink hleft ?_ hjoin
      obtain habsent | ⟨e, rfl, -, he⟩ := readOperand_eq_ok hright
      · exact .inl habsent
      · exact .inr ⟨nofun, (derives_of_readPiece hunknowns he).phrase hunknowns⟩
    | name hunwrap hcall => exact (h.unwrap hunwrap).foundAt_of_call? hcall
    | parameters hunwrap hcall hparameters =>
      exact ((h.unwrap hunwrap).call? hcall).foundAt_of_parameters (balanced_of_call? hcall)
        hparameters
    | value hunwrap hne =>
      obtain ⟨c, cs, hchars⟩ := List.exists_cons_of_ne_nil hne
      have hc := (h.unwrap hunwrap).getElem?_of_mem (k := 0) (by rw [hchars]; rfl)
      exact (List.getElem?_eq_some_iff.1 hc).1
    | below hbelow hfault => exact ih (h.below hbelow) hfault

end Piece.StandsIn

namespace ParseError

/-- The character above the caret, in a text of two lines with a caret in the second one. -/
def aboveCaret? (text : String) : Option Char :=
  let above := text.toList.takeWhile (· != '\n')
  let below := text.toList.drop (above.length + 1)
  above[below.idxOf '^']?

section Excerpt

variable {source : List Char} {fault : Fault}

/-- The excerpt is a run of the source that starts at its offset. -/
theorem excerpt_ofFault : (ofFault source fault).excerpt <+:
    source.drop (ofFault source fault).excerptStart := by
  rw [ofFault, List.drop_take]
  exact List.take_prefix _ _

/-- The excerpt starts no later than at the offset of the fault, and goes on beyond it. -/
theorem excerptStart_le_and_lt (h : fault.offset < source.length) :
    (ofFault source fault).excerptStart ≤ fault.offset ∧
      fault.offset < (ofFault source fault).excerptStart +
        (ofFault source fault).excerpt.length := by
  simp only [ofFault, lead, window, List.length_drop, List.length_take]
  omega

/-- The character of the source at the offset of the fault stands in the excerpt as far after its
start. -/
theorem excerpt_getElem?_ofFault (h : fault.offset < source.length) :
    (ofFault source fault).excerpt[fault.offset - (ofFault source fault).excerptStart]? =
      source[fault.offset]? := by
  obtain ⟨hle, hlt⟩ := excerptStart_le_and_lt h
  obtain ⟨rest, hrest⟩ := @excerpt_ofFault source fault
  generalize ofFault source fault = e at *
  have hstart : fault.offset = e.excerptStart + (fault.offset - e.excerptStart) := by omega
  rw [hstart, Nat.add_sub_cancel_left, ← List.getElem?_drop, ← hrest,
    List.getElem?_append_left (by omega)]

/-- The two lines of a rendered error. -/
theorem toList_render (e : ParseError) :
    e.render.toList = (e.excerpt ++ " ...".toList) ++
      '\n' :: (List.replicate (e.offset - e.excerptStart) ' ' ++ ['^']) := by
  simp [render, toString]

/-- The caret is drawn under the character as far after the start of the excerpt as the offset is,
if the excerpt is one line. -/
theorem aboveCaret?_render {e : ParseError} (hline : '\n' ∉ e.excerpt)
    (h : e.offset - e.excerptStart < e.excerpt.length) :
    aboveCaret? e.render = e.excerpt[e.offset - e.excerptStart]? := by
  have hbreak : ∀ c ∈ e.excerpt ++ " ...".toList, (c != '\n') = true := by
    intro c hc
    rcases List.mem_append.1 hc with hc | hc
    · exact bne_iff_ne.2 (ne_of_mem_of_not_mem hc hline)
    · exact List.all_eq_true.1 (by decide : " ...".toList.all (· != '\n') = true) c hc
  have hcaret : '^' ∉ List.replicate (e.offset - e.excerptStart) ' ' := by
    intro hmem
    cases List.eq_of_mem_replicate hmem
  have hfirst : (e.render.toList.takeWhile (· != '\n')) = e.excerpt ++ " ...".toList := by
    rw [toList_render, List.takeWhile_append_of_pos hbreak, List.takeWhile_cons]
    simp
  rw [aboveCaret?, hfirst]
  have hsecond : e.render.toList.drop ((e.excerpt ++ " ...".toList).length + 1) =
      List.replicate (e.offset - e.excerptStart) ' ' ++ ['^'] := by
    rw [toList_render, ← List.drop_drop, List.drop_left]
    rfl
  simp only [hsecond]
  rw [List.idxOf_append_of_notMem hcaret, List.length_replicate, List.idxOf_cons_self, Nat.add_zero,
    List.getElem?_append_left h]

end Excerpt

end ParseError

/-- The offset of a parse error is that of a character which shows the cause, unless the text is
blank; the excerpt is a run of the text without its blanks that has this character, and the caret
is drawn under it. -/
theorem foundAt_of_parse_eq_malformed {unknowns : List Char} {limit : Nat} {text : String}
    {e : ParseError} (h : parse unknowns limit text = .error (.malformed e)) :
    let source := Text.stripBlanks text.toList
    (source = [] → e.cause = .emptyBody ∧ e.offset = 0) ∧
    (source ≠ [] →
      e.offset < source.length ∧ e.excerptStart ≤ e.offset ∧
      e.excerpt <+: source.drop e.excerptStart ∧
      ParseError.aboveCaret? e.render = source[e.offset]? ∧
      e.cause.FoundAt source e.offset) := by
  intro source
  obtain ⟨hunknowns, fault, hread, he⟩ := exists_of_parse_eq_malformed h
  refine ⟨fun hempty => ?_, fun hne => ?_⟩
  · have hfault : (PieceFailure.fault ⟨.emptyBody, 0⟩) = .fault fault := by
      have hread : readPiece unknowns (limit + 1) ⟨0, source⟩ = .error (.fault fault) := hread
      rw [hempty, readPiece, Piece.unwrap] at hread
      exact Except.error.inj hread
    obtain rfl := PieceFailure.fault.inj hfault
    rw [he]
    exact ⟨rfl, rfl⟩
  · have hfound : fault.cause.FoundAt source fault.offset :=
      (Piece.StandsIn.whole hne).foundAt_of_readPiece hunknowns hread
    have hlt := hfound.lt_length
    obtain ⟨hle, hinside⟩ := ParseError.excerptStart_le_and_lt hlt
    have hline : '\n' ∉ (ParseError.ofFault source fault).excerpt := by
      intro hmem
      have hbreak : '\n' ∈ source := List.mem_of_mem_drop (ParseError.excerpt_ofFault.mem hmem)
      have hblank := (List.mem_filter.1 hbreak).2
      revert hblank
      decide +kernel
    have hcaret : ParseError.aboveCaret? (ParseError.ofFault source fault).render =
        source[fault.offset]? := by
      rw [← ParseError.excerpt_getElem?_ofFault hlt]
      exact ParseError.aboveCaret?_render hline (by simp only [ParseError.ofFault] at *; omega)
    rw [he]
    exact ⟨hlt, hle, ParseError.excerpt_ofFault, hcaret, hfound⟩

/-- A product without a right operand is found before the comma, and the caret is drawn under its
sign. -/
theorem parse_missingFactor :
    parse ['x'] 4 "log(2 * , x)" =
        .error (.malformed ⟨.operand (.missing .mul), 5, 0, "log(2*,x)".toList⟩) ∧
      ParseError.aboveCaret?
        (ParseError.mk (.operand (.missing .mul)) 5 0 "log(2*,x)".toList).render = some '*' := by
  have hparse : parse ['x'] 4 "log(2 * , x)" =
      .error (.malformed ⟨.operand (.missing .mul), 5, 0, "log(2*,x)".toList⟩) := by
    with_unfolding_all rfl
  obtain ⟨-, hfound⟩ := foundAt_of_parse_eq_malformed hparse
  obtain ⟨-, -, -, hcaret, hmissing⟩ := hfound (by decide +kernel)
  exact ⟨hparse, hcaret.trans hmissing.1⟩

end Calculator
