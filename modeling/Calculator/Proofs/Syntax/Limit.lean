import Calculator.Proofs.Syntax.Parts

/-!
# The nesting limit

A nesting limit does nothing but cut reading short: where it does not, the result is that of every
higher limit. What is read one level below a piece is shorter than the piece, so a limit that is no
less than the length of the text never cuts.
-/

namespace Calculator

/-- Two results are the same, unless the first one is cut short for too deep a nesting. -/
def SameUnlessCut {α : Type} (x y : Except PieceFailure α) : Prop :=
  x = .error .tooDeep ∨ x = y

namespace SameUnlessCut

variable {α β : Type}

/-- A result is the same as itself. -/
theorem refl (x : Except PieceFailure α) : SameUnlessCut x x :=
  .inr rfl

/-- Steps that do the same do so one after the other. -/
theorem bind {x y : Except PieceFailure α} {f g : α → Except PieceFailure β}
    (h : SameUnlessCut x y) (hfg : ∀ a, x = .ok a → SameUnlessCut (f a) (g a)) :
    SameUnlessCut (x >>= f) (y >>= g) := by
  rcases h with rfl | rfl
  · exact .inl rfl
  · cases x with
    | error failure => exact .refl _
    | ok a => exact hfg a rfl

/-- Changing a result in the same way keeps it the same. -/
theorem map {x y : Except PieceFailure α} (h : SameUnlessCut x y) (f : α → β) :
    SameUnlessCut (x.map f) (y.map f) := by
  rcases h with rfl | rfl
  · exact .inl rfl
  · exact .refl _

/-- Functions that do the same on the elements of a list do so when they are mapped over it. -/
theorem mapM {f g : α → Except PieceFailure β} {as : List α}
    (h : ∀ a ∈ as, SameUnlessCut (f a) (g a)) : SameUnlessCut (as.mapM f) (as.mapM g) := by
  induction as with
  | nil => exact .refl _
  | cons a as ih =>
    obtain ⟨ha, has⟩ := List.forall_mem_cons.1 h
    rw [List.mapM_cons, List.mapM_cons]
    exact ha.bind fun _ _ => (ih has).bind fun _ _ => .refl _

/-- Steps that do the same on the elements of a list do so when they are folded over it. -/
theorem foldlM {f g : β → α → Except PieceFailure β} {as : List α}
    (h : ∀ a ∈ as, ∀ b, SameUnlessCut (f b a) (g b a)) (b : β) :
    SameUnlessCut (as.foldlM f b) (as.foldlM g b) := by
  induction as generalizing b with
  | nil => exact .refl _
  | cons a as ih =>
    obtain ⟨ha, has⟩ := List.forall_mem_cons.1 h
    rw [List.foldlM_cons, List.foldlM_cons]
    exact (ha b).bind fun b' _ => ih has b'

section Reading

variable {read read' : Piece → Except PieceFailure (Expression Float)}

/-- An operand is the same if its piece is, unless that is empty. -/
theorem readOperand {p : Piece} (h : p.chars ≠ [] → SameUnlessCut (read p) (read' p)) :
    SameUnlessCut (readOperand read p) (readOperand read' p) := by
  rw [Calculator.readOperand, Calculator.readOperand]
  split
  · exact .refl _
  · next hne => exact (h fun hempty => hne (List.isEmpty_iff.2 hempty)).map some

/-- A chain is the same if its operands are. -/
theorem readChain {chain : Chain}
    (h : ∀ p ∈ chain.operands, p.chars ≠ [] → SameUnlessCut (read p) (read' p)) :
    SameUnlessCut (readChain read chain) (readChain read' chain) := by
  have hlink {link : Link} (hlink : link ∈ chain.link :: chain.links) :
      SameUnlessCut (Calculator.readOperand read link.operand)
        (Calculator.readOperand read' link.operand) :=
    readOperand (h _ (Chain.operand_mem_operands hlink))
  have hfirst : SameUnlessCut (Calculator.readOperand read chain.first)
      (Calculator.readOperand read' chain.first) :=
    readOperand (h _ (by simp [Chain.operands]))
  rw [Calculator.readChain, Calculator.readChain]
  refine hfirst.bind fun _ _ => (hlink List.mem_cons_self).bind fun _ _ =>
    (refl _).bind fun start _ => foldlM (fun link hmem left => ?_) start
  exact (hlink (List.mem_cons_of_mem chain.link hmem)).bind fun _ _ => .refl _

/-- A call is the same if its parameters are. -/
theorem readCall {offset : Nat} {name : String} {inside : Piece}
    (h : ∀ pieces, inside.parameters = .ok pieces →
      ∀ p ∈ pieces, SameUnlessCut (read p) (read' p)) :
    SameUnlessCut (readCall read offset name inside) (readCall read' offset name inside) := by
  rw [Calculator.readCall, Calculator.readCall]
  split
  · exact .refl _
  · refine (refl _).bind fun pieces hpieces => ?_
    exact (mapM (h pieces (Except.mapError_eq_ok_iff.1 hpieces))).bind fun _ _ => .refl _

/-- A piece is the same if the pieces below it are. -/
theorem readPiece {unknowns : List Char} {levels levels' : Nat} {p : Piece}
    (h : ∀ q, p.Below q →
      SameUnlessCut (readPiece unknowns levels q) (readPiece unknowns levels' q)) :
    SameUnlessCut (readPiece unknowns (levels + 1) p) (readPiece unknowns (levels' + 1) p) := by
  rw [Calculator.readPiece, Calculator.readPiece]
  refine (refl _).bind fun q hq => ?_
  have hunwrap := Except.mapError_eq_ok_iff.1 hq
  split
  · exact .refl _
  · refine (refl _).bind fun _ _ => ?_
    split
    · next hchain => exact readChain fun r hmem hne => h r (.operand hunwrap hchain hmem hne)
    · split
      · next hcall =>
        exact readCall fun _ hpieces r hmem => h r (.parameter hunwrap hcall hpieces hmem)
      · exact .refl _

end Reading

end SameUnlessCut

/-- Reading with more levels gives the same, unless reading with fewer is cut short. -/
theorem sameUnlessCut_readPiece (unknowns : List Char) {levels levels' : Nat}
    (hle : levels ≤ levels') (p : Piece) :
    SameUnlessCut (readPiece unknowns levels p) (readPiece unknowns levels' p) := by
  induction levels generalizing levels' p with
  | zero => exact .inl rfl
  | succ levels ih =>
    obtain ⟨levels', rfl⟩ : ∃ n, levels' = n + 1 := ⟨levels' - 1, by omega⟩
    exact .readPiece fun q _ => ih (Nat.le_of_succ_le_succ hle) q

namespace Piece

/-- Taking off the parentheses around a piece lengthens nothing. -/
theorem length_le_of_unwrap {p q : Piece} (h : p.unwrap = .ok q) :
    q.chars.length ≤ p.chars.length := by
  fun_induction Piece.unwrap p with
  | case1 p inside hgroup ih =>
    have hchars := congrArg List.length (firstGroup_eq hgroup)
    have hle := ih h
    simp only [List.nil_append, List.length_cons, List.length_append] at hchars hle
    omega
  | case2 p found hgroup hnot =>
    obtain rfl := Except.ok.inj h
    exact Nat.le_refl _
  | case3 p fault hgroup => cases h

/-- An operand of a chain is shorter than the chain, which has an operator too. -/
theorem length_lt_of_chain? {p q : Piece} {chain : Chain} (hchain : p.chain? = some chain)
    (hmem : q ∈ chain.operands) : q.chars.length < p.chars.length := by
  obtain ⟨hchars, -⟩ := chain?_eq_some hchain
  have hlink {link : Link} (hlink : link ∈ chain.link :: chain.links) :
      link.operand.chars.length + 1 ≤ ((chain.link :: chain.links).flatMap Link.chars).length := by
    have hinfix : link.chars <:+: (chain.link :: chain.links).flatMap Link.chars :=
      List.infix_of_mem_flatten (List.mem_map_of_mem hlink)
    exact hinfix.length_le
  have hpositive := hlink List.mem_cons_self
  rw [hchars, List.length_append]
  simp only [Chain.operands, List.mem_cons, List.mem_map] at hmem
  rcases hmem with rfl | rfl | ⟨link, hmem, rfl⟩
  · omega
  · omega
  · have hlonger := hlink (List.mem_cons_of_mem chain.link hmem)
    omega

/-- A parameter of a call is shorter than the call, which has parentheses too. -/
theorem length_lt_of_call? {p q inside : Piece} {name : String} {pieces : List Piece}
    (hcall : p.call? = some (name, inside)) (hpieces : inside.parameters = .ok pieces)
    (hmem : q ∈ pieces) : q.chars.length < p.chars.length := by
  obtain ⟨hinside, -⟩ := parameters_eq_ok hpieces
  have hle : q.chars.length ≤ inside.chars.length := by
    rw [hinside]
    exact length_le_length_intercalate (List.mem_map_of_mem hmem)
  rw [call?_eq_some hcall]
  simp only [List.length_append, List.length_cons]
  omega

/-- What is read one level below a piece is shorter. -/
theorem Below.length_lt {p q : Piece} (h : p.Below q) : q.chars.length < p.chars.length := by
  cases h with
  | operand hunwrap hchain hmem _ =>
    exact Nat.lt_of_lt_of_le (length_lt_of_chain? hchain hmem) (length_le_of_unwrap hunwrap)
  | parameter hunwrap hcall hpieces hmem =>
    exact Nat.lt_of_lt_of_le (length_lt_of_call? hcall hpieces hmem) (length_le_of_unwrap hunwrap)

end Piece

/-- With more levels than a piece has characters, reading it is not cut short. -/
theorem readPiece_ne_tooDeep {unknowns : List Char} {levels : Nat} {p : Piece}
    (h : p.chars.length < levels) : readPiece unknowns levels p ≠ .error .tooDeep := by
  intro herr
  induction levels generalizing p with
  | zero => exact absurd h (Nat.not_lt_zero _)
  | succ levels ih =>
    cases Piece.fails_of_readPiece herr with
    | link _ _ _ _ _ hjoin =>
      obtain ⟨err, offset, hfault⟩ := Link.exists_of_join_eq_error hjoin
      cases hfault
    | below hbelow hread =>
      exact ih (Nat.lt_of_lt_of_le hbelow.length_lt (Nat.le_of_lt_succ h)) hread

/-- What is read of a piece depends on nothing of the levels but what they leave to read below
it. -/
theorem readPiece_congr {unknowns : List Char} {levels levels' : Nat} {p : Piece}
    (h : ∀ q, p.Below q → readPiece unknowns levels q = readPiece unknowns levels' q) :
    readPiece unknowns (levels + 1) p = readPiece unknowns (levels' + 1) p := by
  have hsame : SameUnlessCut (readPiece unknowns (levels + 1) p)
      (readPiece unknowns (levels' + 1) p) := .readPiece fun q hq => .inr (h q hq)
  have hsame' : SameUnlessCut (readPiece unknowns (levels' + 1) p)
      (readPiece unknowns (levels + 1) p) := .readPiece fun q hq => .inr (h q hq).symm
  rcases hsame with hcut | heq
  · rcases hsame' with hcut' | heq
    · rw [hcut, hcut']
    · exact heq.symm
  · exact heq

/-- With a limit that is no less than the number of characters that are not blank, parsing is not
cut short. -/
theorem parse_ne_tooDeep {unknowns : List Char} {limit : Nat} {text : String}
    (hlimit : (Text.stripBlanks text.toList).length ≤ limit) (cut : Nat) :
    parse unknowns limit text ≠ .error (.tooDeep cut) := by
  intro h
  obtain hunknowns | ⟨c, hrefused⟩ := isUnknownSymbol_or_parse_eq unknowns
  · rw [parse_eq hunknowns] at h
    obtain ⟨failure, hread, hfailure⟩ := Except.mapError_eq_error_iff.1 h
    cases failure with
    | tooDeep => exact readPiece_ne_tooDeep (Nat.lt_succ_of_le hlimit) hread
    | fault fault => cases hfailure
  · cases (hrefused limit text).symm.trans h

/-- A nesting limit only ever cuts parsing short: otherwise the result, a tree or a failure, is that
of every higher limit. A limit that is no less than the number of characters that are not blank
never does, since the pieces that are read one level below a piece, on which alone the levels tell,
are shorter than the piece. -/
theorem parse_eq_tooDeep_or_eq (unknowns : List Char) {limit limit' : Nat} (hle : limit ≤ limit')
    (text : String) :
    (parse unknowns limit text = .error (.tooDeep limit) ∨
      parse unknowns limit text = parse unknowns limit' text) ∧
    ((Text.stripBlanks text.toList).length ≤ limit →
      ∀ cut, parse unknowns limit text ≠ .error (.tooDeep cut)) ∧
    ∀ p : Piece, (∀ q, p.Below q → q.chars.length < p.chars.length) ∧
      ∀ levels levels',
        (∀ q, p.Below q → readPiece unknowns levels q = readPiece unknowns levels' q) →
          readPiece unknowns (levels + 1) p = readPiece unknowns (levels' + 1) p := by
  refine ⟨?_, parse_ne_tooDeep, fun _ =>
    ⟨fun _ => Piece.Below.length_lt, fun _ _ => readPiece_congr⟩⟩
  obtain hunknowns | ⟨c, hrefused⟩ := isUnknownSymbol_or_parse_eq unknowns
  · rw [parse_eq hunknowns, parse_eq hunknowns]
    obtain hcut | hsame := sameUnlessCut_readPiece unknowns (Nat.succ_le_succ hle)
      ⟨0, Text.stripBlanks text.toList⟩
    · rw [hcut]
      exact .inl rfl
    · rw [← hsame]
      rcases readPiece unknowns (limit + 1) ⟨0, Text.stripBlanks text.toList⟩ with (_ | _) | _
      · exact .inl rfl
      · exact .inr rfl
      · exact .inr rfl
  · exact .inr ((hrefused limit text).trans (hrefused limit' text).symm)

/-- Three minus signs before an unknown nest deeper than one level, and the limit of their length
cuts nothing off. -/
theorem parse_negations :
    parse ['x'] 1 "- - -x" = .error (.tooDeep 1) ∧
      parse ['x'] 4 "- - -x" = parse ['x'] 7 "- - -x" := by
  have hcut : parse ['x'] 1 "- - -x" = .error (.tooDeep 1) := by
    with_unfolding_all rfl
  obtain ⟨hsame, hroom, -⟩ := parse_eq_tooDeep_or_eq ['x'] (show 4 ≤ 7 by decide) "- - -x"
  exact ⟨hcut, hsame.resolve_left (hroom (by decide +kernel) 4)⟩

end Calculator
