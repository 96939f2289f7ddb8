import Calculator.Proofs.Syntax.Soundness

/-!
# Failures of reading a piece

A piece is not read for one of a few reasons: the parentheses in it do not match, nothing stands in
it, an operator does not accept its operands, a name or a parameter of a call is refused, it is no
value, or a piece one level below it is not read. The pieces below it are the operands of its chain
and the parameters of its call.
-/

namespace Calculator

/-- Changing the failure keeps a failure one. -/
theorem Except.mapError_eq_error_iff {ε ε' α : Type} {f : ε → ε'} {x : Except ε α} {err : ε'} :
    x.mapError f = .error err ↔ ∃ err', x = .error err' ∧ f err' = err := by
  cases x <;> simp [Except.mapError]

/-- The operands of a chain: the first one and those of the links. -/
def Chain.operands (chain : Chain) : List Piece :=
  chain.first :: chain.link.operand :: chain.links.map (·.operand)

/-- The operand of a link is one of the chain. -/
theorem Chain.operand_mem_operands {chain : Chain} {link : Link}
    (h : link ∈ chain.link :: chain.links) : link.operand ∈ chain.operands := by
  rcases List.mem_cons.1 h with rfl | h
  · simp [operands]
  · simp only [operands, List.mem_cons, List.mem_map]
    exact .inr (.inr ⟨link, h, rfl⟩)

/-- The pieces that are read one level below a piece, which the parentheses around it are taken
off first: the operands of its chain that are not empty, or the parameters of its call. -/
inductive Piece.Below (p : Piece) : Piece → Prop
  | operand {q operand : Piece} {chain : Chain} (hunwrap : p.unwrap = .ok q)
    (hchain : q.chain? = some chain) (hmem : operand ∈ chain.operands)
    (hne : operand.chars ≠ []) : Below p operand
  | parameter {q inside parameter : Piece} {name : String} {pieces : List Piece}
    (hunwrap : p.unwrap = .ok q) (hcall : q.call? = some (name, inside))
    (hpieces : inside.parameters = .ok pieces) (hmem : parameter ∈ pieces) : Below p parameter

section Failing

variable {read : Piece → Except PieceFailure (Expression Float)} {failure : PieceFailure}

/-- The reasons for which a piece is not read, where `read` reads the pieces below it. -/
inductive Piece.Fails (read : Piece → Except PieceFailure (Expression Float)) (p : Piece) :
    PieceFailure → Prop
  | unwrap {fault : Fault} (hunwrap : p.unwrap = .error fault) : Fails read p (.fault fault)
  | empty {q : Piece} (hunwrap : p.unwrap = .ok q) (hempty : q.chars = []) :
    Fails read p (.fault ⟨.emptyBody, q.offset⟩)
  | groups {q : Piece} {fault : Fault} (hunwrap : p.unwrap = .ok q)
    (hgroups : q.groups = .error fault) : Fails read p (.fault fault)
  | link {q : Piece} {chain : Chain} {link : Link} {left right : Option (Expression Float)}
    {failure : PieceFailure} (hunwrap : p.unwrap = .ok q) (hchain : q.chain? = some chain)
    (hlink : link ∈ chain.link :: chain.links)
    (hleft : left = none → link = chain.link ∧ chain.first.chars = [])
    (hright : readOperand read link.operand = .ok right)
    (hjoin : link.join left right = .error failure) : Fails read p failure
  | name {q inside : Piece} {name : String} (hunwrap : p.unwrap = .ok q)
    (hcall : q.call? = some (name, inside)) :
    Fails read p (.fault ⟨.unknownFunction name, q.offset⟩)
  | parameters {q inside : Piece} {name : String} {fault : Fault} (hunwrap : p.unwrap = .ok q)
    (hcall : q.call? = some (name, inside)) (hparameters : inside.parameters = .error fault) :
    Fails read p (.fault fault)
  | value {q : Piece} (hunwrap : p.unwrap = .ok q) (hne : q.chars ≠ []) :
    Fails read p (.fault ⟨.invalidValue, q.offset⟩)
  | below {q : Piece} {failure : PieceFailure} (hbelow : p.Below q)
    (hread : read q = .error failure) : Fails read p failure

/-- Where an operand is not read, it is not empty, and its piece is not read. -/
theorem readOperand_eq_error {p : Piece} (h : readOperand read p = .error failure) :
    p.chars ≠ [] ∧ read p = .error failure := by
  rw [readOperand] at h
  split at h
  · cases h
  · next hne =>
    refine ⟨fun hempty => hne (List.isEmpty_iff.2 hempty), ?_⟩
    cases hp : read p with
    | ok e => simp [hp, Except.map] at h
    | error failure' => simpa [hp, Except.map] using h

/-- An operation is not put together exactly if it lacks an operand that it needs, or has one on
its right that it does not take. -/
theorem Link.join_eq_error_iff {link : Link} {left right : Option (Expression Float)} :
    link.join left right = .error failure ↔
      ((left = none ∧ link.operator.needsLeft = true ∨
          right = none ∧ link.operator.needsRight = true) ∧
        failure = .fault ⟨.operand (.missing link.operator), link.offset⟩) ∨
      ((left = none → link.operator.needsLeft = false) ∧ right ≠ none ∧
        link.operator.isPostfix = true ∧
        failure = .fault ⟨.operand (.unexpected link.operator), link.offset + 1⟩) := by
  rw [join, Expression.operation?]
  cases hleft : link.operator.needsLeft <;> cases hright : link.operator.needsRight <;>
    cases left <;> cases right <;> simp [Operator.isPostfix, hright, eq_comm]

/-- An operation is not put together only for its operands. -/
theorem Link.exists_of_join_eq_error {link : Link} {left right : Option (Expression Float)}
    (h : link.join left right = .error failure) :
    ∃ err offset, failure = .fault ⟨.operand err, offset⟩ := by
  obtain ⟨-, rfl⟩ | ⟨-, -, -, rfl⟩ := join_eq_error_iff.1 h
  · exact ⟨_, _, rfl⟩
  · exact ⟨_, _, rfl⟩

/-- A chain is not read only where one of its operands is not, or for an operator that does not
accept its operands. A left operand is absent only at the start of the chain. -/
theorem exists_of_readChain_eq_error {chain : Chain} (h : readChain read chain = .error failure) :
    (∃ p ∈ chain.operands, p.chars ≠ [] ∧ read p = .error failure) ∨
      ∃ link ∈ chain.link :: chain.links, ∃ left right,
        (left = none → link = chain.link ∧ chain.first.chars = []) ∧
          readOperand read link.operand = .ok right ∧ link.join left right = .error failure := by
  have hoperand {link : Link} (hlink : link ∈ chain.link :: chain.links)
      (h : readOperand read link.operand = .error failure) :
      ∃ p ∈ chain.operands, p.chars ≠ [] ∧ read p = .error failure :=
    ⟨link.operand, Chain.operand_mem_operands hlink, readOperand_eq_error h⟩
  rw [readChain] at h
  obtain h | ⟨left, hleft, h⟩ := Except.bind_eq_error_iff.1 h
  · exact .inl ⟨chain.first, by simp [Chain.operands], readOperand_eq_error h⟩
  obtain h | ⟨right, hright, h⟩ := Except.bind_eq_error_iff.1 h
  · exact .inl (hoperand List.mem_cons_self h)
  obtain h | ⟨start, -, h⟩ := Except.bind_eq_error_iff.1 h
  · refine .inr ⟨chain.link, List.mem_cons_self, left, right, ?_, hright, h⟩
    rintro rfl
    rcases readOperand_eq_ok hleft with ⟨-, hempty⟩ | ⟨e, heq, -⟩
    · exact ⟨rfl, hempty⟩
    · cases heq
  obtain ⟨link, hlink, before, h⟩ := Except.exists_of_foldlM_eq_error h
  have hlink := List.mem_cons_of_mem chain.link hlink
  obtain h | ⟨right, hright, h⟩ := Except.bind_eq_error_iff.1 h
  · exact .inl (hoperand hlink h)
  · refine .inr ⟨link, hlink, some before, right, fun hnone => ?_, hright, h⟩
    exact absurd hnone (Option.some_ne_none before)

/-- A call is not read only for its name, for its parameters, or where one of these is not. -/
theorem exists_of_readCall_eq_error {offset : Nat} {name : String} {inside : Piece}
    (h : readCall read offset name inside = .error failure) :
    failure = .fault ⟨.unknownFunction name, offset⟩ ∨
      (∃ fault, inside.parameters = .error fault ∧ failure = .fault fault) ∨
        ∃ pieces, inside.parameters = .ok pieces ∧ ∃ p ∈ pieces, read p = .error failure := by
  rw [readCall] at h
  split at h
  · exact .inl (Except.error.inj h).symm
  · obtain h | ⟨pieces, hpieces, h⟩ := Except.bind_eq_error_iff.1 h
    · obtain ⟨fault, hfault, rfl⟩ := Except.mapError_eq_error_iff.1 h
      exact .inr (.inl ⟨fault, hfault, rfl⟩)
    · obtain h | ⟨args, -, h⟩ := Except.bind_eq_error_iff.1 h
      · exact .inr (.inr ⟨pieces, Except.mapError_eq_ok_iff.1 hpieces,
          Except.exists_of_mapM_eq_error h⟩)
      · cases h

/-- An empty part is refused at a comma. -/
theorem exists_of_refuseEmptyParts_eq_error {offset : Nat} {part : List Char}
    {parts : List (List Char)} {fault : Fault}
    (h : refuseEmptyParts offset part parts = .error fault) :
    ∃ before after, [','].intercalate (part :: parts) = before ++ ',' :: after ∧
      fault = ⟨.emptyParameter, offset + before.length⟩ := by
  induction parts generalizing offset part with
  | nil => cases h
  | cons next parts ih =>
    simp only [refuseEmptyParts] at h
    rw [List.intercalate_cons_cons, List.append_assoc]
    split at h
    · exact ⟨part, [','].intercalate (next :: parts), rfl, (Except.error.inj h).symm⟩
    · split at h
      · cases h
      · next hrest =>
        obtain rfl := Except.error.inj h
        obtain ⟨before, after, hchars, hfault⟩ := ih hrest
        refine ⟨part ++ ',' :: before, after, by rw [hchars]; simp, ?_⟩
        rw [hfault, List.length_append, List.length_cons]
        congr 1
        omega

/-- The parameters of a call are refused where there are none, for a parenthesis, or at the comma
beside an empty one. -/
theorem Piece.exists_of_parameters_eq_error {p : Piece} {fault : Fault}
    (h : p.parameters = .error fault) :
    (p.chars = [] ∧ fault = ⟨.emptyParameter, p.offset⟩) ∨ p.groups = .error fault ∨
      ∃ before after, p.chars = before ++ ',' :: after ∧
        fault = ⟨.emptyParameter, p.offset + before.length⟩ := by
  rw [parameters] at h
  split at h
  · next hempty => exact .inl ⟨List.isEmpty_iff.1 hempty, (Except.error.inj h).symm⟩
  · split at h
    · next hgroups =>
      obtain rfl := Except.error.inj h
      exact .inr (.inl hgroups)
    · rcases hsplit : splitCommas 0 p.chars with ⟨part, parts⟩
      rw [hsplit] at h
      rw [splitCommas_eq hsplit]
      exact .inr (.inr (exists_of_refuseEmptyParts_eq_error h))

/-- What is no value is faulted at its start. -/
theorem eq_invalidValue_of_readValue {unknowns : List Char} {p : Piece}
    (h : readValue unknowns p = .error failure) :
    failure = .fault ⟨.invalidValue, p.offset⟩ := by
  have hliteral (h : readValue.literal p = .error failure) :
      failure = .fault ⟨.invalidValue, p.offset⟩ := by
    rw [readValue.literal] at h
    split at h
    · cases h
    · exact (Except.error.inj h).symm
  rw [readValue] at h
  split at h
  · cases h
  · split at h
    · cases h
    · split at h
      · cases h
      · exact hliteral h
    · exact hliteral h

/-- A piece is not read only for one of the reasons. -/
theorem Piece.fails_of_readPiece {unknowns : List Char} {levels : Nat} {p : Piece}
    (h : readPiece unknowns (levels + 1) p = .error failure) :
    p.Fails (readPiece unknowns levels) failure := by
  rw [readPiece] at h
  obtain h | ⟨q, hunwrap, h⟩ := Except.bind_eq_error_iff.1 h
  · obtain ⟨fault, hunwrap, rfl⟩ := Except.mapError_eq_error_iff.1 h
    exact .unwrap hunwrap
  have hunwrap := Except.mapError_eq_ok_iff.1 hunwrap
  split at h
  · next hempty =>
    obtain rfl := Except.error.inj h
    exact .empty hunwrap (List.isEmpty_iff.1 hempty)
  next hne =>
  obtain h | ⟨_, -, h⟩ := Except.bind_eq_error_iff.1 h
  · obtain ⟨fault, hgroups, rfl⟩ := Except.mapError_eq_error_iff.1 h
    exact .groups hunwrap hgroups
  split at h
  · next chain hchain =>
    obtain ⟨operand, hmem, hoperand, h⟩ | ⟨link, hlink, left, right, hleft, hright, h⟩ :=
      exists_of_readChain_eq_error h
    · exact .below (.operand hunwrap hchain hmem hoperand) h
    · exact .link hunwrap hchain hlink hleft hright h
  · split at h
    · next name inside hcall =>
      obtain rfl | ⟨fault, hparameters, rfl⟩ | ⟨pieces, hpieces, parameter, hmem, h⟩ :=
        exists_of_readCall_eq_error h
      · exact .name hunwrap hcall
      · exact .parameters hunwrap hcall hparameters
      · exact .below (.parameter hunwrap hcall hpieces hmem) h
    · obtain rfl := eq_invalidValue_of_readValue h
      exact .value hunwrap fun hempty => hne (List.isEmpty_iff.2 hempty)

end Failing

end Calculator
