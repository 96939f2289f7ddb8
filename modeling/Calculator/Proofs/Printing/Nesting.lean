import Calculator.Expression.Printer
import Calculator.Proofs.Expression.WellFormed
import Calculator.Proofs.Syntax.Nesting
import Calculator.Proofs.Syntax.Soundness

/-!
# Nesting of expressions

The levels that the short text of an expression nests, which are no more than the parser needed to
read the expression in the first place.
-/

namespace Calculator

namespace Expression

mutual

/-- The levels that the short text nests, when that of a leaf nests so many. A left operand of the
same precedence is part of the chain and adds none. -/
def nesting (leaf : Polynomial Float Float → Nat) : Expression Float → Nat
  | value p => leaf p
  | call _ args => nestingOfArgs leaf args + 1
  | operation op left right => max (nestingOfLeft leaf op left) (nestingOfRight leaf right)

/-- The most levels that an argument nests. -/
def nestingOfArgs (leaf : Polynomial Float Float → Nat) : List (Expression Float) → Nat
  | [] => 0
  | e :: es => max (e.nesting leaf) (nestingOfArgs leaf es)

/-- The levels that a left operand makes its operation nest. -/
def nestingOfLeft (leaf : Polynomial Float Float → Nat) (op : Operator) :
    Option (Expression Float) → Nat
  | none => 0
  | some e => if e.precedence? = some op.precedence then e.nesting leaf else e.nesting leaf + 1

/-- The levels that a right operand makes its operation nest. -/
def nestingOfRight (leaf : Polynomial Float Float → Nat) : Option (Expression Float) → Nat
  | none => 0
  | some e => e.nesting leaf + 1

end

variable {leaf : Polynomial Float Float → Nat}

/-- No argument nests more levels than the most. -/
theorem nesting_le_nestingOfArgs {args : List (Expression Float)} {e : Expression Float}
    (h : e ∈ args) : e.nesting leaf ≤ nestingOfArgs leaf args := by
  induction args with
  | nil => cases h
  | cons a as ih =>
    rw [nestingOfArgs]
    obtain rfl | h := List.mem_cons.1 h
    · exact Nat.le_max_left _ _
    · exact Nat.le_trans (ih h) (Nat.le_max_right _ _)

/-- The arguments nest no more levels than each of them may. -/
theorem nestingOfArgs_lt {args : List (Expression Float)} {levels : Nat} (hlevels : 0 < levels)
    (h : ∀ e ∈ args, e.nesting leaf < levels) : nestingOfArgs leaf args < levels := by
  induction args with
  | nil => exact hlevels
  | cons a as ih =>
    rw [nestingOfArgs]
    exact Nat.max_lt.2 ⟨h a List.mem_cons_self, ih fun e he => h e (List.mem_cons_of_mem a he)⟩

/-- A left operand adds at most one level. -/
theorem nestingOfLeft_le (op : Operator) (e : Expression Float) :
    nestingOfLeft leaf op (some e) ≤ e.nesting leaf + 1 := by
  rw [nestingOfLeft]
  split
  · exact Nat.le_succ _
  · exact Nat.le_refl _

end Expression

section Reading

variable {unknowns : List Char} {read : Piece → Except PieceFailure (Expression Float)}
  {levels : Nat}

/-- An operand that is read nests no deeper than what is read. -/
theorem nesting_lt_of_readOperand
    (hread : ∀ p e, read p = .ok e → e.nesting (fun _ => 0) < levels) {p : Piece}
    {operand : Option (Expression Float)} (h : readOperand read p = .ok operand) :
    ∀ e ∈ operand, e.nesting (fun _ => 0) < levels := by
  rcases readOperand_eq_ok h with ⟨rfl, -⟩ | ⟨e, rfl, -, he⟩
  · exact nofun
  · rintro _ ⟨⟩
    exact hread p e he

/-- An operation nests one level more than its operands at most, and none more than a left operand
that belongs to the same chain. -/
theorem nesting_operation_lt {op : Operator} {left right : Option (Expression Float)}
    (hleft : ∀ e ∈ left, e.nesting (fun _ => 0) < levels ∨
      e.precedence? = some op.precedence ∧ e.nesting (fun _ => 0) < levels + 1)
    (hright : ∀ e ∈ right, e.nesting (fun _ => 0) < levels) :
    (Expression.operation op left right).nesting (fun _ => 0) < levels + 1 := by
  rw [Expression.nesting]
  apply Nat.max_lt.2
  constructor
  · cases left with
    | none => exact Nat.succ_pos levels
    | some e =>
      obtain hlt | ⟨hsame, hlt⟩ := hleft e rfl
      · exact Nat.lt_of_le_of_lt (Expression.nestingOfLeft_le op e) (Nat.succ_lt_succ hlt)
      · rw [Expression.nestingOfLeft, if_pos hsame]
        exact hlt
  · cases right with
    | none => exact Nat.succ_pos levels
    | some e => exact Nat.succ_lt_succ (hright e rfl)

/-- The links of a chain add no level to what their operands nest. -/
theorem nesting_lt_of_foldlM
    (hread : ∀ p e, read p = .ok e → e.nesting (fun _ => 0) < levels) {level : Level}
    {links : List Link} (hlinks : ∀ link ∈ links, link.operator.level = level)
    {acc e : Expression Float} (hprecedence : acc.precedence? = some level.precedence)
    (hacc : acc.nesting (fun _ => 0) < levels + 1)
    (h : links.foldlM (fun left link => do
      let right ← readOperand read link.operand
      link.join (some left) right) acc = .ok e) :
    e.nesting (fun _ => 0) < levels + 1 := by
  induction links generalizing acc with
  | nil =>
    obtain rfl := Except.ok.inj h
    exact hacc
  | cons link links ih =>
    rw [List.foldlM_cons] at h
    obtain ⟨next, hnext, h⟩ := Except.bind_eq_ok_iff.1 h
    obtain ⟨right, hright, hjoin⟩ := Except.bind_eq_ok_iff.1 hnext
    obtain ⟨rfl, -, -⟩ := Link.join_eq_ok_iff.1 hjoin
    obtain rfl := hlinks link List.mem_cons_self
    rw [Operator.precedence_level] at hprecedence
    have hlinks' : ∀ l ∈ links, l.operator.level = link.operator.level :=
      fun l hl => hlinks l (List.mem_cons_of_mem link hl)
    refine ih hlinks' ?_ (nesting_operation_lt ?_ (nesting_lt_of_readOperand hread hright)) h
    · rw [Expression.precedence?, Operator.precedence_level]
    · intro a ha
      obtain rfl := Option.some.inj ha
      exact .inr ⟨hprecedence, hacc⟩

/-- A chain nests one level more than its operands. -/
theorem nesting_lt_of_readChain
    (hread : ∀ p e, read p = .ok e → e.nesting (fun _ => 0) < levels) {p : Piece}
    {chain : Chain} (hchain : p.chain? = some chain) {e : Expression Float}
    (h : readChain read chain = .ok e) : e.nesting (fun _ => 0) < levels + 1 := by
  obtain ⟨-, level, -, hlinks⟩ := Piece.chain?_eq_some hchain
  rw [readChain] at h
  obtain ⟨left, hleft, h⟩ := Except.bind_eq_ok_iff.1 h
  obtain ⟨right, hright, h⟩ := Except.bind_eq_ok_iff.1 h
  obtain ⟨start, hstart, h⟩ := Except.bind_eq_ok_iff.1 h
  obtain ⟨rfl, -, -⟩ := Link.join_eq_ok_iff.1 hstart
  obtain ⟨rfl, -⟩ := hlinks chain.link List.mem_cons_self
  have hlinks' : ∀ l ∈ chain.links, l.operator.level = chain.link.operator.level :=
    fun l hl => (hlinks l (List.mem_cons_of_mem chain.link hl)).1
  refine nesting_lt_of_foldlM hread hlinks' ?_ (nesting_operation_lt ?_ ?_) h
  · rw [Expression.precedence?, Operator.precedence_level]
  · exact fun a ha => .inl (nesting_lt_of_readOperand hread hleft a ha)
  · exact nesting_lt_of_readOperand hread hright

/-- As many arguments are read as there are pieces, each of them off a piece. -/
theorem args_of_mapM {pieces : List Piece} {es : List (Expression Float)}
    (h : pieces.mapM read = .ok es) :
    es.length = pieces.length ∧ ∀ e ∈ es, ∃ p, read p = .ok e := by
  induction pieces generalizing es with
  | nil =>
    obtain rfl := Except.ok.inj h
    exact ⟨rfl, by simp⟩
  | cons p pieces ih =>
    rw [List.mapM_cons] at h
    obtain ⟨e, he, h⟩ := Except.bind_eq_ok_iff.1 h
    obtain ⟨es', hes', h⟩ := Except.bind_eq_ok_iff.1 h
    obtain rfl := Except.ok.inj h
    obtain ⟨hlength, hread⟩ := ih hes'
    refine ⟨congrArg Nat.succ hlength, fun a ha => ?_⟩
    obtain rfl | ha := List.mem_cons.1 ha
    · exact ⟨p, he⟩
    · exact hread a ha

/-- A call nests one level more than its arguments. -/
theorem nesting_lt_of_readCall
    (hread : ∀ p e, read p = .ok e → e.nesting (fun _ => 0) < levels) {offset : Nat}
    {name : String} {inside : Piece} {e : Expression Float}
    (h : readCall read offset name inside = .ok e) : e.nesting (fun _ => 0) < levels + 1 := by
  rw [readCall] at h
  split at h
  · cases h
  · obtain ⟨pieces, hpieces, h⟩ := Except.bind_eq_ok_iff.1 h
    obtain ⟨es, hes, h⟩ := Except.bind_eq_ok_iff.1 h
    obtain rfl := Except.ok.inj h
    obtain ⟨-, hne⟩ := Piece.parameters_eq_ok (Except.mapError_eq_ok_iff.1 hpieces)
    obtain ⟨hlength, hread'⟩ := args_of_mapM hes
    have hargs : ∀ a ∈ es, a.nesting (fun _ => 0) < levels := by
      intro a ha
      obtain ⟨p, hp⟩ := hread' a ha
      exact hread p a hp
    have hlevels : 0 < levels := by
      have hpos : 0 < es.length := hlength ▸ List.length_pos_iff.2 hne
      exact Nat.zero_lt_of_lt (hargs es[0] (List.getElem_mem hpos))
    rw [Expression.nesting]
    exact Nat.succ_lt_succ (Expression.nestingOfArgs_lt hlevels hargs)

/-- What is read as a value is a leaf. -/
theorem exists_value_of_readValue {p : Piece} {e : Expression Float}
    (h : readValue unknowns p = .ok e) : ∃ q, e = .value q := by
  have hliteral (h : readValue.literal p = .ok e) : ∃ q, e = .value q := by
    rw [readValue.literal] at h
    split at h
    · exact ⟨_, (Except.ok.inj h).symm⟩
    · cases h
  rw [readValue] at h
  split at h
  · exact ⟨_, (Except.ok.inj h).symm⟩
  · split at h
    · exact ⟨_, (Except.ok.inj h).symm⟩
    · split at h
      · exact ⟨_, (Except.ok.inj h).symm⟩
      · exact hliteral h
    · exact hliteral h

/-- An expression nests fewer levels than the parser had for reading it. -/
theorem nesting_lt_of_readPiece {p : Piece} {e : Expression Float}
    (h : readPiece unknowns levels p = .ok e) : e.nesting (fun _ => 0) < levels := by
  induction levels generalizing p e with
  | zero => cases h
  | succ levels ih =>
    rw [readPiece] at h
    obtain ⟨q, -, h⟩ := Except.bind_eq_ok_iff.1 h
    split at h
    · cases h
    · obtain ⟨groups, -, h⟩ := Except.bind_eq_ok_iff.1 h
      split at h
      · next chain hchain => exact nesting_lt_of_readChain (fun _ _ => ih) hchain h
      · split at h
        · exact nesting_lt_of_readCall (fun _ _ => ih) h
        · obtain ⟨q, rfl⟩ := exists_value_of_readValue h
          exact Nat.succ_pos levels

end Reading

end Calculator
