import Calculator.Proofs.Expression.WellFormed
import Calculator.Proofs.Syntax.Derivation

/-!
# What the parser reads is derived

Every tree that the parser reads off a piece is derived from the characters of that piece. The
operands of a chain show only operators that bind more tightly, so each of them is derived from
what the grammar asks for at its place.
-/

namespace Calculator

/-- Changing the failure does not change a result. -/
theorem Except.mapError_eq_ok_iff {ε ε' α : Type} {f : ε → ε'} {x : Except ε α} {a : α} :
    x.mapError f = .ok a ↔ x = .ok a := by
  cases x <;> simp [Except.mapError]

/-- The operands that an operator accepts are those it needs, and a right one only if it needs
one. -/
theorem Link.join_eq_ok_iff {link : Link} {left right : Option (Expression Float)}
    {e : Expression Float} :
    link.join left right = .ok e ↔
      e = .operation link.operator left right ∧
        (left = none → link.operator.needsLeft = false) ∧
        link.operator.needsRight = right.isSome := by
  rw [← Expression.operation?_eq_ok_iff, Link.join]
  cases Expression.operation? link.operator left right with
  | ok => simp
  | error refused => cases refused <;> simp

/-- The pieces of a chain make up the text, and the operands show only tighter operators. -/
theorem Piece.chain?_eq_some {p : Piece} {chain : Chain} (h : p.chain? = some chain) :
    p.chars = chain.first.chars ++ (chain.link :: chain.links).flatMap Link.chars ∧
      ∃ level : Level,
        (∀ op ∈ operatorsIn none chain.first.chars, level.precedence < op.precedence) ∧
        ∀ link ∈ chain.link :: chain.links, link.operator.level = level ∧
          ∀ op ∈ operatorsIn (some link.operator.symbol) link.operand.chars,
            level.precedence < op.precedence := by
  simp only [Piece.chain?] at h
  split at h
  · simp at h
  · next precedence hlowest =>
    obtain ⟨⟨lowest, -, hprecedence⟩, hmin⟩ := lowestPrecedence?_eq_some_iff.1 hlowest
    split at h
    · next operand link links hsplit =>
      obtain ⟨hchars, hfirst, hlinks⟩ := splits_splitAtPrecedence hmin hsplit
      obtain rfl := Option.some.inj h
      refine ⟨hchars, lowest.level, ?_, ?_⟩
      · rw [lowest.precedence_level, hprecedence]
        exact hfirst
      · intro link' hlink'
        obtain ⟨heq, htighter⟩ := hlinks link' hlink'
        refine ⟨Level.eq_of_precedence_eq ?_, ?_⟩
        · rw [Operator.precedence_level, Operator.precedence_level, heq, hprecedence]
        · rw [lowest.precedence_level, hprecedence]
          exact htighter
    · simp at h

/-- A piece that is no chain shows no operators. -/
theorem Piece.operatorsIn_of_chain?_eq_none {p : Piece} (h : p.chain? = none) :
    operatorsIn none p.chars = [] := by
  simp only [Piece.chain?] at h
  split at h
  · next hlowest => exact lowestPrecedence?_eq_none_iff.1 hlowest
  · next precedence hlowest =>
    obtain ⟨⟨op, hop, hprecedence⟩, hmin⟩ := lowestPrecedence?_eq_some_iff.1 hlowest
    split at h
    · simp at h
    · next operand hsplit =>
      -- Without links the first operand is the whole text, which shows the lowest operator.
      obtain ⟨hchars, hfirst, -⟩ := splits_splitAtPrecedence hmin hsplit
      rw [List.flatMap_nil, List.append_nil] at hchars
      have hlt := hfirst op (hchars ▸ hop)
      omega

/-- The parentheses that are taken off leave no node. -/
theorem Piece.derives_of_unwrap {unknowns : List Char} {p q : Piece} {e : Expression Float}
    (h : p.unwrap = .ok q) (hq : Derives unknowns (.chain .sum) q.chars e) :
    Derives unknowns (.chain .sum) p.chars e := by
  fun_induction Piece.unwrap p with
  | case1 p inside hgroup ih =>
    have hchars := firstGroup_eq hgroup
    have hinside := ih h
    rw [hchars]
    exact Derives.expression_of_atom (.group hinside)
  | case2 p found hgroup hnot =>
    obtain rfl := Except.ok.inj h
    exact hq
  | case3 p fault hgroup => cases h

section Reading

variable {unknowns : List Char} {read : Piece → Except PieceFailure (Expression Float)}

/-- An operand is absent from an empty piece, and read from any other. -/
theorem readOperand_eq_ok {p : Piece} {operand : Option (Expression Float)}
    (h : readOperand read p = .ok operand) :
    (operand = none ∧ p.chars = []) ∨
      ∃ e, operand = some e ∧ p.chars ≠ [] ∧ read p = .ok e := by
  rw [readOperand] at h
  split at h
  · next hempty => exact .inl ⟨(Except.ok.inj h).symm, List.isEmpty_iff.1 hempty⟩
  · next hne =>
    cases hp : read p with
    | error failure => simp [hp, Except.map] at h
    | ok e =>
      rw [hp] at h
      exact .inr ⟨e, (Except.ok.inj h).symm, fun hempty => hne (List.isEmpty_iff.2 hempty), rfl⟩

/-- A link joins what was read before it with its right operand. -/
theorem Link.derives_of_join (hunknowns : ∀ c ∈ unknowns, isUnknownSymbol c = true)
    (hread : ∀ p e, read p = .ok e → Derives unknowns (.chain .sum) p.chars e)
    {link : Link} {cs : List Char} {left e : Expression Float} {right : Option (Expression Float)}
    (hleft : Derives unknowns (.chain link.operator.level) cs left)
    (htighter : ∀ op ∈ operatorsIn (some link.operator.symbol) link.operand.chars,
      link.operator.level.precedence < op.precedence)
    (hright : readOperand read link.operand = .ok right)
    (hjoin : link.join (some left) right = .ok e) :
    Derives unknowns (.chain link.operator.level) (cs ++ link.chars) e := by
  obtain ⟨rfl, -, hneeds⟩ := Link.join_eq_ok_iff.1 hjoin
  rw [Link.chars]
  rcases readOperand_eq_ok hright with ⟨rfl, hempty⟩ | ⟨b, rfl, -, hb⟩
  · have hfactorial := Operator.eq_factorial_of_needsRight hneeds
    rw [hempty, hfactorial]
    rw [hfactorial] at hleft
    exact .factorial hleft
  · have hends : endsOperand (some link.operator.symbol) = false := by
      rw [Operator.endsOperand_symbol, Operator.isPostfix, hneeds]
      rfl
    exact .binary hneeds hleft ((hread _ _ hb).operand_of_lt hunknowns hends htighter)

/-- The first link of a chain joins the first operand, which a minus sign may go without. -/
theorem Link.derives_of_first_join (hunknowns : ∀ c ∈ unknowns, isUnknownSymbol c = true)
    (hread : ∀ p e, read p = .ok e → Derives unknowns (.chain .sum) p.chars e)
    {link : Link} {first : Piece} {e : Expression Float} {left right : Option (Expression Float)}
    (hfirst : ∀ op ∈ operatorsIn none first.chars,
      link.operator.level.precedence < op.precedence)
    (htighter : ∀ op ∈ operatorsIn (some link.operator.symbol) link.operand.chars,
      link.operator.level.precedence < op.precedence)
    (hleft : readOperand read first = .ok left)
    (hright : readOperand read link.operand = .ok right)
    (hjoin : link.join left right = .ok e) :
    Derives unknowns (.chain link.operator.level) (first.chars ++ link.chars) e := by
  rcases readOperand_eq_ok hleft with ⟨rfl, hempty⟩ | ⟨a, rfl, -, ha⟩
  · obtain ⟨rfl, habsent, hneeds⟩ := Link.join_eq_ok_iff.1 hjoin
    have hsub := Operator.eq_sub_of_needsLeft (habsent rfl)
    rw [Link.chars, hempty]
    rw [hsub] at hneeds htighter ⊢
    rcases readOperand_eq_ok hright with ⟨rfl, -⟩ | ⟨b, rfl, -, hb⟩
    · cases hneeds
    · exact .negation ((hread _ _ hb).operand_of_lt hunknowns rfl htighter)
  · have hchain := (hread _ _ ha).tighter_of_lt hunknowns hfirst
    exact derives_of_join hunknowns hread (.tighter hchain) htighter hright hjoin

/-- The links of a chain join their operands one after the other to what was read before. -/
theorem Link.derives_of_foldlM (hunknowns : ∀ c ∈ unknowns, isUnknownSymbol c = true)
    (hread : ∀ p e, read p = .ok e → Derives unknowns (.chain .sum) p.chars e) {level : Level}
    {links : List Link} {cs : List Char} {acc e : Expression Float}
    (hlinks : ∀ link ∈ links, link.operator.level = level ∧
      ∀ op ∈ operatorsIn (some link.operator.symbol) link.operand.chars,
        level.precedence < op.precedence)
    (hacc : Derives unknowns (.chain level) cs acc)
    (h : links.foldlM (fun left link => do
      let right ← readOperand read link.operand
      link.join (some left) right) acc = .ok e) :
    Derives unknowns (.chain level) (cs ++ links.flatMap Link.chars) e := by
  induction links generalizing cs acc with
  | nil =>
    obtain rfl := Except.ok.inj h
    simpa using hacc
  | cons link links ih =>
    rw [List.foldlM_cons] at h
    obtain ⟨next, hnext, h⟩ := Except.bind_eq_ok_iff.1 h
    obtain ⟨right, hright, hjoin⟩ := Except.bind_eq_ok_iff.1 hnext
    obtain ⟨rfl, htighter⟩ := hlinks link (by simp)
    have hjoined := derives_of_join hunknowns hread hacc htighter hright hjoin
    rw [List.flatMap_cons, ← List.append_assoc]
    exact ih (fun l hl => hlinks l (by simp [hl])) hjoined h

/-- What is read off a chain is derived from its pieces. -/
theorem derives_of_readChain (hunknowns : ∀ c ∈ unknowns, isUnknownSymbol c = true)
    (hread : ∀ p e, read p = .ok e → Derives unknowns (.chain .sum) p.chars e)
    {p : Piece} {chain : Chain} {e : Expression Float} (hchain : p.chain? = some chain)
    (h : readChain read chain = .ok e) : Derives unknowns (.chain .sum) p.chars e := by
  obtain ⟨hchars, level, hfirst, hlinks⟩ := Piece.chain?_eq_some hchain
  rw [readChain] at h
  obtain ⟨left, hleft, h⟩ := Except.bind_eq_ok_iff.1 h
  obtain ⟨right, hright, h⟩ := Except.bind_eq_ok_iff.1 h
  obtain ⟨start, hstart, h⟩ := Except.bind_eq_ok_iff.1 h
  obtain ⟨rfl, htighter⟩ := hlinks chain.link (by simp)
  have hjoined :=
    Link.derives_of_first_join hunknowns hread hfirst htighter hleft hright hstart
  have hall := Link.derives_of_foldlM hunknowns hread
    (fun link hlink => hlinks link (by simp [hlink])) hjoined h
  rw [hchars, List.flatMap_cons, ← List.append_assoc]
  exact hall.lift (Nat.zero_le _)

/-- Splitting at the commas keeps all characters. -/
theorem splitCommas_eq {depth : Nat} {cs part : List Char} {parts : List (List Char)}
    (h : splitCommas depth cs = (part, parts)) : cs = [','].intercalate (part :: parts) := by
  induction cs generalizing depth part parts with
  | nil =>
    obtain ⟨rfl, rfl⟩ := Prod.mk.inj h
    rfl
  | cons c cs ih =>
    rw [splitCommas] at h
    rcases hrest : splitCommas (nestingAfter depth c) cs with ⟨next, more⟩
    have hcs := ih hrest
    rw [hrest] at h
    simp only at h
    split at h
    · next hcomma =>
      obtain ⟨rfl, rfl⟩ := Prod.mk.inj h
      rw [List.intercalate_cons_cons, ← hcs, hcomma.1]
      rfl
    · obtain ⟨rfl, rfl⟩ := Prod.mk.inj h
      rw [hcs]
      cases more <;> simp

/-- The pieces of the parts are the parts themselves, with offsets. -/
theorem refuseEmptyParts_eq_ok {offset : Nat} {part : List Char} {parts : List (List Char)}
    {pieces : List Piece} (h : refuseEmptyParts offset part parts = .ok pieces) :
    pieces.map (·.chars) = part :: parts := by
  induction parts generalizing offset part pieces with
  | nil =>
    obtain rfl := Except.ok.inj h
    rfl
  | cons next parts ih =>
    simp only [refuseEmptyParts] at h
    split at h
    · cases h
    · split at h
      · next more hmore =>
        obtain rfl := Except.ok.inj h
        rw [List.map_cons, ih hmore]
      · cases h

/-- The parameters of a call make up what stands inside its parentheses. -/
theorem Piece.parameters_eq_ok {p : Piece} {pieces : List Piece} (h : p.parameters = .ok pieces) :
    p.chars = [','].intercalate (pieces.map (·.chars)) ∧ pieces ≠ [] := by
  rw [Piece.parameters] at h
  split at h
  · cases h
  · split at h
    · cases h
    · rcases hsplit : splitCommas 0 p.chars with ⟨part, parts⟩
      rw [hsplit] at h
      have hpieces := refuseEmptyParts_eq_ok h
      refine ⟨by rw [hpieces, splitCommas_eq hsplit], ?_⟩
      rintro rfl
      simp at hpieces

/-- The arguments that are read off a list of pieces are derived from them. -/
theorem exists_args_of_mapM
    (hread : ∀ p e, read p = .ok e → Derives unknowns (.chain .sum) p.chars e)
    {pieces : List Piece} {es : List (Expression Float)} (h : pieces.mapM read = .ok es) :
    ∃ args : List (List Char × Expression Float), args.map (·.1) = pieces.map (·.chars) ∧
      args.map (·.2) = es ∧ ∀ arg ∈ args, Derives unknowns (.chain .sum) arg.1 arg.2 := by
  induction pieces generalizing es with
  | nil =>
    obtain rfl := Except.ok.inj h
    exact ⟨[], rfl, rfl, by simp⟩
  | cons p pieces ih =>
    rw [List.mapM_cons] at h
    obtain ⟨e, he, h⟩ := Except.bind_eq_ok_iff.1 h
    obtain ⟨es', hes', h⟩ := Except.bind_eq_ok_iff.1 h
    obtain rfl := Except.ok.inj h
    obtain ⟨args, hchars, htrees, hderives⟩ := ih hes'
    refine ⟨(p.chars, e) :: args, by simp [hchars], by simp [htrees], ?_⟩
    intro arg harg
    rcases List.mem_cons.1 harg with rfl | harg
    · exact hread p e he
    · exact hderives arg harg

/-- A function is found under its name only. -/
theorem NamedFunction.ofName?_eq_some_iff {name : String} {f : NamedFunction} :
    NamedFunction.ofName? name = some f ↔ f.name = name := by
  constructor
  · intro h
    have hfound := List.find?_some h
    exact eq_of_beq hfound
  · rintro rfl
    cases f <;> decide

/-- A call is a name with a group after it. -/
theorem Piece.call?_eq_some {p inside : Piece} {name : String}
    (h : p.call? = some (name, inside)) :
    p.chars = name.toList ++ '(' :: (inside.chars ++ [')']) := by
  rw [Piece.call?] at h
  split at h
  · next c cs inside' hgroup =>
    obtain ⟨rfl, rfl⟩ := Prod.mk.inj (Option.some.inj h)
    rw [firstGroup_eq hgroup, String.toList_ofList]
  · cases h

/-- What is read as a call is derived from its name and its arguments. -/
theorem derives_of_readCall
    (hread : ∀ p e, read p = .ok e → Derives unknowns (.chain .sum) p.chars e)
    {p inside : Piece} {name : String} {offset : Nat} {e : Expression Float}
    (hcall : p.call? = some (name, inside)) (h : readCall read offset name inside = .ok e) :
    Derives unknowns .atom p.chars e := by
  rw [readCall] at h
  split at h
  · cases h
  · next f hname =>
    obtain ⟨pieces, hpieces, h⟩ := Except.bind_eq_ok_iff.1 h
    obtain ⟨es, hes, h⟩ := Except.bind_eq_ok_iff.1 h
    obtain rfl := Except.ok.inj h
    obtain ⟨hinside, hne⟩ := Piece.parameters_eq_ok (Except.mapError_eq_ok_iff.1 hpieces)
    obtain ⟨args, hchars, rfl, hargs⟩ := exists_args_of_mapM hread hes
    rw [Piece.call?_eq_some hcall, hinside, ← hchars,
      ← NamedFunction.ofName?_eq_some_iff.1 hname]
    refine .call ?_ hargs
    rintro rfl
    exact hne (List.map_eq_nil_iff.1 hchars.symm)

/-- What is read as a value is a leaf, unless it starts with a minus sign. -/
theorem leaf_of_readValue {p : Piece} {e : Expression Float}
    (hminus : ∀ cs, p.chars ≠ '-' :: cs) (h : readValue unknowns p = .ok e) :
    Leaf unknowns p.chars e := by
  have hliteral (h : readValue.literal p = .ok e) : Leaf unknowns p.chars e := by
    rw [readValue.literal, readLiteral?] at h
    cases hd : Decimal.readLiteral? p.chars with
    | none => simp [hd] at h
    | some d =>
      rw [hd] at h
      obtain rfl := Except.ok.inj h
      exact .literal (Decimal.literal_of_readLiteral? hd hminus)
  rw [readValue] at h
  split at h
  · next hpi =>
    obtain rfl := Except.ok.inj h
    exact hpi ▸ .pi
  · split at h
    · next heuler =>
      obtain rfl := Except.ok.inj h
      exact heuler ▸ .euler
    · next c _ hchars =>
      split at h
      · next hc =>
        obtain rfl := Except.ok.inj h
        exact hchars ▸ .unknown (List.contains_iff_mem.1 hc)
      · exact hliteral h
    · exact hliteral h

end Reading

/-- What the parser reads off a piece is derived from its characters. -/
theorem derives_of_readPiece {unknowns : List Char}
    (hunknowns : ∀ c ∈ unknowns, isUnknownSymbol c = true) {levels : Nat} {p : Piece}
    {e : Expression Float} (h : readPiece unknowns levels p = .ok e) :
    Derives unknowns (.chain .sum) p.chars e := by
  induction levels generalizing p e with
  | zero => cases h
  | succ levels ih =>
    rw [readPiece] at h
    obtain ⟨q, hunwrap, h⟩ := Except.bind_eq_ok_iff.1 h
    refine Piece.derives_of_unwrap (Except.mapError_eq_ok_iff.1 hunwrap) ?_
    split at h
    · cases h
    · obtain ⟨groups, -, h⟩ := Except.bind_eq_ok_iff.1 h
      split at h
      · next chain hchain => exact derives_of_readChain hunknowns (fun _ _ => ih) hchain h
      · next hchain =>
        split at h
        · next name inside hcall =>
          exact (derives_of_readCall (fun _ _ => ih) hcall h).expression_of_atom
        · refine Derives.expression_of_atom (.leaf (leaf_of_readValue ?_ h))
          intro cs hcs
          have hnone := Piece.operatorsIn_of_chain?_eq_none hchain
          have hminus := sub_mem_operatorsIn cs
          rw [← hcs, hnone] at hminus
          cases hminus

end Calculator
