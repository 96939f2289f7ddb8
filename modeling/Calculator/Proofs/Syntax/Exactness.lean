import Calculator.Proofs.Syntax.Completeness

/-!
# The parser accepts exactly the grammar

With a nesting limit that is no shorter than the text, the parser reads exactly the texts that the
grammar derives, and builds the tree of the derivation.
-/

namespace Calculator

/-- The failure to parse a source that a failure to read it as a piece comes to. -/
def PieceFailure.parseFailure (limit : Nat) (source : List Char) : PieceFailure → ParseFailure
  | tooDeep => .tooDeep limit
  | fault found => .malformed (.ofFault source found)

/-- With valid unknowns, a text is parsed by reading it, without its blanks, as a piece. -/
theorem parse_eq {unknowns : List Char} (hunknowns : ∀ c ∈ unknowns, isUnknownSymbol c = true)
    (limit : Nat) (text : String) :
    parse unknowns limit text =
      (readPiece unknowns (limit + 1) ⟨0, Text.stripBlanks text.toList⟩).mapError
        (PieceFailure.parseFailure limit (Text.stripBlanks text.toList)) := by
  have hvalid : refusedUnknown? unknowns = none := by
    simpa [refusedUnknown?] using hunknowns
  rw [parse, parseSource, hvalid]
  rcases readPiece unknowns (limit + 1) ⟨0, Text.stripBlanks text.toList⟩ with (_ | _) | _ <;> rfl

/-- Unless all unknowns are valid, every text is refused for one that is not. -/
theorem isUnknownSymbol_or_parse_eq (unknowns : List Char) :
    (∀ c ∈ unknowns, isUnknownSymbol c = true) ∨
      ∃ c, ∀ limit text, parse unknowns limit text = .error (.invalidUnknown c) := by
  cases hrefused : refusedUnknown? unknowns with
  | none => exact .inl (by simpa [refusedUnknown?] using hrefused)
  | some c => exact .inr ⟨c, fun limit text => by rw [parse, parseSource, hrefused]⟩

/-- A text of the grammar that nests within the limit is read. -/
theorem parse_of_nests {unknowns : List Char}
    (hunknowns : ∀ c ∈ unknowns, isUnknownSymbol c = true) {limit : Nat} {text : String}
    {e : Expression Float}
    (h : Nests unknowns limit (.of (.chain .sum)) (Text.stripBlanks text.toList) e) :
    parse unknowns limit text = .ok e := by
  rw [parse_eq hunknowns, Except.mapError_eq_ok_iff]
  exact h.reads hunknowns 0 (limit + 1) (Nat.lt_succ_self limit)

/-- A derived text is parsed with every limit that is no less than its length. -/
theorem parse_of_derives {unknowns : List Char}
    (hunknowns : ∀ c ∈ unknowns, isUnknownSymbol c = true) {limit : Nat} {cs : List Char}
    {e : Expression Float} (h : Derives unknowns (.chain .sum) (Text.stripBlanks cs) e)
    (hlimit : cs.length ≤ limit) : parse unknowns limit (String.ofList cs) = .ok e := by
  have hlength : (Text.stripBlanks cs).length ≤ cs.length := List.length_filter_le _ _
  apply parse_of_nests hunknowns
  rw [String.toList_ofList]
  exact h.nests.mono (Nat.le_trans hlength hlimit)

/-- Only with valid unknowns is anything parsed. -/
theorem isUnknownSymbol_of_parse {unknowns : List Char} {limit : Nat} {text : String}
    {e : Expression Float} (h : parse unknowns limit text = .ok e) :
    ∀ c ∈ unknowns, isUnknownSymbol c = true := by
  obtain hvalid | ⟨c, hrefused⟩ := isUnknownSymbol_or_parse_eq unknowns
  · exact hvalid
  · cases (hrefused limit text).symm.trans h

/-- What is parsed has been read off the text without its blanks. -/
theorem readPiece_of_parse {unknowns : List Char} {limit : Nat} {text : String}
    {e : Expression Float} (h : parse unknowns limit text = .ok e) :
    readPiece unknowns (limit + 1) ⟨0, Text.stripBlanks text.toList⟩ = .ok e := by
  rw [parse_eq (isUnknownSymbol_of_parse h)] at h
  exact Except.mapError_eq_ok_iff.1 h

/-- The parser accepts exactly the texts of the grammar and builds exactly their trees. -/
theorem parse_eq_ok_iff {unknowns : List Char}
    (hunknowns : ∀ c ∈ unknowns, isUnknownSymbol c = true) {limit : Nat} {text : String}
    (hlimit : (Text.stripBlanks text.toList).length ≤ limit) (e : Expression Float) :
    parse unknowns limit text = .ok e ↔
      Derives unknowns (.chain .sum) (Text.stripBlanks text.toList) e := by
  constructor
  · intro h
    exact derives_of_readPiece hunknowns (readPiece_of_parse h)
  · intro h
    exact parse_of_nests hunknowns (h.nests.mono hlimit)

/-- A negated product with a factorial in it is parsed as the grammar groups it. -/
theorem parse_negated_product :
    parse ['x'] 6 "-pi * x!" = .ok (.operation .sub none (some (.operation .mul
      (some (.constant pi)) (some (.operation .factorial (some (.unknown 'x')) none))))) := by
  have hpi : Derives ['x'] .atom ['p', 'i'] (.constant pi) := .leaf .pi
  have hx : Derives ['x'] .atom ['x'] (.unknown 'x') := .leaf (.unknown (by simp))
  have hfactorial : Derives ['x'] (.chain .residue) ['x', '!']
      (.operation .factorial (some (.unknown 'x')) none) := .factorial (.tighter hx)
  have hproduct : Derives ['x'] (.chain .product) ['p', 'i', '*', 'x', '!']
      (.operation .mul (some (.constant pi))
        (some (.operation .factorial (some (.unknown 'x')) none))) :=
    @Derives.binary _ .mul ['p', 'i'] ['x', '!'] _ _ rfl
      (.tighter (hpi.tighter_of_atom .product)) (.plain (.tighter hfactorial))
  have hunknowns : ∀ c ∈ ['x'], isUnknownSymbol c = true := by
    intro c hc
    obtain rfl := List.mem_singleton.1 hc
    decide +kernel
  exact (parse_eq_ok_iff hunknowns (by decide +kernel) _).2 (.negation (.plain hproduct))

end Calculator
