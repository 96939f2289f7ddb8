import Calculator.Proofs.Syntax.Nesting
import Calculator.Proofs.Syntax.Soundness

/-!
# Derived texts are read

A text whose derivation nests fewer levels than the parser may go down is read, and gives the tree
of the derivation. The split at the lowest precedence finds the operands of the derivation, since
these show only tighter operators.
-/

namespace Calculator

variable {unknowns : List Char}

/-- The text is read at every offset by a parser with more levels left than it nests. -/
def Reads (unknowns : List Char) (k : Nat) (cs : List Char) (e : Expression Float) : Prop :=
  ∀ offset levels, k < levels → readPiece unknowns levels ⟨offset, cs⟩ = .ok e

/-- The text splits at a precedence into a chain that is read by a parser for the operands. -/
def ReadsChain (unknowns : List Char) (k precedence : Nat) (cs : List Char)
    (e : Expression Float) : Prop :=
  ∀ offset levels, k ≤ levels → ∃ first link links,
    splitAtPrecedence precedence offset (markOperators none 0 cs) = (first, link :: links) ∧
      readChain (readPiece unknowns levels) ⟨⟨offset, first⟩, link, links⟩ = .ok e

/-- Nothing is taken off a text that is no group. -/
theorem Piece.unwrap_eq_self {p : Piece} {found : Option Group}
    (hfound : firstGroup p.offset p.chars = .ok found)
    (hnot : ∀ inside, found ≠ some ⟨[], inside, []⟩) : p.unwrap = .ok p := by
  rw [Piece.unwrap]
  split
  · next inside h =>
    rw [hfound] at h
    exact absurd (Except.ok.inj h) (hnot inside)
  · rfl
  · next fault h =>
    rw [hfound] at h
    cases h

/-- The parentheses around a balanced text are taken off. -/
theorem Piece.unwrap_group {cs : List Char} (h : Balanced cs) (offset : Nat) :
    Piece.unwrap ⟨offset, '(' :: (cs ++ [')'])⟩ = Piece.unwrap ⟨offset + 1, cs⟩ := by
  have hfound := h.firstGroup_eq_some [] (by simp) offset []
  rw [Piece.unwrap]
  split
  · next inside hgroup =>
    obtain rfl : cs = inside := by simpa using hfound.symm.trans hgroup
    rfl
  · next found hnot hgroup =>
    obtain rfl : found = some ⟨[], cs, []⟩ := by simpa using hgroup.symm.trans hfound
    exact absurd rfl (hnot cs)
  · next fault hgroup => exact absurd (hfound.symm.trans hgroup) (by simp)

/-- A group is read as what stands inside. -/
theorem Reads.group {k : Nat} {cs : List Char} {e : Expression Float} (hcs : Balanced cs)
    (h : Reads unknowns k cs e) : Reads unknowns k ('(' :: (cs ++ [')'])) e := by
  intro offset levels hlevels
  obtain ⟨levels, rfl⟩ : ∃ j, levels = j + 1 := ⟨levels - 1, by omega⟩
  rw [readPiece, Piece.unwrap_group hcs, ← readPiece]
  exact h (offset + 1) (levels + 1) hlevels

/-- A balanced text that shows an operator is no group. -/
theorem Balanced.unwrap_eq_self {cs : List Char} (h : Balanced cs)
    (hne : operatorsIn none cs ≠ []) (offset : Nat) :
    Piece.unwrap ⟨offset, cs⟩ = .ok ⟨offset, cs⟩ := by
  obtain ⟨found, hfound⟩ := h.firstGroup_ok offset
  refine Piece.unwrap_eq_self hfound ?_
  rintro inside rfl
  cases h with
  | nil => cases hfound
  | @char c cs hopen hclose h =>
    have hchars := firstGroup_eq hfound
    exact hopen (List.cons.inj hchars).1
  | @group cs ds hinside hafter =>
    have hgroup := hinside.firstGroup_eq_some [] (by simp) offset ds
    obtain ⟨rfl, rfl⟩ : cs = inside ∧ ds = [] := by simpa using hgroup.symm.trans hfound
    exact hne (hinside.operatorsIn_group none [])

/-- A phrase from which nothing is taken off is read as a chain, a call or a value. -/
theorem Phrase.readPiece_eq {cs : List Char} (h : Phrase cs) {offset : Nat}
    (hunwrap : Piece.unwrap ⟨offset, cs⟩ = .ok ⟨offset, cs⟩) (levels : Nat) :
    readPiece unknowns (levels + 1) ⟨offset, cs⟩ =
      match Piece.chain? ⟨offset, cs⟩ with
      | some chain => readChain (readPiece unknowns levels) chain
      | none =>
        match Piece.call? ⟨offset, cs⟩ with
        | some (name, inside) => readCall (readPiece unknowns levels) offset name inside
        | none => readValue unknowns ⟨offset, cs⟩ := by
  obtain ⟨groups, hgroups⟩ := h.balanced.groupsFrom_ok offset
  have hne : ¬cs.isEmpty = true := by simpa using h.ne_nil
  rw [readPiece, hunwrap]
  change (if cs.isEmpty = true then _ else (groupsFrom none offset cs).mapError _ >>= _) = _
  rw [if_neg hne, hgroups]
  rfl

/-- A chain of the lowest precedence of a text is read as the chain. -/
theorem ReadsChain.reads {k : Nat} {op : Operator} {cs : List Char} {e : Expression Float}
    (hcs : Phrase cs) (hop : op ∈ operatorsIn none cs)
    (hmin : ∀ op' ∈ operatorsIn none cs, op.precedence ≤ op'.precedence)
    (h : ReadsChain unknowns k op.precedence cs e) : Reads unknowns k cs e := by
  intro offset levels hlevels
  obtain ⟨levels, rfl⟩ : ∃ j, levels = j + 1 := ⟨levels - 1, by omega⟩
  obtain ⟨first, link, links, hsplit, hchain⟩ := h offset levels (Nat.le_of_lt_succ hlevels)
  have hunwrap := hcs.balanced.unwrap_eq_self (List.ne_nil_of_mem hop) offset
  have hlowest : lowestPrecedence? (markOperators none 0 cs) = some op.precedence :=
    lowestPrecedence?_eq_some_iff.2 ⟨⟨op, hop, rfl⟩, hmin⟩
  have hfound : Piece.chain? ⟨offset, cs⟩ = some ⟨⟨offset, first⟩, link, links⟩ := by
    simp [Piece.chain?, hlowest, hsplit]
  rw [hcs.readPiece_eq hunwrap, hfound]
  exact hchain

/-- An operator after a phrase, with an operand that shows only tighter ones, is the last link. -/
theorem Phrase.splitAtPrecedence_append_symbol {cs ds : List Char} {op : Operator} (h : Phrase cs)
    (hds : ∀ op' ∈ operatorsIn (some op.symbol) ds, op.precedence < op'.precedence)
    (offset : Nat) :
    splitAtPrecedence op.precedence offset (markOperators none 0 (cs ++ op.symbol :: ds)) =
      ((splitAtPrecedence op.precedence offset (markOperators none 0 cs)).1,
        (splitAtPrecedence op.precedence offset (markOperators none 0 cs)).2 ++
          [⟨op, offset + cs.length, ⟨offset + cs.length + 1, ds⟩⟩]) := by
  have hne := op.symbol_ne_parenthesis
  have haccepted : (Operator.ofSymbol? op.symbol).filter (accepts cs.getLast?) = some op := by
    rw [Operator.ofSymbol?_symbol]
    simp [Option.filter, accepts_of_endsOperand h.ends]
  have hlength : (markOperators none 0 cs).length = cs.length := by
    rw [← List.length_map, markOperators_map_fst]
  rw [markOperators_append, h.balanced.foldl_nestingAfter, Option.or_none, markOperators,
    if_pos rfl, haccepted, nestingAfter_of_ne hne.1 hne.2,
    splitAtPrecedence_append rfl fun op' hop' => Nat.ne_of_gt (hds op' hop'),
    markOperators_map_fst, hlength]

/-- The last link of a chain joins its operand to what is read off the chain before it. -/
theorem readChain_append (read : Piece → Except PieceFailure (Expression Float)) (first : Piece)
    (link last : Link) (links : List Link) :
    readChain read ⟨first, link, links ++ [last]⟩ = (do
      let left ← readChain read ⟨first, link, links⟩
      let right ← readOperand read last.operand
      last.join (some left) right) := by
  simp [readChain, List.foldlM_append, bind_assoc]

/-- An operand that is there is read, and one that is not is absent. -/
theorem readOperand_of_reads {k levels : Nat} (right : Option (List Char × Expression Float))
    (h : ∀ r ∈ right, r.1 ≠ [] ∧ Reads unknowns k r.1 r.2) (hlevels : k < levels) (offset : Nat) :
    readOperand (readPiece unknowns levels) ⟨offset, (right.map (·.1)).getD []⟩ =
      .ok (right.map (·.2)) := by
  cases right with
  | none => rfl
  | some r =>
    obtain ⟨hne, hreads⟩ := h r rfl
    have hread := hreads offset levels hlevels
    simp [readOperand, hne, hread, Except.map]

/-- A link joins what was read before it with its right operand. -/
theorem Link.join_of_reads {k levels : Nat} {link : Link}
    {right : Option (List Char × Expression Float)}
    (hop : link.operator.needsRight = right.isSome)
    (hchars : link.operand.chars = (right.map (·.1)).getD [])
    (h : ∀ r ∈ right, r.1 ≠ [] ∧ Reads unknowns k r.1 r.2) (hlevels : k < levels)
    (left : Expression Float) :
    (do
      let operand ← readOperand (readPiece unknowns levels) link.operand
      link.join (some left) operand) =
      .ok (.operation link.operator (some left) (right.map (·.2))) := by
  have hread := readOperand_of_reads right h hlevels link.operand.offset
  rw [← hchars] at hread
  rw [hread]
  exact Link.join_eq_ok_iff.2 ⟨rfl, nofun, by simpa using hop⟩

/-- A minus sign before an operand is read as a subtraction from nothing. -/
theorem ReadsChain.negation {k : Nat} {cs : List Char} {e : Expression Float} (hne : cs ≠ [])
    (hcs : ∀ op ∈ operatorsIn (some '-') cs, Operator.sub.precedence < op.precedence)
    (h : Reads unknowns k cs e) :
    ReadsChain unknowns (k + 1) Operator.sub.precedence ('-' :: cs)
      (.operation .sub none (some e)) := by
  intro offset levels hlevels
  have hmarks : markOperators none 0 ('-' :: cs) =
      [] ++ ('-', some .sub) :: markOperators (some '-') 0 cs := rfl
  have hread := readOperand_of_reads (some (cs, e)) (by simpa using ⟨hne, h⟩) hlevels (offset + 1)
  have hjoin : Link.join ⟨.sub, offset, ⟨offset + 1, cs⟩⟩ none (some e) =
      .ok (.operation .sub none (some e)) := Link.join_eq_ok_iff.2 ⟨rfl, fun _ => rfl, rfl⟩
  refine ⟨[], ⟨.sub, offset, ⟨offset + 1, cs⟩⟩, [], ?_, ?_⟩
  · rw [hmarks, splitAtPrecedence_append rfl fun op hop => Nat.ne_of_gt (hcs op hop),
      markOperators_map_fst]
    rfl
  · have habsent : readOperand (readPiece unknowns levels) ⟨offset, []⟩ = .ok none := rfl
    simp only [Option.map_some, Option.getD_some] at hread
    simp only [readChain, habsent, hread, hjoin, bind, Except.bind]
    rfl

/-- An operator after a tighter operand starts a chain. -/
theorem ReadsChain.start {k : Nat} {op : Operator} {cs : List Char} {left : Expression Float}
    {right : Option (List Char × Expression Float)} (hop : op.needsRight = right.isSome)
    (hcs : Phrase cs) (htighter : ∀ op' ∈ operatorsIn none cs, op.precedence < op'.precedence)
    (hds : ∀ op' ∈ operatorsIn (some op.symbol) ((right.map (·.1)).getD []),
      op.precedence < op'.precedence)
    (hleft : Reads unknowns k cs left)
    (hright : ∀ r ∈ right, r.1 ≠ [] ∧ Reads unknowns k r.1 r.2) :
    ReadsChain unknowns (k + 1) op.precedence (cs ++ op.symbol :: (right.map (·.1)).getD [])
      (.operation op (some left) (right.map (·.2))) := by
  intro offset levels hlevels
  have hfirst := splitAtPrecedence_eq_self (markOperators none 0 cs)
    (fun op' hop' => Nat.ne_of_gt (htighter op' hop')) offset
  have hreadLeft := readOperand_of_reads (some (cs, left))
    (by simpa using ⟨hcs.ne_nil, hleft⟩) hlevels offset
  let link : Link := ⟨op, offset + cs.length, ⟨offset + cs.length + 1, (right.map (·.1)).getD []⟩⟩
  have hjoin := link.join_of_reads hop rfl hright hlevels left
  refine ⟨cs, link, [], ?_, ?_⟩
  · rw [hcs.splitAtPrecedence_append_symbol hds, hfirst, markOperators_map_fst]
    rfl
  · simp only [Option.map_some, Option.getD_some] at hreadLeft
    simp only [readChain, hreadLeft, List.foldlM_nil, bind_pure]
    exact hjoin

/-- A further operator adds a link to a chain. -/
theorem ReadsChain.extend {k : Nat} {op : Operator} {cs : List Char} {left : Expression Float}
    {right : Option (List Char × Expression Float)} (hop : op.needsRight = right.isSome)
    (hcs : Phrase cs)
    (hds : ∀ op' ∈ operatorsIn (some op.symbol) ((right.map (·.1)).getD []),
      op.precedence < op'.precedence)
    (hleft : ReadsChain unknowns (k + 1) op.precedence cs left)
    (hright : ∀ r ∈ right, r.1 ≠ [] ∧ Reads unknowns k r.1 r.2) :
    ReadsChain unknowns (k + 1) op.precedence (cs ++ op.symbol :: (right.map (·.1)).getD [])
      (.operation op (some left) (right.map (·.2))) := by
  intro offset levels hlevels
  obtain ⟨first, link, links, hsplit, hchain⟩ := hleft offset levels hlevels
  let last : Link := ⟨op, offset + cs.length, ⟨offset + cs.length + 1, (right.map (·.1)).getD []⟩⟩
  have hjoin := last.join_of_reads hop rfl hright hlevels left
  refine ⟨first, link, links ++ [last], ?_, ?_⟩
  · rw [hcs.splitAtPrecedence_append_symbol hds, hsplit]
    rfl
  · rw [readChain_append, hchain]
    exact hjoin

/-- A piece without operators outside parentheses is no chain. -/
theorem Piece.chain?_eq_none {p : Piece} (h : operatorsIn none p.chars = []) :
    p.chain? = none := by
  have hlowest := lowestPrecedence?_eq_none_iff.2 h
  simp [Piece.chain?, hlowest]

/-- The text of a leaf is read as its value. -/
theorem Leaf.readValue_eq_ok (hunknowns : ∀ c ∈ unknowns, isUnknownSymbol c = true)
    {cs : List Char} {e : Expression Float} (h : Leaf unknowns cs e) (offset : Nat) :
    readValue unknowns ⟨offset, cs⟩ = .ok e := by
  cases h with
  | pi => rfl
  | euler => rfl
  | @unknown c hc =>
    have hne : c ≠ 'e' := by
      rintro rfl
      exact absurd (hunknowns _ hc) (by decide +kernel)
    simp [readValue, hc]
  | @literal _ d h =>
    have hletter := h.isLetter_eq_false
    have hread : readValue.literal ⟨offset, cs⟩ = .ok (.constant d.toFloat) := by
      simp [readValue.literal, readLiteral?, Decimal.readLiteral?_of_literal h]
    have hno (c : Char) (hc : Text.isLetter c = true) : c ∉ cs := by
      intro hmem
      rw [hletter c hmem] at hc
      cases hc
    have hpi : cs ≠ ['p', 'i'] := by
      rintro rfl
      exact hno 'p' (by decide +kernel) (by simp)
    have heuler : cs ≠ ['e'] := by
      rintro rfl
      exact hno 'e' (by decide +kernel) (by simp)
    have hunknown (c : Char) (hcs : cs = [c]) : c ∉ unknowns := by
      rintro hc
      subst hcs
      exact hno c (Bool.and_eq_true_iff.1 (hunknowns c hc)).1 (by simp)
    rw [readValue, if_neg hpi]
    split
    · next hchars => exact absurd hchars heuler
    · next c _ hchars =>
      rw [if_neg (by simpa using hunknown c hchars), hread]
    · exact hread

/-- No group is found in a text without parentheses. -/
theorem firstGroup_eq_none {cs : List Char} (h : ∀ c ∈ cs, c ≠ '(' ∧ c ≠ ')') (offset : Nat) :
    firstGroup offset cs = .ok none := by
  obtain ⟨found, hfound⟩ := (Balanced.of_forall h).firstGroup_ok offset
  cases found with
  | none => exact hfound
  | some g => exact absurd rfl (h '(' (by simp [firstGroup_eq hfound])).1

/-- The text of a leaf is read as the leaf. -/
theorem Leaf.reads (hunknowns : ∀ c ∈ unknowns, isUnknownSymbol c = true) {cs : List Char}
    {e : Expression Float} (h : Leaf unknowns cs e) (k : Nat) : Reads unknowns k cs e := by
  intro offset levels hlevels
  obtain ⟨levels, rfl⟩ : ∃ j, levels = j + 1 := ⟨levels - 1, by omega⟩
  have hphrase := h.phrase hunknowns
  have hfirst : firstGroup offset cs = .ok none := by
    obtain ⟨ds, hcs, -, hplain⟩ := h.isPlain_or_eq hunknowns
    have hds (c : Char) (hc : c ∈ ds) : c ≠ '(' ∧ c ≠ ')' := by
      obtain ⟨hopen, hclose, -, -⟩ := isPlain_iff.1 (hplain c hc)
      exact ⟨hopen, hclose⟩
    refine firstGroup_eq_none (fun c hc => ?_) offset
    rcases hcs with rfl | rfl
    · exact hds c hc
    · rcases List.mem_cons.1 hc with rfl | hc
      · decide
      · exact hds c hc
  have hunwrap : Piece.unwrap ⟨offset, cs⟩ = .ok ⟨offset, cs⟩ :=
    Piece.unwrap_eq_self hfirst (by simp)
  have hchain : Piece.chain? ⟨offset, cs⟩ = none :=
    Piece.chain?_eq_none (h.operatorsIn_eq_nil hunknowns rfl)
  have hcall : Piece.call? ⟨offset, cs⟩ = none := by
    simp [Piece.call?, hfirst]
  rw [hphrase.readPiece_eq hunwrap, hchain, hcall]
  exact h.readValue_eq_ok hunknowns offset

/-- Phrases with commas between them are split at these commas. -/
theorem splitCommas_intercalate {part : List Char} {parts : List (List Char)}
    (h : ∀ p ∈ part :: parts, Phrase p) :
    splitCommas 0 ([','].intercalate (part :: parts)) = (part, parts) := by
  induction parts generalizing part with
  | nil =>
    have hpart := (h part (by simp)).commas []
    simpa [List.intercalate, splitCommas] using hpart
  | cons next parts ih =>
    have hrest := ih fun p hp => h p (List.mem_cons_of_mem part hp)
    have hcomma (cs : List Char) :
        splitCommas 0 (',' :: cs) = ([], (splitCommas 0 cs).1 :: (splitCommas 0 cs).2) := by
      simp [splitCommas, nestingAfter]
    rw [List.intercalate_cons_cons, List.append_assoc, (h part (by simp)).commas,
      List.singleton_append, hcomma, hrest, List.append_nil]

/-- Parts that are not empty are not refused. -/
theorem refuseEmptyParts_ok {part : List Char} {parts : List (List Char)}
    (h : ∀ p ∈ part :: parts, p ≠ []) (offset : Nat) :
    ∃ pieces, refuseEmptyParts offset part parts = .ok pieces := by
  induction parts generalizing offset part with
  | nil => exact ⟨_, rfl⟩
  | cons next parts ih =>
    obtain ⟨pieces, hpieces⟩ := ih (fun p hp => h p (List.mem_cons_of_mem part hp))
      (offset + part.length + 1)
    have hpart : part ≠ [] := h part (by simp)
    have hnext : next ≠ [] := h next (by simp)
    simp [refuseEmptyParts, hpart, hnext, hpieces]

/-- The parameters of a call are the phrases between the commas. -/
theorem Piece.parameters_of_phrase {p : Piece} {parts : List (List Char)} (hne : parts ≠ [])
    (h : ∀ part ∈ parts, Phrase part) (hchars : p.chars = [','].intercalate parts) :
    ∃ pieces, p.parameters = .ok pieces ∧ pieces.map (·.chars) = parts := by
  cases parts with
  | nil => exact absurd rfl hne
  | cons part parts =>
    obtain ⟨pieces, hpieces⟩ := refuseEmptyParts_ok (fun p hp => (h p hp).ne_nil) p.offset
    have hbalanced : Balanced p.chars :=
      hchars ▸ .intercalate fun part hpart => (h part hpart).balanced
    obtain ⟨groups, hgroups⟩ := hbalanced.groupsFrom_ok p.offset
    have hempty : p.chars ≠ [] := by
      intro hnil
      have hlength : part.length ≤ ([','].intercalate (part :: parts)).length :=
        length_le_length_intercalate (by simp)
      rw [← hchars, hnil] at hlength
      exact (h part (by simp)).ne_nil (List.length_eq_zero_iff.1 (Nat.le_zero.1 hlength))
    have hsplit := splitCommas_intercalate h
    rw [← hchars] at hsplit
    refine ⟨pieces, ?_, refuseEmptyParts_eq_ok hpieces⟩
    simp [Piece.parameters, hempty, Piece.groups, hgroups, hsplit, hpieces]

/-- Every argument is read off its piece. -/
theorem mapM_of_reads {k levels : Nat} {args : List (List Char × Expression Float)}
    (h : ∀ arg ∈ args, Reads unknowns k arg.1 arg.2) (hlevels : k < levels) {pieces : List Piece}
    (hpieces : pieces.map (·.chars) = args.map (·.1)) :
    pieces.mapM (readPiece unknowns levels) = .ok (args.map (·.2)) := by
  induction args generalizing pieces with
  | nil =>
    obtain rfl := List.map_eq_nil_iff.1 hpieces
    rfl
  | cons arg args ih =>
    obtain ⟨⟨offset, cs⟩, pieces, rfl, rfl, htail⟩ := List.map_eq_cons_iff.1 hpieces
    have hread : readPiece unknowns levels ⟨offset, arg.1⟩ = .ok arg.2 :=
      h arg (by simp) offset levels hlevels
    rw [List.mapM_cons, hread, ih (fun a ha => h a (by simp [ha])) htail]
    rfl

/-- A name with a balanced group after it is a call, and no group itself. -/
theorem NamedFunction.firstGroup_eq (f : NamedFunction) {inside : List Char}
    (h : Balanced inside) (offset : Nat) :
    firstGroup offset (f.name.toList ++ '(' :: (inside ++ [')'])) =
      .ok (some ⟨f.name.toList, inside, []⟩) := by
  refine h.firstGroup_eq_some f.name.toList (fun c hc => ?_) offset []
  obtain ⟨hopen, hclose, -, -⟩ := isPlain_iff.1 (f.isPlain_of_mem_name c hc)
  exact ⟨hopen, hclose⟩

/-- The name and the parameters of a call are found. -/
theorem NamedFunction.call?_eq_some (f : NamedFunction) {inside : List Char}
    (h : Balanced inside) (offset : Nat) :
    ∃ offset', Piece.call? ⟨offset, f.name.toList ++ '(' :: (inside ++ [')'])⟩ =
      some (f.name, ⟨offset', inside⟩) := by
  have hgroup := f.firstGroup_eq h offset
  obtain ⟨c, cs, hname⟩ := List.exists_cons_of_ne_nil f.phrase_name.ne_nil
  have hofList : String.ofList (c :: cs) = f.name := by rw [← hname, String.ofList_toList]
  rw [hname] at hgroup
  refine ⟨offset + cs.length + 2, ?_⟩
  simp only [Piece.call?, hname, hgroup, hofList]

/-- A call is read with its arguments. -/
theorem Reads.call {k : Nat} {f : NamedFunction} {args : List (List Char × Expression Float)}
    (hne : args ≠ []) (hphrase : ∀ arg ∈ args, Phrase arg.1)
    (h : ∀ arg ∈ args, Reads unknowns k arg.1 arg.2) :
    Reads unknowns (k + 1)
      (f.name.toList ++ '(' :: ([','].intercalate (args.map (·.1)) ++ [')']))
      (.call f (args.map (·.2))) := by
  intro offset levels hlevels
  obtain ⟨levels, rfl⟩ : ∃ j, levels = j + 1 := ⟨levels - 1, by omega⟩
  have hparts : ∀ part ∈ args.map (·.1), Phrase part := by
    intro part hpart
    obtain ⟨arg, harg, rfl⟩ := List.mem_map.1 hpart
    exact hphrase arg harg
  have hinside : Balanced ([','].intercalate (args.map (·.1))) :=
    .intercalate_args fun arg harg => (hphrase arg harg).balanced
  have hunwrap := Piece.unwrap_eq_self (p := ⟨offset, _⟩) (f.firstGroup_eq hinside offset)
    (by simp [f.phrase_name.ne_nil])
  obtain ⟨offset', hcall⟩ := f.call?_eq_some hinside offset
  obtain ⟨pieces, hparameters, hpieces⟩ := Piece.parameters_of_phrase
    (p := ⟨offset', [','].intercalate (args.map (·.1))⟩) (by simpa using hne) hparts rfl
  have hargs := mapM_of_reads h (Nat.lt_of_succ_lt_succ hlevels) hpieces
  rw [(f.phrase_name.append (.parenthesized hinside)).readPiece_eq hunwrap,
    Piece.chain?_eq_none (f.operatorsIn_call none hinside), hcall]
  simp only [readCall, NamedFunction.ofName?_eq_some_iff.2 rfl, hparameters, Except.mapError, bind,
    Except.bind, hargs]

/-- What a form is read as by a parser with more levels than a number. -/
def Form.Reads (unknowns : List Char) (k : Nat) : Form → List Char → Expression Float → Prop
  | of _ => Calculator.Reads unknowns k
  | joined level => ReadsChain unknowns k level.precedence

/-- The operators of an operand bind more tightly than the operator before it. -/
theorem Derives.lt_of_mem_operatorsIn (hunknowns : ∀ c ∈ unknowns, isUnknownSymbol c = true)
    {op : Operator} {right : Option (List Char × Expression Float)}
    (hop : op.needsRight = right.isSome)
    (hright : ∀ r ∈ right, Derives unknowns (.operand op.level) r.1 r.2) :
    ∀ op' ∈ operatorsIn (some op.symbol) ((right.map (·.1)).getD []),
      op.precedence < op'.precedence := by
  cases right with
  | none => simp [operatorsIn, markOperators]
  | some r =>
    have hends : endsOperand (some op.symbol) = false := by
      rw [Operator.endsOperand_symbol, Operator.isPostfix, hop]
      rfl
    have hadmits := (hright r rfl).admits hunknowns _ hends (by simp)
    rwa [← op.precedence_level]

/-- A joined chain shows an operator of its level. -/
theorem Nests.exists_operator (hunknowns : ∀ c ∈ unknowns, isUnknownSymbol c = true) {k : Nat}
    {level : Level} {cs : List Char} {e : Expression Float}
    (h : Nests unknowns k (.joined level) cs e) : ∃ op ∈ operatorsIn none cs, op.level = level := by
  cases h with
  | negation => exact ⟨.sub, sub_mem_operatorsIn _, rfl⟩
  | start _ hleft _ => exact ⟨_, hleft.derives.mem_operatorsIn_append hunknowns _ _ _, rfl⟩
  | extend _ hleft _ => exact ⟨_, hleft.derives.mem_operatorsIn_append hunknowns _ _ _, rfl⟩

/-- A minus sign before an operand is read as a chain if the operand is read. -/
theorem Derives.readsChain_negation (hunknowns : ∀ c ∈ unknowns, isUnknownSymbol c = true)
    {k : Nat} {level : Level} {cs : List Char} {e : Expression Float}
    (h : Derives unknowns (.operand level) cs e) (hreads : Reads unknowns k cs e) :
    ReadsChain unknowns (k + 1) Operator.sub.precedence ('-' :: cs)
      (.operation .sub none (some e)) := by
  have hadmits := h.admits hunknowns (some '-') rfl (by simp)
  exact .negation (h.phrase hunknowns).ne_nil (fun op hop => Nat.zero_lt_of_lt (hadmits op hop))
    hreads

/-- A derived text is read by a parser that may go down more levels than the derivation nests. -/
theorem Nests.reads (hunknowns : ∀ c ∈ unknowns, isUnknownSymbol c = true) {k : Nat} {form : Form}
    {cs : List Char} {e : Expression Float} (h : Nests unknowns k form cs e) :
    form.Reads unknowns k cs e := by
  have hoperand {op : Operator} {k : Nat} {right : Option (List Char × Expression Float)}
      (hright : ∀ r ∈ right, Nests unknowns k (.of (.operand op.level)) r.1 r.2)
      (ih : ∀ r ∈ right, Calculator.Reads unknowns k r.1 r.2) :
      ∀ r ∈ right, r.1 ≠ [] ∧ Calculator.Reads unknowns k r.1 r.2 :=
    fun r hr => ⟨((hright r hr).derives.phrase hunknowns).ne_nil, ih r hr⟩
  induction h with
  | leaf h => exact h.reads hunknowns _
  | group h ih => exact .group (h.derives.phrase hunknowns).balanced ih
  | call hne h ih => exact .call hne (fun arg harg => (h arg harg).derives.phrase hunknowns) ih
  | tighter _ ih => exact ih
  | joined h ih =>
    obtain ⟨op, hop, rfl⟩ := h.exists_operator hunknowns
    have hadmits := h.derives.admits hunknowns none rfl (by simp [Form.nonterminal])
    rw [Form.Reads, op.precedence_level] at ih
    refine ih.reads (h.derives.phrase hunknowns) hop fun op' hop' => ?_
    exact op.precedence_level ▸ hadmits op' hop'
  | negation h ih => exact h.derives.readsChain_negation hunknowns ih
  | @start k op cs left right hop hleft hright ihleft ihright =>
    have hadmits := hleft.derives.admits hunknowns none rfl
      (fun _ => op.level.tighter_ne_operand)
    have htighter (op') (hop' : op' ∈ operatorsIn none cs) : op.precedence < op'.precedence :=
      op.precedence_level ▸ Level.lt_of_admits_tighter (hadmits op' hop')
    have hds := Derives.lt_of_mem_operatorsIn hunknowns hop fun r hr => (hright r hr).derives
    rw [Form.Reads, op.precedence_level]
    exact .start hop (hleft.derives.phrase hunknowns) htighter hds ihleft (hoperand hright ihright)
  | @extend k op cs left right hop hleft hright ihleft ihright =>
    have hds := Derives.lt_of_mem_operatorsIn hunknowns hop fun r hr => (hright r hr).derives
    rw [Form.Reads, op.precedence_level] at ihleft ⊢
    exact .extend hop (hleft.derives.phrase hunknowns) hds ihleft (hoperand hright ihright)
  | plain _ ih => exact ih
  | negated h ih =>
    have hchain := h.derives.readsChain_negation hunknowns ih
    exact hchain.reads ((h.derives.phrase hunknowns).symbol_cons .sub)
      (sub_mem_operatorsIn _) (fun op _ => Nat.zero_le _)

end Calculator
