import Calculator.Proofs.Evaluation.Depth
import Calculator.Proofs.Syntax.Blanks
import Calculator.Proofs.Syntax.Exactness
import Calculator.Settings.Basic

/-!
# Height of parsed expressions

Each level of a parsed expression stems from an operator or from the parentheses of a call, so a
text with few of them is never too deep. The nesting limit of the parser bounds no height: a chain
is one level of nesting, however long it is, and its tree has a level for every operator.
-/

namespace Calculator

open Text (stripBlanks)

/-- Whether a character may put a level into the tree of its text. -/
def opensLevel (c : Char) : Bool :=
  (Operator.ofSymbol? c).isSome || c == '('

/-- Every operator may put a level into the tree. -/
theorem Operator.opensLevel_symbol (op : Operator) : opensLevel op.symbol = true := by
  cases op <;> rfl

/-- A leaf is one level. -/
theorem Leaf.height_eq_zero {unknowns cs : List Char} {e : Expression Float}
    (h : Leaf unknowns cs e) : e.height = 0 := by
  cases h <;> rfl

/-- The tree of a derived text has no more levels below its root than the text has operators and
opening parentheses. -/
theorem Derives.height_le {unknowns : List Char} {n : Nonterminal} {cs : List Char}
    {e : Expression Float} (h : Derives unknowns n cs e) : e.height ≤ cs.countP opensLevel := by
  have hsymbol (op : Operator) (ds : List Char) :
      (op.symbol :: ds).countP opensLevel = ds.countP opensLevel + 1 :=
    List.countP_cons_of_pos op.opensLevel_symbol
  have hopen (ds : List Char) : ('(' :: ds).countP opensLevel = ds.countP opensLevel + 1 :=
    List.countP_cons_of_pos rfl
  have hminus (ds : List Char) : ('-' :: ds).countP opensLevel = ds.countP opensLevel + 1 :=
    List.countP_cons_of_pos rfl
  have hfactorial : ['!'].countP opensLevel = 1 := rfl
  induction h with
  | leaf h => exact h.height_eq_zero ▸ Nat.zero_le _
  | group _ ih =>
    rw [hopen, List.countP_append]
    omega
  | @call f args _ _ ih =>
    rw [Expression.height, Expression.heightOfArgs_le_iff]
    intro e he
    obtain ⟨arg, harg, rfl⟩ := List.mem_map.1 he
    have hle := ih arg harg
    have hpart : arg.1.countP opensLevel ≤
        ([','].intercalate (args.map (·.1))).countP opensLevel :=
      (sublist_intercalate (List.mem_map_of_mem harg)).countP_le
    rw [List.countP_append, hopen, List.countP_append]
    omega
  | tighter _ ih => exact ih
  | negation _ ih =>
    rw [hminus]
    simp only [Expression.height, Expression.heightOfOperand]
    omega
  | binary _ _ _ ihleft ihright =>
    rw [List.countP_append, hsymbol]
    simp only [Expression.height, Expression.heightOfOperand]
    omega
  | factorial _ ih =>
    rw [List.countP_append, hfactorial]
    simp only [Expression.height, Expression.heightOfOperand]
    omega
  | plain _ ih => exact ih
  | negated _ ih =>
    rw [hminus]
    simp only [Expression.height, Expression.heightOfOperand]
    omega

/-- What is parsed has no more levels below its root than the text has operators and opening
parentheses. -/
theorem height_le_of_parse {unknowns : List Char} {limit : Nat} {text : String}
    {e : Expression Float} (h : parse unknowns limit text = .ok e) :
    e.height ≤ (stripBlanks text.toList).countP opensLevel :=
  (derives_of_readPiece (isUnknownSymbol_of_parse h) (readPiece_of_parse h)).height_le

/-- A parsed expression is simplified, and neither evaluated nor compiled too deep, exactly if it is
no higher than the depth limit. So it is if its text has no more operators and opening parentheses
than that. -/
theorem ne_tooDeep_iff_of_parse {unknowns : List Char} {limit : Nat} {text : String}
    {e : Expression Float} (h : parse unknowns limit text = .ok e) :
    (((∃ s, e.simplify = .ok s) ∧ (∀ b, e.evaluate b ≠ .error .tooDeep) ∧
      ∀ order, e.compile order ≠ .error .tooDeep) ↔ e.height ≤ depthLimit) ∧
      ((stripBlanks text.toList).countP opensLevel ≤ depthLimit → e.height ≤ depthLimit) :=
  ⟨Expression.ne_tooDeep_iff, (height_le_of_parse h).trans⟩

/-- A negated sum in parentheses is neither evaluated nor compiled too deep. -/
theorem ne_tooDeep_negatedSum :
    ∃ e, parse ['x'] 512 "-(x + 2)" = .ok e ∧ (∃ s, e.simplify = .ok s) ∧
      (∀ b, e.evaluate b ≠ .error .tooDeep) ∧ ∀ order, e.compile order ≠ .error .tooDeep := by
  have hparse : parse ['x'] 512 "-(x + 2)" = .ok (.operation .sub none
      (some (.operation .add (some (.unknown 'x')) (some (.constant 2))))) := by
    with_unfolding_all rfl
  obtain ⟨hiff, hroom⟩ := ne_tooDeep_iff_of_parse hparse
  exact ⟨_, hparse, hiff.2 (hroom (by decide +kernel))⟩

section Chains

/-- An expression joined to itself by an operator, `n` times. -/
def repeated (op : Operator) (e : Expression Float) : Nat → Expression Float
  | 0 => e
  | n + 1 => .operation op (some (repeated op e n)) (some e)

/-- A text joined to itself by an operator, `n` times. -/
def repeatedText (op : Operator) (cs : List Char) : Nat → List Char
  | 0 => cs
  | n + 1 => repeatedText op cs n ++ op.symbol :: cs

variable (op : Operator) {e : Expression Float}

/-- A chain has a level for each of its operators. -/
theorem height_repeated (n : Nat) : (repeated op e n).height = n + e.height := by
  induction n with
  | zero => rw [repeated, Nat.zero_add]
  | succ n ih =>
    simp only [repeated, Expression.height, Expression.heightOfOperand, ih]
    omega

/-- A chain of leaves is one level of nesting, however long it is. -/
theorem Leaf.nests_repeated {op : Operator} {unknowns cs : List Char} (h : Leaf unknowns cs e)
    (hop : op.needsRight = true) (n : Nat) :
    Nests unknowns 1 (.joined op.level) (repeatedText op cs (n + 1)) (repeated op e (n + 1)) := by
  have hfirst : Nests unknowns 0 (.of op.level.tighter) cs e :=
    (Nests.lifts unknowns 0 cs e).tighter_of_atom (.leaf h) op.level
  have hright : ∀ r ∈ some (cs, e), Nests unknowns 0 (.of (.operand op.level)) r.1 r.2 := by
    rintro _ ⟨⟩
    exact .plain hfirst
  induction n with
  | zero => exact .start hop hfirst hright
  | succ n ih => exact .extend hop ih hright

/-- Evaluation goes down a chain from its last operator to its first one, and fails for depth if
there are too many. -/
theorem evaluateAt_repeated {b : Assignment Float} {depth n : Nat} (h : depthLimit < depth + n) :
    (repeated op e n).evaluateAt b depth = .error .tooDeep := by
  induction n generalizing depth with
  | zero =>
    rw [Expression.evaluateAt.eq_def]
    exact if_pos h
  | succ n ih =>
    have hbelow : (repeated op e n).evaluateAt b (depth + 1) = .error .tooDeep := ih (by omega)
    rw [repeated, Expression.evaluateAt, Expression.evaluateOperand, hbelow]
    split <;> rfl

/-- Compilation goes down a chain from its last operator to its first one, and fails for depth if
there are too many. -/
theorem compileAt_repeated {order : List Char} {depth n : Nat} (h : depthLimit < depth + n) :
    (repeated op e n).compileAt order depth = .error .tooDeep := by
  induction n generalizing depth with
  | zero =>
    rw [Expression.compileAt.eq_def]
    exact if_pos h
  | succ n ih =>
    have hbelow : (repeated op e n).compileAt order (depth + 1) = .error .tooDeep := ih (by omega)
    rw [repeated, Expression.compileAt, Expression.compileOperand, hbelow]
    split <;> rfl

/-- A chain of leaves is parsed with every nesting limit but zero. With more operators than the
depth limit it is then neither simplified nor evaluated nor compiled. -/
theorem parse_repeated {op : Operator} {unknowns cs : List Char}
    (hunknowns : ∀ c ∈ unknowns, isUnknownSymbol c = true) (h : Leaf unknowns cs e)
    (hop : op.needsRight = true) {limit n : Nat} (hlimit : 0 < limit) (hn : depthLimit < n) :
    parse unknowns limit (String.ofList (repeatedText op cs n)) = .ok (repeated op e n) ∧
      (repeated op e n).simplify = .error .tooDeep ∧
      (∀ b, (repeated op e n).evaluate b = .error .tooDeep) ∧
      ∀ order, (repeated op e n).compile order = .error .tooDeep := by
  have hdepth : depthLimit < 0 + n := by omega
  have hparse : parse unknowns limit (String.ofList (repeatedText op cs n)) =
      .ok (repeated op e n) := by
    obtain ⟨m, rfl⟩ : ∃ m, n = m + 1 := ⟨n - 1, by omega⟩
    have hnests := (h.nests_repeated hop m).mono hlimit
    have hderives := hnests.derives
    have hlevel : Nests unknowns limit (.of (.chain .sum)) (repeatedText op cs (m + 1))
        (repeated op e (m + 1)) :=
      (Nests.lifts unknowns limit _ _).chain (.joined hnests) (Nat.zero_le _)
    apply parse_of_nests hunknowns
    rwa [String.toList_ofList, hderives.stripBlanks_eq hunknowns]
  have hsimplify : (repeated op e n).simplify = .error .tooDeep := by
    refine Expression.simplifyAt_eq_error_iff.2 ⟨rfl, ?_⟩
    rw [height_repeated]
    omega
  exact ⟨hparse, hsimplify, fun _ => evaluateAt_repeated op hdepth,
    fun _ => compileAt_repeated op hdepth⟩

/-- With the settings that nothing else is set in, the sum of 1026 ones is parsed, but it is too
deep for everything else. -/
theorem parse_ones_tooDeep :
    ({} : Settings).validate = .ok {} ∧
      parse ({} : Settings).unknowns ({} : Settings).nestingLimit
        (String.ofList (repeatedText .add ['1'] 1025)) = .ok (repeated .add (.constant 1) 1025) ∧
      (repeated .add (.constant 1) 1025).simplify = .error .tooDeep ∧
      (repeated .add (.constant 1) 1025).evaluate .empty = .error .tooDeep ∧
      (repeated .add (.constant 1) 1025).compile [] = .error .tooDeep := by
  have hvalue : (⟨false, Decimal.valueOf ['1'], 0⟩ : Decimal).toFloat = 1 := by decide +kernel
  have hone : Leaf [] ['1'] (.constant 1) :=
    hvalue ▸ .literal (.plain (.whole (by simp) (by simp)))
  obtain ⟨hparse, hsimplify, hevaluate, hcompile⟩ :=
    @parse_repeated _ .add [] ['1'] (by simp) hone rfl defaultNestingLimit 1025 (by decide)
      (by decide)
  exact ⟨rfl, hparse, hsimplify, hevaluate _, hcompile _⟩

end Chains

end Calculator
