import Calculator.Proofs.Printing.Leaves

/-!
# The texts of polynomials

The text of a monomial is read as a product of powers, which is negated if its coefficient has a
minus sign. The text of a polynomial is read as a chain of sums and differences of such products.
-/

namespace Calculator

open Binary64 (isNegative)

/-- A monomial whose coefficient and exponents are finite. -/
structure Monomial.Finite (m : Monomial Float Float) : Prop where
  coefficient : m.coefficient.isFinite = true
  exponents : ∀ p ∈ m.powers, p.2.isFinite = true

/-- A polynomial whose coefficients and exponents are finite. -/
def Polynomial.Finite (p : Polynomial Float Float) : Prop :=
  ∀ m ∈ p.monomials, m.Finite

namespace Expression

/-- The tree of a first operand with later ones joined to it from left to right, each of them by
its operator. -/
def chain {α : Type} (op : α → Operator) (tree : α → Expression Float) (first : Expression Float)
    (later : List α) : Expression Float :=
  later.foldl (fun e a => .operation (op a) (some e) (some (tree a))) first

/-- The tree of a number: a minus sign negates what follows. -/
def number (x : Float) : Expression Float :=
  if isNegative x then .operation .sub none (some (.constant (-x))) else .constant x

end Expression

namespace Monomial

/-- The tree of a power. -/
def powerTree (power : Char × Float) : Expression Float :=
  if power.2 == 1 then .unknown power.1
  else .operation .pow (some (.unknown power.1)) (some (.number power.2))

/-- The tree of a monomial whose coefficient has no minus sign. -/
def productTree (m : Monomial Float Float) : Expression Float :=
  match m.powers with
  | [] => .constant m.coefficient
  | p :: ps =>
    if m.coefficient == 1 then .chain (fun _ => .mul) powerTree (powerTree p) ps
    else .chain (fun _ => .mul) powerTree (.constant m.coefficient) (p :: ps)

/-- The monomial without the minus sign of its coefficient. -/
def magnitude (m : Monomial Float Float) : Monomial Float Float :=
  if isNegative m.coefficient then m.negate else m

/-- The operator by which a monomial is joined to a sum. -/
def sign (m : Monomial Float Float) : Operator :=
  if isNegative m.coefficient then .sub else .add

/-- The tree of a monomial. -/
def tree (m : Monomial Float Float) : Expression Float :=
  if isNegative m.coefficient then .operation .sub none (some m.magnitude.productTree)
  else m.productTree

end Monomial

/-- The tree of a polynomial. -/
def Polynomial.tree (p : Polynomial Float Float) : Expression Float :=
  match p.monomials with
  | [] => .value .zero
  | m :: ms => .chain Monomial.sign (fun n => n.magnitude.productTree) m.tree ms

variable {unknowns : List Char} {k : Nat} {cs : List Char} {e : Expression Float}

section Chain

variable {α : Type} {op : α → Operator} {tree : α → Expression Float} {text : α → List Char}
  {level : Level} {later : List α}

/-- Later operands lengthen a chain. -/
theorem nests_chain (hop : ∀ a ∈ later, (op a).level = level ∧ (op a).needsRight = true)
    (hlater : ∀ a ∈ later, Nests unknowns k (.of (.operand level)) (text a) (tree a))
    (h : Nests unknowns (k + 1) (.joined level) cs e) :
    Nests unknowns (k + 1) (.joined level)
      (cs ++ later.flatMap fun a => (op a).symbol :: text a) (.chain op tree e later) := by
  induction later generalizing cs e with
  | nil => simpa [Expression.chain] using h
  | cons a as ih =>
    obtain ⟨rfl, hneeds⟩ := hop a List.mem_cons_self
    have hnext := @Nests.extend _ _ _ _ _ (some (text a, tree a)) hneeds h
      (by simpa using hlater a List.mem_cons_self)
    have hall := ih (fun b hb => hop b (List.mem_cons_of_mem a hb))
      (fun b hb => hlater b (List.mem_cons_of_mem a hb)) hnext
    simpa [Expression.chain] using hall

/-- A first operand and at least one later one make a chain. -/
theorem nests_chain_cons {a : α}
    (hop : ∀ b ∈ a :: later, (op b).level = level ∧ (op b).needsRight = true)
    (hlater : ∀ b ∈ a :: later, Nests unknowns k (.of (.operand level)) (text b) (tree b))
    (h : Nests unknowns k (.of level.tighter) cs e) :
    Nests unknowns (k + 1) (.joined level)
      (cs ++ (a :: later).flatMap fun b => (op b).symbol :: text b)
      (.chain op tree e (a :: later)) := by
  obtain ⟨rfl, hneeds⟩ := hop a List.mem_cons_self
  have hstart := @Nests.start _ _ _ _ _ (some (text a, tree a)) hneeds h
    (by simpa using hlater a List.mem_cons_self)
  have hall := nests_chain (fun b hb => hop b (List.mem_cons_of_mem a hb))
    (fun b hb => hlater b (List.mem_cons_of_mem a hb)) hstart
  simpa [Expression.chain] using hall

end Chain

/-- The text of a finite double may be an operand of every chain. -/
theorem nests_number {x : Float} (hfinite : x.isFinite = true) (level : Level) :
    Nests unknowns (k + 1) (.of (.operand level)) (numberText x) (.number x) := by
  have hplain {k : Nat} {x : Float} (hfinite : x.isFinite = true) (hsign : isNegative x = false) :
      Nests unknowns k (.of (.operand level)) (numberText x) (.constant x) :=
    .plain ((shows_numberText hfinite hsign).tighter (by simp))
  unfold Expression.number
  split
  · next hsign =>
    rw [numberText_of_isNegative hfinite hsign]
    exact .negated (hplain (by rwa [Binary64.isFinite_neg]) (Binary64.isNegative_neg hsign))
  · next hsign => exact hplain hfinite (eq_false_of_ne_true hsign)

namespace Monomial

variable {m : Monomial Float Float}

/-- The text of a power shows a power, or no operator if the exponent is one. -/
theorem shows_power {power : Char × Float} (hsymbol : power.1 ∈ unknowns)
    (hfinite : power.2.isFinite = true) :
    Shows unknowns (k + 2) (if power.2 == 1 then none else some Operator.pow.precedence)
      (powerText power) (powerTree power) := by
  have hunknown {k : Nat} : Nests unknowns k (.of .atom) [power.1] (.unknown power.1) :=
    .leaf (.unknown hsymbol)
  unfold powerText powerTree
  split
  · exact .atom hunknown
  · have hbase := (Nests.lifts unknowns (k + 1) _ _).tighter_of_atom hunknown .power
    have hright : ∀ r ∈ some (numberText power.2, Expression.number power.2),
        Nests unknowns (k + 1) (.of (.operand .power)) r.1 r.2 := by
      rintro _ ⟨⟩
      exact nests_number hfinite .power
    exact .joined (@Nests.start _ _ .pow _ _ _ rfl hbase hright)

/-- The text of a power binds more tightly than a product. -/
theorem nests_power {power : Char × Float} (hsymbol : power.1 ∈ unknowns)
    (hfinite : power.2.isFinite = true) :
    Nests unknowns (k + 2) (.of Level.product.tighter) (powerText power) (powerTree power) := by
  refine (shows_power hsymbol hfinite).tighter fun p hp => ?_
  split at hp
  · cases hp
  · obtain rfl := Option.some.inj hp
    decide

/-- A coefficient without a minus sign is left out if it is one. -/
theorem coefficientText_of_not_isNegative {x : Float} (hsign : isNegative x = false) :
    coefficientText x = if x == 1 then [] else numberText x ++ ['*'] := by
  have hminus : (x == -1) = false := by
    by_contra h
    have hone : isNegative (-1) = true := by decide +kernel
    rw [Binary64.eq_neg_one_of_beq (eq_true_of_ne_false h), hone] at hsign
    cases hsign
  rw [coefficientText, hminus]
  rfl

/-- A coefficient with a minus sign shows it before its magnitude. -/
theorem coefficientText_of_isNegative {x : Float} (hfinite : x.isFinite = true)
    (hsign : isNegative x = true) : coefficientText x = '-' :: coefficientText (-x) := by
  rw [coefficientText_of_not_isNegative (Binary64.isNegative_neg hsign), coefficientText]
  cases hminus : x == -1 with
  | true =>
    have hone : ((- -1 : Float) == 1) = true := by decide +kernel
    rw [Binary64.eq_neg_one_of_beq hminus, hone]
    rfl
  | false =>
    have hone : (x == 1) = false := by
      by_contra h
      have hpositive : isNegative 1 = false := by decide +kernel
      rw [Binary64.eq_one_of_beq (eq_true_of_ne_false h), hpositive] at hsign
      cases hsign
    have hneg : (-x == 1) = false := by
      by_contra h
      have hself : ((-1 : Float) == -1) = true := by decide +kernel
      rw [← Binary64.neg_neg x, Binary64.eq_one_of_beq (eq_true_of_ne_false h), hself] at hminus
      cases hminus
    rw [hone, hneg, numberText_of_isNegative hfinite hsign]
    rfl

/-- A monomial with a minus sign shows it before its magnitude. -/
theorem text_of_isNegative (hfinite : m.coefficient.isFinite = true)
    (hsign : isNegative m.coefficient = true) : m.text = '-' :: m.negate.text := by
  have hpowers : m.negate.powers = m.powers := rfl
  have hcoefficient : m.negate.coefficient = -m.coefficient := rfl
  unfold text isConstant
  rw [hpowers, hcoefficient]
  split
  · exact numberText_of_isNegative hfinite hsign
  · rw [coefficientText_of_isNegative hfinite hsign]
    rfl

/-- The powers of a monomial stand with a sign of multiplication before each later one. -/
theorem intercalate_powerText (p : Char × Float) (ps : List (Char × Float)) :
    ['*'].intercalate ((p :: ps).map powerText) =
      powerText p ++ ps.flatMap fun q => '*' :: powerText q := by
  induction ps generalizing p with
  | nil => simp
  | cons q qs ih =>
    rw [List.map_cons, List.map_cons, List.intercalate_cons_cons, ← List.map_cons, ih]
    simp

/-- The text of a monomial without a minus sign, power by power. -/
theorem text_of_not_isNegative {x : Float} (hsign : isNegative x = false) (p : Char × Float)
    (ps : List (Char × Float)) :
    text ⟨x, p :: ps⟩ = (if x == 1 then [] else numberText x ++ ['*']) ++
      (powerText p ++ ps.flatMap fun q => '*' :: powerText q) := by
  rw [← coefficientText_of_not_isNegative hsign, ← intercalate_powerText]
  rfl

/-- The precedence that a monomial without a minus sign claims. -/
theorem precedence?_of_not_isNegative {x : Float} (hsign : isNegative x = false)
    (p : Char × Float) (ps : List (Char × Float)) :
    Polynomial.precedence? ⟨[⟨x, p :: ps⟩]⟩ =
      if x == 1 && ps.isEmpty then if p.2 == 1 then none else some Operator.pow.precedence
      else some Level.product.precedence := by
  cases ps <;> cases hone : x == 1 <;>
    simp [Polynomial.precedence?, hsign, hone, Level.precedence, Operator.precedence]

/-- The text of a monomial without a minus sign shows a product, unless there is one factor. -/
theorem shows_product (hfinite : m.Finite) (hsymbols : ∀ p ∈ m.powers, p.1 ∈ unknowns)
    (hsign : isNegative m.coefficient = false) :
    Shows unknowns 3 (Polynomial.precedence? ⟨[m]⟩) m.text m.productTree := by
  obtain ⟨x, powers⟩ := m
  have hpower : ∀ p ∈ powers,
      Nests unknowns 2 (.of Level.product.tighter) (powerText p) (powerTree p) :=
    fun p hp => nests_power (hsymbols p hp) (hfinite.exponents p hp)
  have hproduct (p : Char × Float) :
      Operator.mul.level = Level.product ∧ Operator.mul.needsRight = true := ⟨rfl, rfl⟩
  cases powers with
  | nil =>
    have hprecedence : Polynomial.precedence? ⟨[⟨x, []⟩]⟩ = none := by
      simpa [Polynomial.precedence?] using hsign
    rw [hprecedence]
    exact shows_numberText hfinite.coefficient hsign
  | cons p ps =>
    rw [text_of_not_isNegative hsign, precedence?_of_not_isNegative hsign, productTree]
    cases hone : x == 1 with
    | true =>
      cases ps with
      | nil =>
        simpa [Expression.chain] using @shows_power _ 1 p (hsymbols p List.mem_cons_self)
          (hfinite.exponents p List.mem_cons_self)
      | cons q qs =>
        exact .joined (nests_chain_cons (fun b _ => hproduct b)
          (fun b hb => .plain (hpower b (List.mem_cons_of_mem p hb)))
          (hpower p List.mem_cons_self))
    | false =>
      have hnumber : Nests unknowns 2 (.of Level.product.tighter) (numberText x) (.constant x) :=
        (shows_numberText hfinite.coefficient hsign).tighter (by simp)
      have hchain := nests_chain_cons (fun b _ => hproduct b) (fun b hb => .plain (hpower b hb))
        hnumber
      refine .joined ?_
      simpa [Operator.symbol] using hchain

/-- The magnitude of a finite monomial is finite and has no minus sign. -/
theorem finite_magnitude (hfinite : m.Finite) :
    m.magnitude.Finite ∧ isNegative m.magnitude.coefficient = false := by
  unfold magnitude
  split
  · next hsign =>
    have hcoefficient : m.negate.coefficient = -m.coefficient := rfl
    refine ⟨⟨?_, hfinite.exponents⟩, Binary64.isNegative_neg hsign⟩
    rw [hcoefficient, Binary64.isFinite_neg]
    exact hfinite.coefficient
  · next hsign => exact ⟨hfinite, eq_false_of_ne_true hsign⟩

/-- The magnitude of a monomial has the same powers. -/
theorem powers_magnitude (m : Monomial Float Float) : m.magnitude.powers = m.powers := by
  unfold magnitude
  split <;> rfl

/-- A monomial without a minus sign shows no operator of a sum. -/
theorem sum_lt_precedence (hsign : isNegative m.coefficient = false) :
    ∀ p ∈ Polynomial.precedence? ⟨[m]⟩, Level.sum.precedence < p := by
  intro p hp
  rw [Polynomial.precedence?] at hp
  simp only [hsign, Bool.false_eq_true, if_false] at hp
  split at hp
  · cases hp
  · split at hp
    · split at hp
      · cases hp
      · obtain rfl := Option.some.inj hp
        decide
    · obtain rfl := Option.some.inj hp
      decide
  · obtain rfl := Option.some.inj hp
    decide

/-- The magnitude of a finite monomial may be the first operand of a sum. -/
theorem nests_magnitude (hfinite : m.Finite) (hsymbols : ∀ p ∈ m.powers, p.1 ∈ unknowns) :
    Nests unknowns 3 (.of Level.sum.tighter) m.magnitude.text m.magnitude.productTree := by
  obtain ⟨hmagnitude, hsign⟩ := finite_magnitude hfinite
  have hshown := shows_product hmagnitude (m.powers_magnitude ▸ hsymbols) hsign
  exact hshown.tighter (sum_lt_precedence hsign)

/-- A monomial is joined by an operator of a sum. -/
theorem level_sign (m : Monomial Float Float) :
    m.sign.level = .sum ∧ m.sign.needsRight = true := by
  unfold sign
  split <;> exact ⟨rfl, rfl⟩

/-- The text of a later monomial is the operator that joins it and its magnitude. -/
theorem laterText_eq (hfinite : m.Finite) : m.laterText = m.sign.symbol :: m.magnitude.text := by
  unfold laterText sign magnitude
  split
  · next hsign => exact text_of_isNegative hfinite.coefficient hsign
  · rfl

/-- A monomial with a minus sign is a chain of the sum. -/
theorem nests_tree_of_isNegative (hfinite : m.Finite) (hsymbols : ∀ p ∈ m.powers, p.1 ∈ unknowns)
    (hsign : isNegative m.coefficient = true) :
    Nests unknowns 4 (.joined .sum) m.text m.tree := by
  have htext : m.text = '-' :: m.magnitude.text := by
    rw [magnitude, if_pos hsign]
    exact text_of_isNegative hfinite.coefficient hsign
  rw [htext, tree, if_pos hsign]
  exact .negation (.plain (nests_magnitude hfinite hsymbols))

/-- The text of a monomial shows what its polynomial claims. -/
theorem shows_text (hfinite : m.Finite) (hsymbols : ∀ p ∈ m.powers, p.1 ∈ unknowns) :
    Shows unknowns 4 (Polynomial.precedence? ⟨[m]⟩) m.text m.tree := by
  cases hsign : isNegative m.coefficient with
  | true =>
    have hprecedence : Polynomial.precedence? ⟨[m]⟩ = some Level.sum.precedence := by
      rw [Polynomial.precedence?]
      exact if_pos hsign
    rw [hprecedence]
    exact .joined (nests_tree_of_isNegative hfinite hsymbols hsign)
  | false =>
    have htree : m.tree = m.productTree := if_neg (ne_true_of_eq_false hsign)
    rw [htree]
    exact (shows_product hfinite hsymbols hsign).mono (Nat.le_succ 3)

end Monomial

/-- The texts of the monomials of a sum are a chain of sums and differences. -/
theorem nests_sum {m n : Monomial Float Float} {ns : List (Monomial Float Float)}
    (hfinite : ∀ a ∈ m :: n :: ns, a.Finite)
    (hsymbols : ∀ a ∈ m :: n :: ns, ∀ power ∈ a.powers, power.1 ∈ unknowns) :
    Nests unknowns 4 (.joined .sum) (m.text ++ (n :: ns).flatMap Monomial.laterText)
      (Polynomial.tree ⟨m :: n :: ns⟩) := by
  have htree : Polynomial.tree ⟨m :: n :: ns⟩ =
      .chain Monomial.sign (fun a => a.magnitude.productTree) m.tree (n :: ns) := rfl
  have hlaterText : (n :: ns).flatMap Monomial.laterText =
      (n :: ns).flatMap fun a => a.sign.symbol :: a.magnitude.text :=
    List.flatMap_congr fun a ha => Monomial.laterText_eq (hfinite a (List.mem_cons_of_mem m ha))
  have hlater : ∀ a ∈ n :: ns, Nests unknowns 3 (.of (.operand .sum)) a.magnitude.text
      a.magnitude.productTree := fun a ha =>
    .plain (Monomial.nests_magnitude (hfinite a (List.mem_cons_of_mem m ha))
      (hsymbols a (List.mem_cons_of_mem m ha)))
  have hm := hfinite m List.mem_cons_self
  have hmsymbols := hsymbols m List.mem_cons_self
  rw [htree, hlaterText]
  cases hsign : isNegative m.coefficient with
  | true =>
    exact nests_chain (fun a _ => a.level_sign) hlater
      (Monomial.nests_tree_of_isNegative hm hmsymbols hsign)
  | false =>
    have hmagnitude : m.magnitude = m := if_neg (ne_true_of_eq_false hsign)
    have hproduct : m.tree = m.productTree := if_neg (ne_true_of_eq_false hsign)
    have hfirst := Monomial.nests_magnitude hm hmsymbols
    rw [hmagnitude] at hfirst
    rw [hproduct]
    exact nests_chain_cons (fun a _ => a.level_sign) hlater hfirst

/-- The text of a polynomial shows what it claims. -/
theorem shows_polynomial {p : Polynomial Float Float} (hfinite : p.Finite)
    (hsymbols : ∀ m ∈ p.monomials, ∀ power ∈ m.powers, power.1 ∈ unknowns) :
    Shows unknowns 4 p.precedence? p.text p.tree := by
  obtain ⟨ms⟩ := p
  cases ms with
  | nil => exact shows_zero
  | cons m ms =>
    cases ms with
    | nil =>
      exact Monomial.shows_text (hfinite m List.mem_cons_self) (hsymbols m List.mem_cons_self)
    | cons n ns => exact .atom (.group (.joined (nests_sum hfinite hsymbols)))

end Calculator
