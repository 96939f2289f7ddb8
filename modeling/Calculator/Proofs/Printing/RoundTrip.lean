import Calculator.Proofs.Printing.Leaves
import Calculator.Proofs.Syntax.Exactness

/-!
# Parsed expressions print back

The texts of an expression that was parsed are parsed to that expression again. The short text
needs no more levels than the text that the expression was read from.
-/

namespace Calculator

open Text (stripBlanks)

variable {unknowns : List Char} {n : Nonterminal} {cs : List Char} {e : Expression Float}

/-- A derived tree is well formed. -/
theorem Derives.wellFormed (h : Derives unknowns n cs e) : e.WellFormed := by
  have hnegation {e : Expression Float} (he : e.WellFormed) :
      (Expression.operation .sub none (some e)).WellFormed := by
    refine Expression.wellFormed_operation rfl nofun ?_
    rintro _ ⟨⟩
    exact he
  induction h with
  | leaf h => cases h <;> exact Expression.wellFormed_value _
  | group _ ih => exact ih
  | @call f args hne _ ih =>
    refine Expression.wellFormed_call (by simpa using hne) fun a ha => ?_
    obtain ⟨arg, harg, rfl⟩ := List.mem_map.1 ha
    exact ih arg harg
  | tighter _ ih => exact ih
  | negation _ ih => exact hnegation ih
  | @binary op _ _ left right hop _ _ ihleft ihright =>
    refine Expression.wellFormed_operation ?_ ?_ ?_
    · exact Expression.operation?_eq_ok_iff.2 ⟨rfl, nofun, hop⟩
    · rintro _ ⟨⟩
      exact ihleft
    · rintro _ ⟨⟩
      exact ihright
  | factorial _ ih =>
    refine Expression.wellFormed_operation rfl ?_ nofun
    rintro _ ⟨⟩
    exact ih
  | plain _ ih => exact ih
  | negated _ ih => exact hnegation ih

/-- Every polynomial of a derived tree was derived as a leaf. -/
theorem Derives.exists_leaf (h : Derives unknowns n cs e) {p : Polynomial Float Float}
    (hp : Expression.Occurs (.value p) e) : ∃ cs', Leaf unknowns cs' (.value p) := by
  induction h with
  | @leaf cs e h =>
    obtain ⟨q, rfl⟩ : ∃ q, e = .value q := by cases h <;> exact ⟨_, rfl⟩
    obtain rfl := Expression.value.inj (Expression.occurs_value_iff.1 hp)
    exact ⟨cs, h⟩
  | group _ ih => exact ih hp
  | call _ _ ih =>
    obtain heq | ⟨a, ha, hp⟩ := Expression.occurs_call_iff.1 hp
    · cases heq
    · obtain ⟨arg, harg, rfl⟩ := List.mem_map.1 ha
      exact ih arg harg hp
  | tighter _ ih => exact ih hp
  | negation _ ih => exact ih (by simpa using hp)
  | binary _ _ _ ihleft ihright =>
    obtain hp | hp : Expression.Occurs (.value p) _ ∨ Expression.Occurs (.value p) _ := by
      simpa using hp
    · exact ihleft hp
    · exact ihright hp
  | factorial _ ih => exact ih (by simpa using hp)
  | plain _ ih => exact ih hp
  | negated _ ih => exact ih (by simpa using hp)

/-- A leaf is shown as itself, unless it is an infinite constant. -/
theorem shows_leaf {p : Polynomial Float Float} (h : Leaf unknowns cs (.value p))
    (hfinite : ∀ x, Expression.value p = .constant x → x.isFinite = true) {k : Nat} :
    Shows unknowns k p.precedence? p.text (.value p) := by
  generalize he : Expression.value p = e at h hfinite ⊢
  have hconstant {x : Float} (hx : e = .constant x) (hsign : Binary64.isNegative x = false) :
      Shows unknowns k p.precedence? p.text e := by
    obtain rfl := Expression.value.inj (he.trans hx)
    rw [hx]
    exact shows_constant (hfinite x hx) hsign
  cases h with
  | pi => exact hconstant rfl (by decide +kernel)
  | euler => exact hconstant rfl (by decide +kernel)
  | unknown hc =>
    obtain rfl := Expression.value.inj he
    exact shows_unknown hc
  | literal h => exact hconstant rfl h.isNegative_toFloat

/-- What is parsed is parsed from its short text with the same limit, and from its full text with
every limit that is no less than the length of that text. -/
theorem parse_text_of_parse {limit : Nat} {text : String}
    (h : parse unknowns limit text = .ok e)
    (hfinite : ∀ x, Expression.Occurs (.constant x) e → x.isFinite = true) :
    parse unknowns limit (String.ofList e.text) = .ok e ∧
      ∀ limit', e.fullText.length ≤ limit' →
        parse unknowns limit' (String.ofList e.fullText) = .ok e := by
  have hunknowns := isUnknownSymbol_of_parse h
  have hread := readPiece_of_parse h
  have hderived := derives_of_readPiece hunknowns hread
  have hleaves (p) (hp : Expression.Occurs (.value p) e) :
      Shows unknowns 0 p.precedence? (stripBlanks p.text) (.value p) := by
    obtain ⟨cs', hleaf⟩ := hderived.exists_leaf hp
    have hshown : Shows unknowns 0 p.precedence? p.text (.value p) :=
      shows_leaf hleaf fun x hx => hfinite x (hx ▸ hp)
    rwa [hshown.stripBlanks_eq hunknowns]
  have hshown := shows_text hderived.wellFormed hleaves
  have hfull := derives_fullText hderived.wellFormed hleaves
  rw [Expression.graft_value] at hshown hfull
  constructor
  · have hnesting := nesting_lt_of_readPiece hread
    apply parse_of_nests hunknowns
    rw [String.toList_ofList]
    exact hshown.nests.mono (Nat.le_of_lt_succ hnesting)
  · intro limit' hlimit
    exact parse_of_derives hunknowns hfull.expression_of_atom hlimit

/-- The factorial of pi taken off an unknown. -/
def unknownLessFactorial : Expression Float :=
  .operation .sub (some (.unknown 'x')) (some (.operation .factorial (some (.constant pi)) none))

/-- The difference is parsed from its texts, with parentheses that it does not need and without
them. -/
theorem parse_text_unknownLessFactorial :
    parse ['x'] 2 "(x) - (pi)!" = .ok unknownLessFactorial ∧
      parse ['x'] 2 (String.ofList unknownLessFactorial.text) = .ok unknownLessFactorial ∧
      parse ['x'] 99 (String.ofList unknownLessFactorial.fullText) = .ok unknownLessFactorial := by
  have hunknowns : ∀ c ∈ ['x'], isUnknownSymbol c = true := by
    intro c hc
    obtain rfl := List.mem_singleton.1 hc
    decide +kernel
  have hgroup {cs : List Char} {e : Expression Float} (h : Leaf ['x'] cs e) (level : Level) :
      Nests ['x'] 0 (.of level.tighter) ('(' :: (cs ++ [')'])) e :=
    (Nests.lifts ['x'] 0 _ e).tighter_of_atom
      (.group (.tighter ((Nests.lifts ['x'] 0 cs e).tighter_of_atom (.leaf h) .sum))) level
  have hfactorial : Nests ['x'] 1 (.of (.chain .residue)) ['(', 'p', 'i', ')', '!']
      (.operation .factorial (some (.constant pi)) none) :=
    .joined (@Nests.start _ 0 .factorial _ _ none rfl (hgroup .pi .residue) nofun)
  have hright : Nests ['x'] 1 (.of (.operand .sum)) ['(', 'p', 'i', ')', '!']
      (.operation .factorial (some (.constant pi)) none) :=
    .plain ((Nests.lifts ['x'] 1 _ _).tighter hfactorial (by decide))
  have hleft := (hgroup (.unknown (by simp : 'x' ∈ ['x'])) .sum).mono (Nat.zero_le 1)
  have hdifference : Nests ['x'] 2 (.joined .sum) (Text.stripBlanks "(x) - (pi)!".toList)
      unknownLessFactorial :=
    @Nests.start _ 1 .sub _ _ (some (_, _)) rfl hleft (by rintro _ ⟨⟩; exact hright)
  have hparse := parse_of_nests hunknowns (.joined hdifference)
  obtain ⟨htext, hfull⟩ := parse_text_of_parse hparse fun x hx => by
    obtain hx | hx :
        Expression.constant x = .unknown 'x' ∨ Expression.constant x = .constant pi := by
      simpa [unknownLessFactorial, Expression.constant, Expression.unknown] using hx
    · exact Polynomial.isFinite_of_constant_eq (Expression.value.inj hx) (by decide +kernel)
    · exact Polynomial.isFinite_of_constant_eq (Expression.value.inj hx) (by decide +kernel)
  exact ⟨hparse, htext, hfull 99 (by decide +kernel)⟩

end Calculator
