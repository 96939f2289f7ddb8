import Calculator.Proofs.Expression.Packed
import Calculator.Proofs.Printing.RoundTrip
import Calculator.Proofs.Simplification.Folding

/-!
# Printing loses nothing that simplification sees

The texts of an expression are parsed to the expression with trees in place of its polynomials.
Simplification folds these trees back, so what was parsed simplifies as the expression does.
-/

namespace Calculator

open Text (stripBlanks)

variable {unknowns : List Char} {e s : Expression Float}

namespace Expression

/-- An expression whose coefficients and exponents are finite. -/
def Finite (e : Expression Float) : Prop :=
  ∀ p, Occurs (value p) e → p.Finite

section Graft

variable {tree : Polynomial Float Float → Expression Float} {depth : Nat}

/-- With trees in place of its polynomials that fold back into them, an expression is simplified
to what it is simplified to without them. -/
theorem simplifyAt_of_graft (htree : ∀ p, Occurs (value p) e → (tree p).SimplifiesTo (value p))
    (h : (e.graft tree).simplifyAt depth = .ok s) : e.simplifyAt depth = .ok s := by
  have hdepth := le_of_simplifyAt h
  induction e generalizing depth s with
  | value p =>
    obtain rfl := htree p .here depth s h
    exact simplifyAt_value hdepth p
  | call f args ih =>
    rw [graft, graftArgs_eq_map] at h
    obtain ⟨simplified, hargs, rfl⟩ := (simplifyAt_call_eq_ok_iff hdepth).1 h
    refine (simplifyAt_call_eq_ok_iff hdepth).2 ⟨simplified, ?_, rfl⟩
    rw [simplifyArgs_eq_ok_iff, List.forall₂_map_left_iff] at hargs
    have hboth := (List.forall₂_and_left (p := (· ∈ args)) args simplified).2 ⟨fun _ => id, hargs⟩
    refine simplifyArgs_eq_ok_iff.2 (hboth.imp fun a s hs => ?_)
    exact ih a hs.1 (fun p hp => htree p (.arg hs.1 hp)) hs.2 (le_of_simplifyAt hs.2)
  | operation op left right ihleft ihright =>
    rw [graft, graftOperand_eq_map, graftOperand_eq_map] at h
    obtain ⟨l, hl, r, hr, rfl⟩ := (simplifyAt_operation_eq_ok_iff hdepth).1 h
    refine (simplifyAt_operation_eq_ok_iff hdepth).2 ⟨l, ?_, r, ?_, rfl⟩
    · cases left with
      | none => exact hl
      | some a =>
        obtain ⟨s, hs, rfl⟩ := simplifyOperand_some_eq_ok_iff.1 hl
        exact simplifyOperand_some_eq_ok_iff.2
          ⟨s, ihleft a rfl (fun p hp => htree p (.left hp)) hs (le_of_simplifyAt hs), rfl⟩
    · cases right with
      | none => exact hr
      | some a =>
        obtain ⟨s, hs, rfl⟩ := simplifyOperand_some_eq_ok_iff.1 hr
        exact simplifyOperand_some_eq_ok_iff.2
          ⟨s, ihright a rfl (fun p hp => htree p (.right hp)) hs (le_of_simplifyAt hs), rfl⟩

end Graft

end Expression

/-- What is parsed is packed. -/
theorem packedIn_of_parse {limit : Nat} {text : String} (h : parse unknowns limit text = .ok e) :
    e.PackedIn unknowns := by
  have hderived := derives_of_readPiece (isUnknownSymbol_of_parse h) (readPiece_of_parse h)
  refine ⟨hderived.wellFormed, fun p hp => ?_⟩
  obtain ⟨cs, hleaf⟩ := hderived.exists_leaf hp
  generalize hq : Expression.value p = q at hleaf
  cases hleaf with
  | unknown hc =>
    obtain rfl := Expression.value.inj hq
    exact Polynomial.packedIn_unknown hc
  | _ =>
    obtain rfl := Expression.value.inj hq
    exact Polynomial.packedIn_constant _

/-- Both texts of a well-formed expression with packed and finite polynomials are parsed with
every limit that is no less than their length, to an expression that simplifies as the first one
does, unless that reaches below the depth limit. What was simplified before is found again. -/
theorem exists_parse_simplify_eq (hunknowns : ∀ c ∈ unknowns, isUnknownSymbol c = true)
    (hpacked : e.PackedIn unknowns) (hfinite : e.Finite) {cs : List Char}
    (hcs : cs = e.text ∨ cs = e.fullText) {limit : Nat} (hlimit : cs.length ≤ limit) :
    ∃ e', parse unknowns limit (String.ofList cs) = .ok e' ∧
      (e'.simplify ≠ .error .tooDeep → e'.simplify = e.simplify ∧
        ∀ t : Expression Float, t.simplify = .ok e → e'.simplify = .ok e) := by
  have hleaves (p) (hp : Expression.Occurs (.value p) e) :
      Shows unknowns 4 p.precedence? (stripBlanks p.text) p.tree := by
    have hmonomials := (hpacked.polynomials p hp).monomials
    have hshown := shows_polynomial (hfinite p hp) fun m hm => (hmonomials m hm).symbols
    rwa [hshown.stripBlanks_eq hunknowns]
  have hderives : Derives unknowns (.chain .sum) (stripBlanks cs) (e.graft Polynomial.tree) := by
    obtain rfl | rfl := hcs
    · exact (shows_text hpacked.wellFormed hleaves).nests.derives
    · exact (derives_fullText hpacked.wellFormed hleaves).expression_of_atom
  have hfolds (p) (hp : Expression.Occurs (.value p) e) : p.tree.SimplifiesTo (.value p) :=
    (hpacked.polynomials p hp).simplifiesTo_tree
  refine ⟨e.graft Polynomial.tree, parse_of_derives hunknowns hderives hlimit, fun hdeep => ?_⟩
  have hsame : (e.graft Polynomial.tree).simplify = e.simplify := by
    cases hgraft : (e.graft Polynomial.tree).simplify with
    | error err =>
      obtain rfl := Expression.eq_tooDeep_of_simplifyAt hgraft
      exact absurd hgraft hdeep
    | ok s => exact (Expression.simplifyAt_of_graft hfolds hgraft).symm
  exact ⟨hsame, fun t ht => hsame.trans (Expression.simplifyAt_simplified ht)⟩

/-- A power of a sum that has a negative monomial with a negative exponent. -/
def powerOfSum : Expression Float :=
  .operation .pow (some (.value ⟨[⟨-2, [('x', -1)]⟩, ⟨3, []⟩]⟩)) (some (.unknown 'x'))

/-- The power of the sum is parsed from its short text to an expression that simplifies alike. -/
theorem exists_parse_powerOfSum :
    ∃ e', parse ['x'] 13 "(-2*x^-1+3)^x" = .ok e' ∧
      (e'.simplify ≠ .error .tooDeep → e'.simplify = powerOfSum.simplify) := by
  have hunknowns : ∀ c ∈ ['x'], isUnknownSymbol c = true := by
    intro c hc
    obtain rfl := List.mem_singleton.1 hc
    decide +kernel
  have hsum : Polynomial.PackedIn ['x'] ⟨[⟨-2, [('x', -1)]⟩, ⟨3, []⟩]⟩ := by
    refine ⟨?_, by decide +kernel, by unfold Polynomial.Distinct; decide +kernel, by decide +kernel⟩
    refine List.forall_mem_cons.2 ⟨⟨⟨List.pairwise_singleton _ _, by decide +kernel⟩, by simp⟩, ?_⟩
    exact List.forall_mem_singleton.2 ⟨⟨.nil, nofun⟩, nofun⟩
  have hpacked : powerOfSum.PackedIn ['x'] := by
    refine Expression.packedIn_operation rfl ?_ ?_
    · rintro _ ⟨⟩
      exact Expression.packedIn_value hsum
    · rintro _ ⟨⟩
      exact Expression.packedIn_value (Polynomial.packedIn_unknown (by simp))
  have hfinite : powerOfSum.Finite := by
    intro p hp
    obtain rfl | rfl : p = ⟨[⟨-2, [('x', -1)]⟩, ⟨3, []⟩]⟩ ∨ p = .unknown 'x' := by
      simpa [powerOfSum, Expression.unknown] using hp
    · refine List.forall_mem_cons.2 ⟨⟨by decide +kernel, by decide +kernel⟩, ?_⟩
      exact List.forall_mem_singleton.2 ⟨by decide +kernel, nofun⟩
    · rw [Polynomial.unknown_eq]
      exact List.forall_mem_singleton.2 ⟨by decide +kernel, by decide +kernel⟩
  have htext : "(-2*x^-1+3)^x".toList = powerOfSum.text := by decide +kernel
  obtain ⟨e', hparse, hsimplify⟩ :=
    exists_parse_simplify_eq hunknowns hpacked hfinite (.inl htext) (Nat.le_refl 13)
  rw [String.ofList_toList] at hparse
  exact ⟨e', hparse, fun hdeep => (hsimplify hdeep).1⟩

end Calculator
