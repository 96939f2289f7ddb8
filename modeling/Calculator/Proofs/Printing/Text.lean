import Calculator.Proofs.Printing.Nesting
import Calculator.Proofs.Syntax.Blanks

/-!
# The texts of an expression are derived

Both texts of an expression are in the grammar, once the blanks after commas are dropped. Where
the short text leaves out parentheses, the operand shows an operator that binds tightly enough.
-/

namespace Calculator

open Text (stripBlanks)

/-- A text that nests at most a number of levels and shows an operator of the given precedence
outside parentheses, or none. -/
inductive Shows (unknowns : List Char) (k : Nat) :
    Option Nat → List Char → Expression Float → Prop
  | atom {cs : List Char} {e : Expression Float} (h : Nests unknowns k (.of .atom) cs e) :
    Shows unknowns k none cs e
  | joined {level : Level} {cs : List Char} {e : Expression Float}
    (h : Nests unknowns k (.joined level) cs e) : Shows unknowns k (some level.precedence) cs e

namespace Shows

variable {unknowns : List Char} {k : Nat} {precedence : Option Nat} {cs : List Char}
  {e tree : Expression Float}

/-- What is shown is an expression. -/
theorem nests (h : Shows unknowns k precedence cs e) :
    Nests unknowns k (.of (.chain .sum)) cs e := by
  cases h with
  | atom h => exact .tighter ((Nests.lifts unknowns k cs e).tighter_of_atom h .sum)
  | joined h => exact (Nests.lifts unknowns k cs e).chain (.joined h) (Nat.zero_le _)

/-- A larger bound holds as well. -/
theorem mono (h : Shows unknowns k precedence cs e) {k' : Nat} (hle : k ≤ k') :
    Shows unknowns k' precedence cs e := by
  cases h with
  | atom h => exact .atom (h.mono hle)
  | joined h => exact .joined (h.mono hle)

/-- What is shown with a tighter operator, or with none, may be the first operand of a chain. -/
theorem tighter (h : Shows unknowns k precedence cs e) {level : Level}
    (hlt : ∀ p ∈ precedence, level.precedence < p) : Nests unknowns k (.of level.tighter) cs e := by
  cases h with
  | atom h => exact (Nests.lifts _ _ _ _).tighter_of_atom h level
  | joined h => exact (Nests.lifts _ _ _ _).tighter (.joined h) (hlt _ rfl)

/-- What is shown with the precedence of an operator is a chain of its level. -/
theorem joined_of_level {op : Operator} (h : Shows unknowns k (some op.precedence) cs e) :
    Nests unknowns k (.joined op.level) cs e := by
  generalize hp : op.precedence = p at h
  cases h with
  | joined h =>
    rw [← op.precedence_level] at hp
    rwa [Level.eq_of_precedence_eq hp]

/-- In parentheses every expression is a value. -/
theorem parenthesized (h : Shows unknowns k precedence cs e) :
    Nests unknowns k (.of .atom) (Calculator.parenthesized cs) e :=
  .group h.nests

/-- Parentheses are no blanks. -/
theorem stripBlanks_parenthesized (cs : List Char) :
    stripBlanks (Calculator.parenthesized cs) = Calculator.parenthesized (stripBlanks cs) := by
  have hopen : stripBlanks ('(' :: (cs ++ [')'])) = '(' :: stripBlanks (cs ++ [')']) :=
    Text.stripBlanks_cons rfl _
  have hclose : stripBlanks [')'] = [')'] := rfl
  unfold Calculator.parenthesized
  rw [List.cons_append, hopen, Text.stripBlanks_append, hclose]
  rfl

/-- The text of a left operand continues the chain of its operator, or binds more tightly. -/
theorem leftText (op : Operator)
    (h : Shows unknowns k e.precedence? (stripBlanks e.text) tree) :
    (e.precedence? = some op.precedence ∧
      Nests unknowns k (.joined op.level) (stripBlanks (Expression.leftText op (some e))) tree) ∨
    (e.precedence? ≠ some op.precedence ∧
      Nests unknowns k (.of op.level.tighter)
        (stripBlanks (Expression.leftText op (some e))) tree) := by
  rw [Expression.leftText, Expression.needsParenthesesLeft]
  generalize e.precedence? = precedence at h ⊢
  have hgroup := (Nests.lifts _ _ _ _).tighter_of_atom h.parenthesized op.level
  rw [← stripBlanks_parenthesized] at hgroup
  cases precedence with
  | none => exact .inr ⟨nofun, h.tighter (by simp)⟩
  | some p =>
    obtain hlt | rfl | hgt := Nat.lt_trichotomy p op.precedence
    · rw [if_pos (decide_eq_true hlt)]
      exact .inr ⟨by simpa using Nat.ne_of_lt hlt, hgroup⟩
    · rw [if_neg (by simp)]
      exact .inl ⟨rfl, h.joined_of_level⟩
    · rw [if_neg (by simpa using Nat.le_of_lt hgt)]
      exact .inr ⟨by simpa using Nat.ne_of_gt hgt, h.tighter (by simpa using hgt)⟩

/-- The text of a right operand binds more tightly than its operator. -/
theorem rightText (op : Operator)
    (h : Shows unknowns k e.precedence? (stripBlanks e.text) tree) :
    Nests unknowns k (.of (.operand op.level))
      (stripBlanks (Expression.rightText op (some e))) tree := by
  rw [Expression.rightText, Expression.needsParenthesesRight]
  generalize e.precedence? = precedence at h ⊢
  have hgroup := (Nests.lifts _ _ _ _).tighter_of_atom h.parenthesized op.level
  rw [← stripBlanks_parenthesized] at hgroup
  cases precedence with
  | none => exact .plain (h.tighter (by simp))
  | some p =>
    by_cases hle : p ≤ op.precedence
    · rw [if_pos (decide_eq_true hle)]
      exact .plain hgroup
    · rw [if_neg (by simpa using hle)]
      exact .plain (h.tighter (by simpa using Nat.lt_of_not_le hle))

end Shows

/-- Texts that are written one after the other, with a comma and a blank before each later one,
are the texts with that separator between them. -/
theorem append_eq_intercalate {α : Type} {text : α → List Char} {later : List α → List Char}
    (hnil : later [] = []) (hcons : ∀ a as, later (a :: as) = ',' :: ' ' :: (text a ++ later as))
    (a : α) (as : List α) :
    text a ++ later as = [',', ' '].intercalate ((a :: as).map text) := by
  induction as generalizing a with
  | nil => simp [hnil]
  | cons next as ih =>
    rw [hcons, ih next]
    simp only [List.map_cons, List.intercalate_cons_cons, List.append_assoc, List.cons_append,
      List.nil_append]

namespace Expression

/-- The short texts of arguments stand with a comma and a blank between them. -/
theorem argsText_eq_intercalate (args : List (Expression Float)) :
    argsText args = [',', ' '].intercalate (args.map text) := by
  cases args with
  | nil => rfl
  | cons e es =>
    rw [argsText]
    exact append_eq_intercalate (by rfl) (fun _ _ => by rfl) e es

/-- The full texts of arguments stand with a comma and a blank between them. -/
theorem fullArgsText_eq_intercalate (args : List (Expression Float)) :
    fullArgsText args = [',', ' '].intercalate (args.map fullText) := by
  cases args with
  | nil => rfl
  | cons e es =>
    rw [fullArgsText]
    exact append_eq_intercalate (by rfl) (fun _ _ => by rfl) e es

end Expression

variable {unknowns : List Char} {leaf : Polynomial Float Float → Nat}
  {tree : Polynomial Float Float → Expression Float}

/-- The text of a call without blanks, as the grammar has it. -/
theorem stripBlanks_call (f : NamedFunction) (text : Expression Float → List Char)
    (args : List (Expression Float)) :
    stripBlanks (f.name.toList ++ parenthesized ([',', ' '].intercalate (args.map text))) =
      f.name.toList ++ '(' :: ([','].intercalate
        ((args.map fun a => (stripBlanks (text a), a.graft tree)).map (·.1)) ++ [')']) := by
  have hcomma : stripBlanks [',', ' '] = [','] := rfl
  rw [Text.stripBlanks_append, f.stripBlanks_name, Shows.stripBlanks_parenthesized,
    Text.stripBlanks_intercalate, hcomma, List.map_map, List.map_map]
  rfl

/-- The tree of a call, as the grammar has it. -/
theorem graft_call (f : NamedFunction) (text : Expression Float → List Char)
    (args : List (Expression Float)) :
    (Expression.call f args).graft tree =
      .call f ((args.map fun a => (stripBlanks (text a), a.graft tree)).map (·.2)) := by
  rw [Expression.graft, Expression.graftArgs_eq_map, List.map_map]
  rfl

/-- An operation is shown if its operands are. -/
theorem nests_operation {op : Operator} {left right : Option (Expression Float)}
    (hop : Expression.operation? op left right = .ok (.operation op left right))
    (hleft : ∀ e ∈ left,
      Shows unknowns (e.nesting leaf) e.precedence? (stripBlanks e.text) (e.graft tree))
    (hright : ∀ e ∈ right,
      Shows unknowns (e.nesting leaf) e.precedence? (stripBlanks e.text) (e.graft tree)) :
    Nests unknowns ((Expression.operation op left right).nesting leaf) (.joined op.level)
      (stripBlanks (Expression.operation op left right).text)
      ((Expression.operation op left right).graft tree) := by
  obtain ⟨-, habsent, hneeds⟩ := Expression.operation?_eq_ok_iff.1 hop
  -- The right operand as the grammar takes it, with room for one more level.
  let operand := right.map fun e => (stripBlanks (Expression.rightText op (some e)), e.graft tree)
  have hoperand {k : Nat} (hk : Expression.nestingOfRight leaf right ≤ k + 1) :
      ∀ r ∈ operand, Nests unknowns k (.of (.operand op.level)) r.1 r.2 := by
    intro r hr
    obtain ⟨e, he, rfl⟩ := Option.map_eq_some_iff.1 hr
    obtain rfl := he
    exact ((hright e rfl).rightText op).mono (Nat.le_of_succ_le_succ hk)
  have hneeds' : op.needsRight = operand.isSome := by rw [hneeds, Option.isSome_map]
  have htext : stripBlanks (Expression.operation op left right).text =
      stripBlanks (Expression.leftText op left) ++
        op.symbol :: (operand.map (·.1)).getD [] := by
    rw [Expression.text, Text.stripBlanks_append, Text.stripBlanks_cons op.isBlank_symbol]
    cases right <;> rfl
  have htree : (Expression.operation op left right).graft tree =
      .operation op (left.map (Expression.graft tree)) (operand.map (·.2)) := by
    rw [Expression.graft, Expression.graftOperand_eq_map, Expression.graftOperand_eq_map,
      Option.map_map]
    rfl
  rw [htext, htree, Expression.nesting]
  cases left with
  | none =>
    obtain rfl := Operator.eq_sub_of_needsLeft (habsent rfl)
    cases right with
    | none => cases hneeds
    | some r =>
      rw [Expression.nestingOfLeft, Nat.zero_max]
      exact .negation (hoperand (Nat.le_refl _) _ rfl)
  | some l =>
    obtain ⟨hsame, hl⟩ | ⟨hother, hl⟩ := (hleft l rfl).leftText op
    · have hpos := hl.pos_of_joined
      rw [Expression.nestingOfLeft, if_pos hsame]
      obtain ⟨k, hk⟩ : ∃ k, max (l.nesting leaf) (Expression.nestingOfRight leaf right) = k + 1 :=
        ⟨_, (Nat.succ_pred_eq_of_pos (Nat.lt_of_lt_of_le hpos (Nat.le_max_left _ _))).symm⟩
      rw [hk]
      exact .extend hneeds' (hl.mono (by omega)) (hoperand (by omega))
    · rw [Expression.nestingOfLeft, if_neg hother]
      obtain ⟨k, hk⟩ : ∃ k,
          max (l.nesting leaf + 1) (Expression.nestingOfRight leaf right) = k + 1 :=
        ⟨_, (Nat.succ_pred_eq_of_pos
          (Nat.lt_of_lt_of_le (Nat.succ_pos _) (Nat.le_max_left _ _))).symm⟩
      rw [hk]
      exact .start hneeds' (hl.mono (by omega)) (hoperand (by omega))

/-- The short text of a well-formed expression is shown with the precedence it claims, if the
texts of its leaves are. -/
theorem shows_text {e : Expression Float} (he : e.WellFormed)
    (hleaves : ∀ p, Expression.Occurs (.value p) e →
      Shows unknowns (leaf p) p.precedence? (stripBlanks p.text) (tree p)) :
    Shows unknowns (e.nesting leaf) e.precedence? (stripBlanks e.text) (e.graft tree) := by
  induction e with
  | value p => exact hleaves p .here
  | call f args ih =>
    rw [Expression.text, Expression.argsText_eq_intercalate]
    rw [stripBlanks_call, graft_call f Expression.text]
    refine .atom (.call (by simpa using he.arguments f args .here) fun arg harg => ?_)
    obtain ⟨a, ha, rfl⟩ := List.mem_map.1 harg
    have hshown := ih a ha (he.of_occurs fun _ => .arg ha) fun p hp => hleaves p (.arg ha hp)
    exact hshown.nests.mono (Expression.nesting_le_nestingOfArgs ha)
  | operation op left right ihleft ihright =>
    rw [Expression.precedence?, ← op.precedence_level]
    refine .joined (nests_operation (he.operands op left right .here) ?_ ?_)
    · rintro e ⟨⟩
      exact ihleft e rfl (he.of_occurs fun _ => .left) fun p hp => hleaves p (.left hp)
    · rintro e ⟨⟩
      exact ihright e rfl (he.of_occurs fun _ => .right) fun p hp => hleaves p (.right hp)

/-- The full text of an operation is derived as a value if those of its operands are. -/
theorem derives_operation {op : Operator} {left right : Option (Expression Float)}
    (hop : Expression.operation? op left right = .ok (.operation op left right))
    (hleft : ∀ a ∈ left, Derives unknowns .atom (stripBlanks a.fullText) (a.graft tree))
    (hright : ∀ a ∈ right, Derives unknowns .atom (stripBlanks a.fullText) (a.graft tree)) :
    Derives unknowns .atom (stripBlanks (Expression.operation op left right).fullText)
      ((Expression.operation op left right).graft tree) := by
  obtain ⟨-, habsent, hneeds⟩ := Expression.operation?_eq_ok_iff.1 hop
  rw [Expression.fullText, Shows.stripBlanks_parenthesized, Text.stripBlanks_append,
    Text.stripBlanks_cons op.isBlank_symbol]
  refine .group ?_
  cases left with
  | none =>
    obtain rfl := Operator.eq_sub_of_needsLeft (habsent rfl)
    cases right with
    | none => cases hneeds
    | some r => exact .negation (.plain ((hright r rfl).tighter_of_atom .sum))
  | some l =>
    have hchain : Derives unknowns (.chain op.level) (stripBlanks l.fullText) (l.graft tree) :=
      .tighter ((hleft l rfl).tighter_of_atom op.level)
    cases right with
    | none =>
      obtain rfl := Operator.eq_factorial_of_needsRight hneeds
      exact (Derives.factorial hchain).lift (Nat.zero_le _)
    | some r =>
      have hright := (hright r rfl).tighter_of_atom op.level
      exact (Derives.binary hneeds hchain (.plain hright)).lift (Nat.zero_le _)

/-- The full text of a well-formed expression is derived as a value, if the texts of its leaves
are shown with the precedence they claim. -/
theorem derives_fullText {e : Expression Float} (he : e.WellFormed)
    (hleaves : ∀ p, Expression.Occurs (.value p) e →
      Shows unknowns (leaf p) p.precedence? (stripBlanks p.text) (tree p)) :
    Derives unknowns .atom (stripBlanks e.fullText) (e.graft tree) := by
  induction e with
  | value p =>
    have hshown := hleaves p .here
    rw [Expression.fullText]
    split
    · rw [Shows.stripBlanks_parenthesized]
      exact hshown.parenthesized.derives
    · next hnone =>
      generalize p.precedence? = precedence at hshown hnone
      cases hshown with
      | atom h => exact h.derives
      | joined h => exact absurd rfl hnone
  | call f args ih =>
    rw [Expression.fullText, Expression.fullArgsText_eq_intercalate, stripBlanks_call,
      graft_call f Expression.fullText]
    refine .call (by simpa using he.arguments f args .here) fun arg harg => ?_
    obtain ⟨a, ha, rfl⟩ := List.mem_map.1 harg
    have hderived := ih a ha (he.of_occurs fun _ => .arg ha) fun p hp => hleaves p (.arg ha hp)
    exact hderived.expression_of_atom
  | operation op left right ihleft ihright =>
    refine derives_operation (he.operands op left right .here) ?_ ?_
    · rintro a ⟨⟩
      exact ihleft a rfl (he.of_occurs fun _ => .left) fun p hp => hleaves p (.left hp)
    · rintro a ⟨⟩
      exact ihright a rfl (he.of_occurs fun _ => .right) fun p hp => hleaves p (.right hp)

end Calculator
