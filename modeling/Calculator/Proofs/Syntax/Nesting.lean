import Calculator.Proofs.Syntax.Derivation

/-!
# Nesting of derivations

A derivation nests as many levels as the parser goes down to read its text. Each operand of a
chain and each argument of a call is one level; parentheses, and further operators in one chain,
are none. The length of the text bounds the nesting of every derivation.
-/

namespace Calculator

/-- A nonterminal, or a chain that has an operator of its level. -/
inductive Form
  | of (n : Nonterminal)
  | joined (level : Level)

/-- The derivations that nest at most a number of levels. A chain is a level above its operands,
and stays there as it grows to the right. -/
inductive Nests (unknowns : List Char) : Nat → Form → List Char → Expression Float → Prop
  | leaf {k : Nat} {cs : List Char} {e : Expression Float} (h : Leaf unknowns cs e) :
    Nests unknowns k (.of .atom) cs e
  | group {k : Nat} {cs : List Char} {e : Expression Float}
    (h : Nests unknowns k (.of (.chain .sum)) cs e) :
    Nests unknowns k (.of .atom) ('(' :: (cs ++ [')'])) e
  | call {k : Nat} {f : NamedFunction} {args : List (List Char × Expression Float)}
    (hne : args ≠ [])
    (h : ∀ arg ∈ args, Nests unknowns k (.of (.chain .sum)) arg.1 arg.2) :
    Nests unknowns (k + 1) (.of .atom)
      (f.name.toList ++ '(' :: ([','].intercalate (args.map (·.1)) ++ [')']))
      (.call f (args.map (·.2)))
  | tighter {k : Nat} {level : Level} {cs : List Char} {e : Expression Float}
    (h : Nests unknowns k (.of level.tighter) cs e) : Nests unknowns k (.of (.chain level)) cs e
  | joined {k : Nat} {level : Level} {cs : List Char} {e : Expression Float}
    (h : Nests unknowns k (.joined level) cs e) : Nests unknowns k (.of (.chain level)) cs e
  | negation {k : Nat} {cs : List Char} {e : Expression Float}
    (h : Nests unknowns k (.of (.operand .sum)) cs e) :
    Nests unknowns (k + 1) (.joined .sum) ('-' :: cs) (.operation .sub none (some e))
  | start {k : Nat} {op : Operator} {cs : List Char} {left : Expression Float}
    {right : Option (List Char × Expression Float)} (hop : op.needsRight = right.isSome)
    (hleft : Nests unknowns k (.of op.level.tighter) cs left)
    (hright : ∀ r ∈ right, Nests unknowns k (.of (.operand op.level)) r.1 r.2) :
    Nests unknowns (k + 1) (.joined op.level) (cs ++ op.symbol :: (right.map (·.1)).getD [])
      (.operation op (some left) (right.map (·.2)))
  | extend {k : Nat} {op : Operator} {cs : List Char} {left : Expression Float}
    {right : Option (List Char × Expression Float)} (hop : op.needsRight = right.isSome)
    (hleft : Nests unknowns (k + 1) (.joined op.level) cs left)
    (hright : ∀ r ∈ right, Nests unknowns k (.of (.operand op.level)) r.1 r.2) :
    Nests unknowns (k + 1) (.joined op.level) (cs ++ op.symbol :: (right.map (·.1)).getD [])
      (.operation op (some left) (right.map (·.2)))
  | plain {k : Nat} {level : Level} {cs : List Char} {e : Expression Float}
    (h : Nests unknowns k (.of level.tighter) cs e) : Nests unknowns k (.of (.operand level)) cs e
  | negated {k : Nat} {level : Level} {cs : List Char} {e : Expression Float}
    (h : Nests unknowns k (.of (.operand level)) cs e) :
    Nests unknowns (k + 1) (.of (.operand level)) ('-' :: cs) (.operation .sub none (some e))

/-- The nonterminal of a form. -/
def Form.nonterminal : Form → Nonterminal
  | of n => n
  | joined level => .chain level

namespace Nests

variable {unknowns : List Char} {k : Nat} {form : Form} {cs : List Char} {e : Expression Float}

/-- A derivation with bounded nesting is a derivation. -/
theorem derives (h : Nests unknowns k form cs e) : Derives unknowns form.nonterminal cs e := by
  have hlink {op : Operator} {cs : List Char} {left : Expression Float}
      {right : Option (List Char × Expression Float)} (hop : op.needsRight = right.isSome)
      (hleft : Derives unknowns (.chain op.level) cs left)
      (hright : ∀ r ∈ right, Derives unknowns (.operand op.level) r.1 r.2) :
      Derives unknowns (.chain op.level) (cs ++ op.symbol :: (right.map (·.1)).getD [])
        (.operation op (some left) (right.map (·.2))) := by
    cases right with
    | none =>
      obtain rfl := Operator.eq_factorial_of_needsRight hop
      exact .factorial hleft
    | some r => exact .binary hop hleft (hright r rfl)
  induction h with
  | leaf h => exact .leaf h
  | group _ ih => exact .group ih
  | call hne _ ih => exact .call hne ih
  | tighter _ ih => exact .tighter ih
  | joined _ ih => exact ih
  | negation _ ih => exact .negation ih
  | start hop _ _ ihleft ihright => exact hlink hop (.tighter ihleft) ihright
  | extend hop _ _ ihleft ihright => exact hlink hop ihleft ihright
  | plain _ ih => exact .plain ih
  | negated _ ih => exact .negated ih

/-- A larger bound holds as well. -/
theorem mono (h : Nests unknowns k form cs e) {k' : Nat} (hle : k ≤ k') :
    Nests unknowns k' form cs e := by
  have hsucc {k k' : Nat} (hle : k + 1 ≤ k') : ∃ j, k' = j + 1 ∧ k ≤ j :=
    ⟨k' - 1, by omega, by omega⟩
  induction h generalizing k' with
  | leaf h => exact .leaf h
  | group _ ih => exact .group (ih hle)
  | call hne _ ih =>
    obtain ⟨j, rfl, hj⟩ := hsucc hle
    exact .call hne fun arg harg => ih arg harg hj
  | tighter _ ih => exact .tighter (ih hle)
  | joined _ ih => exact .joined (ih hle)
  | negation _ ih =>
    obtain ⟨j, rfl, hj⟩ := hsucc hle
    exact .negation (ih hj)
  | start hop _ _ ihleft ihright =>
    obtain ⟨j, rfl, hj⟩ := hsucc hle
    exact .start hop (ihleft hj) fun r hr => ihright r hr hj
  | extend hop _ _ ihleft ihright =>
    obtain ⟨j, rfl, hj⟩ := hsucc hle
    exact .extend hop (ihleft hle) fun r hr => ihright r hr hj
  | plain _ ih => exact .plain (ih hle)
  | negated _ ih =>
    obtain ⟨j, rfl, hj⟩ := hsucc hle
    exact .negated (ih hj)

/-- One more operator on the right of a chain adds no level to those of its operands. -/
theorem append (op : Operator) {left : Expression Float}
    (right : Option (List Char × Expression Float)) (hop : op.needsRight = right.isSome)
    (hleft : Nests unknowns k (.of (.chain op.level)) cs left)
    (hright : ∀ r ∈ right, Nests unknowns k (.of (.operand op.level)) r.1 r.2) :
    Nests unknowns (k + 1) (.joined op.level) (cs ++ op.symbol :: (right.map (·.1)).getD [])
      (.operation op (some left) (right.map (·.2))) := by
  cases hleft with
  | tighter hleft => exact .start hop hleft hright
  | joined hleft => exact .extend hop (hleft.mono (Nat.le_succ k)) hright

/-- A chain with an operator nests a level. -/
theorem pos_of_joined {level : Level} (h : Nests unknowns k (.joined level) cs e) : 0 < k := by
  cases h <;> exact Nat.succ_pos _

/-- Derivations with bounded nesting lift. -/
theorem lifts (unknowns : List Char) (k : Nat) (cs : List Char) (e : Expression Float) :
    Level.Lifts fun n => Nests unknowns k (.of n) cs e :=
  fun _ => .tighter

end Nests

/-- What stands between commas is a part of the whole. -/
theorem sublist_intercalate {parts : List (List Char)} {part : List Char} (h : part ∈ parts) :
    part.Sublist ([','].intercalate parts) := by
  induction parts with
  | nil => cases h
  | cons first parts ih =>
    cases parts with
    | nil =>
      obtain rfl := List.mem_singleton.1 h
      simp
    | cons next parts =>
      rw [List.intercalate_cons_cons, List.append_assoc]
      rcases List.mem_cons.1 h with rfl | h
      · exact List.sublist_append_left part _
      · exact ((ih h).trans (List.sublist_append_right _ _)).trans (List.sublist_append_right _ _)

/-- No part of a text with commas in it is longer than the whole. -/
theorem length_le_length_intercalate {parts : List (List Char)} {part : List Char}
    (h : part ∈ parts) : part.length ≤ ([','].intercalate parts).length :=
  (sublist_intercalate h).length_le

/-- A text nests fewer levels than it has characters. -/
theorem Derives.nests {unknowns : List Char} {n : Nonterminal} {cs : List Char}
    {e : Expression Float} (h : Derives unknowns n cs e) :
    Nests unknowns cs.length (.of n) cs e := by
  induction h with
  | leaf h => exact .leaf h
  | @group cs _ _ ih =>
    have hle : cs.length ≤ ('(' :: (cs ++ [')'])).length := by
      simp only [List.length_cons, List.length_append]
      omega
    exact (Nests.group ih).mono hle
  | @call f args hne _ ih =>
    have hle (arg) (harg : arg ∈ args) :
        arg.1.length ≤ ([','].intercalate (args.map (·.1))).length :=
      length_le_length_intercalate (List.mem_map_of_mem harg)
    refine (Nests.call hne fun arg harg => (ih arg harg).mono (hle arg harg)).mono ?_
    simp only [List.length_append, List.length_cons]
    omega
  | tighter _ ih => exact .tighter ih
  | negation _ ih => exact .joined (.negation ih)
  | @binary op cs ds _ right hop _ _ ihleft ihright =>
    have hleft := ihleft.mono (Nat.le_add_right cs.length ds.length)
    have hright := ihright.mono (Nat.le_add_left ds.length cs.length)
    have hjoined := Nests.append op (some (ds, right)) hop hleft (by simpa using hright)
    rw [List.length_append, List.length_cons, ← Nat.add_assoc]
    exact .joined hjoined
  | @factorial cs _ _ ih =>
    have hjoined := Nests.append .factorial none rfl ih (by simp)
    rw [List.length_append, List.length_singleton]
    exact .joined hjoined
  | plain _ ih => exact .plain ih
  | negated _ ih => exact .negated ih

end Calculator
