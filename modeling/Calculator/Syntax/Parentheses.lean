import Calculator.Syntax.ParseError

/-!
# Parentheses

The source is cut into pieces, each with the offset of its first character. This module finds the
groups of a piece, which are its outermost pairs of parentheses with what stands inside, takes off
the pairs around a whole piece, and splits the parameters of a call at the commas outside groups.
-/

namespace Calculator

/-- A run of characters of the source and the offset of the first one. -/
structure Piece where
  offset : Nat
  chars : List Char
deriving DecidableEq, Repr

/-- The offset after the last character. -/
def Piece.stop (p : Piece) : Nat :=
  p.offset + p.chars.length

/-- The number of open parentheses after a character, from that before it. -/
def nestingAfter (depth : Nat) (c : Char) : Nat :=
  if c = '(' then depth + 1 else if c = ')' then depth - 1 else depth

/-- A list of characters around its first group. -/
structure Group where
  before : List Char
  inside : List Char
  after : List Char
deriving DecidableEq, Repr

/-- Splits the characters after an opening parenthesis at the one that closes it, with `depth`
further ones open. -/
def closeGroup (depth : Nat) : List Char → Option (List Char × List Char)
  | [] => none
  | c :: cs =>
    if c = ')' ∧ depth = 0 then some ([], cs)
    else (closeGroup (nestingAfter depth c) cs).map fun split => (c :: split.1, split.2)

/-- Finds the first group, or an unmatched parenthesis on the way to its end. -/
def firstGroup (offset : Nat) : List Char → Except Fault (Option Group)
  | [] => .ok none
  | c :: cs =>
    if c = '(' then
      match closeGroup 0 cs with
      | some (inside, after) => .ok (some ⟨[], inside, after⟩)
      | none => .error ⟨.unmatchedParenthesis, offset⟩
    else if c = ')' then .error ⟨.unmatchedParenthesis, offset⟩
    else
      match firstGroup (offset + 1) cs with
      | .ok (some g) => .ok (some { g with before := c :: g.before })
      | .ok none => .ok none
      | .error fault => .error fault

/-- Splitting at the closing parenthesis loses nothing but that parenthesis. -/
theorem closeGroup_eq {depth : Nat} {cs inside after : List Char}
    (h : closeGroup depth cs = some (inside, after)) : cs = inside ++ ')' :: after := by
  induction cs generalizing depth inside with
  | nil => simp [closeGroup] at h
  | cons c cs ih =>
    rw [closeGroup] at h
    split at h
    · next hc =>
      obtain ⟨rfl, rfl⟩ := by simpa using h
      simp [hc.1]
    · obtain ⟨⟨inside', after'⟩, hsplit, heq⟩ := Option.map_eq_some_iff.1 h
      obtain ⟨rfl, rfl⟩ := by simpa using heq
      simp [ih hsplit]

/-- The parts around the first group make up the whole list. -/
theorem firstGroup_eq {offset : Nat} {cs : List Char} {g : Group}
    (h : firstGroup offset cs = .ok (some g)) :
    cs = g.before ++ '(' :: (g.inside ++ ')' :: g.after) := by
  induction cs generalizing offset g with
  | nil => simp [firstGroup] at h
  | cons c cs ih =>
    rw [firstGroup] at h
    split at h
    · next hc =>
      split at h
      · next inside after hclose =>
        obtain rfl : (⟨[], inside, after⟩ : Group) = g := by simpa using h
        simp [hc, closeGroup_eq hclose]
      · simp at h
    · split at h
      · simp at h
      · split at h
        · next g' hrest =>
          obtain rfl : { g' with before := c :: g'.before } = g := by simpa using h
          simp [ih hrest]
        · simp at h
        · simp at h

namespace Piece

/-- The offsets of the opening and the closing parenthesis of the first group. -/
def firstGroupRange (p : Piece) : Except Fault (Option (Nat × Nat)) :=
  (firstGroup p.offset p.chars).map fun found => found.map fun g =>
    let opening := p.offset + g.before.length
    (opening, opening + g.inside.length + 1)

/-- Takes off the pairs of parentheses around the whole piece. -/
def unwrap (p : Piece) : Except Fault Piece :=
  match h : firstGroup p.offset p.chars with
  | .ok (some ⟨[], inside, []⟩) => unwrap ⟨p.offset + 1, inside⟩
  | .ok _ => .ok p
  | .error fault => .error fault
termination_by p.chars.length
decreasing_by
  have hchars := congrArg List.length (firstGroup_eq h)
  simp at hchars ⊢
  omega

end Piece

/-- The offsets of the parentheses of every group, from left to right. The first argument is the
offset of the parenthesis that opened the group at hand, with the number of further ones open. -/
def groupsFrom : Option (Nat × Nat) → Nat → List Char → Except Fault (List (Nat × Nat))
  | none, _, [] => .ok []
  | some (opening, _), _, [] => .error ⟨.unmatchedParenthesis, opening⟩
  | none, offset, c :: cs =>
    if c = '(' then groupsFrom (some (offset, 0)) (offset + 1) cs
    else if c = ')' then .error ⟨.unmatchedParenthesis, offset⟩
    else groupsFrom none (offset + 1) cs
  | some (opening, depth), offset, c :: cs =>
    if c = ')' ∧ depth = 0 then
      match groupsFrom none (offset + 1) cs with
      | .ok groups => .ok ((opening, offset) :: groups)
      | .error fault => .error fault
    else groupsFrom (some (opening, nestingAfter depth c)) (offset + 1) cs

/-- The offsets of the parentheses of every group of a piece, or its leftmost unmatched one. -/
def Piece.groups (p : Piece) : Except Fault (List (Nat × Nat)) :=
  groupsFrom none p.offset p.chars

/-- Splits at the commas outside groups, with `depth` parentheses open: what stands before the
first comma, and what follows each of them. -/
def splitCommas (depth : Nat) : List Char → List Char × List (List Char)
  | [] => ([], [])
  | c :: cs =>
    let (part, parts) := splitCommas (nestingAfter depth c) cs
    if c = ',' ∧ depth = 0 then ([], part :: parts) else (c :: part, parts)

/-- Refuses an empty part at the first comma that it stands before or that ends the piece. -/
def refuseEmptyParts (offset : Nat) (part : List Char) :
    List (List Char) → Except Fault (List Piece)
  | [] => .ok [⟨offset, part⟩]
  | next :: parts =>
    let comma := offset + part.length
    if part.isEmpty || (next.isEmpty && parts.isEmpty) then .error ⟨.emptyParameter, comma⟩
    else
      match refuseEmptyParts (comma + 1) next parts with
      | .ok pieces => .ok (⟨offset, part⟩ :: pieces)
      | .error fault => .error fault

/-- The parameters inside the parentheses of a call, none of which may be empty. -/
def Piece.parameters (p : Piece) : Except Fault (List Piece) :=
  if p.chars.isEmpty then .error ⟨.emptyParameter, p.offset⟩
  else
    match p.groups with
    | .error fault => .error fault
    | .ok _ =>
      let (part, parts) := splitCommas 0 p.chars
      refuseEmptyParts p.offset part parts

end Calculator
