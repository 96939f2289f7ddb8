import Calculator.Document.Basic
import Calculator.Document.Reader

/-!
# Reading documents

A section is a title and one or more pairs; a pair is a key, a colon and a list of values with
commas between them. No line ends between a key and the first of its values or around a comma. A
title that no pair follows ends the document.
-/

namespace Calculator.Document

/-- Whether a title or a key can start with the character. -/
def startsWord (c : Char) : Bool :=
  c.isAlpha || c == '_'

/-- Whether a title or a key can go on with the character. -/
def isWordChar (c : Char) : Bool :=
  c.isAlphanum || c == '_'

/-- A blank within a line. -/
def isGap (c : Char) : Bool :=
  c == ' ' || c == '\t'

/-- Whether a value can go on with the character. -/
def isTokenChar (c : Char) : Bool :=
  !(c == ',' || c == ' ' || c == '\t' || c == '\n' || c == '\r' || c == ';')

/-- Reads a title or a key. -/
def word? : List Char → Option (String × List Char)
  | [] => none
  | c :: cs =>
    if startsWord c then
      some (String.ofList (c :: cs.takeWhile isWordChar), cs.dropWhile isWordChar)
    else none

/-- Reads a value. -/
def value? : List Char → Option (DocumentValue × List Char)
  | [] => none
  | c :: cs =>
    if isTokenChar c then
      some (.ofToken (c :: cs.takeWhile isTokenChar), cs.dropWhile isTokenChar)
    else none

/-- Reads what follows a colon: what stands after it, if the blanks before it stay on the line. -/
def afterColon? (cs : List Char) : Option (List Char) :=
  match cs.dropWhile isGap with
  | ':' :: rest => some (rest.dropWhile isGap)
  | _ => none

/-- Reads a comma and a value after it, with blanks of the line around the comma. -/
def laterValue? (cs : List Char) : Option (DocumentValue × List Char) :=
  match cs.dropWhile isGap with
  | ',' :: rest => value? (rest.dropWhile isGap)
  | _ => none

/-- Reading a word takes something. -/
theorem length_of_word? {cs rest : List Char} {name : String}
    (h : word? cs = some (name, rest)) : rest.length < cs.length := by
  cases cs with
  | nil => simp [word?] at h
  | cons c cs =>
    simp only [word?] at h
    split at h
    · obtain ⟨-, rfl⟩ := by simpa using h
      exact Nat.lt_succ_of_le (Text.length_dropWhile_le _ _)
    · simp at h

/-- Reading a value takes something. -/
theorem length_of_value? {cs rest : List Char} {v : DocumentValue}
    (h : value? cs = some (v, rest)) : rest.length < cs.length := by
  cases cs with
  | nil => simp [value?] at h
  | cons c cs =>
    simp only [value?] at h
    split at h
    · obtain ⟨-, rfl⟩ := by simpa using h
      exact Nat.lt_succ_of_le (Text.length_dropWhile_le _ _)
    · simp at h

/-- Reading a colon takes something. -/
theorem length_of_afterColon? {cs rest : List Char} (h : afterColon? cs = some rest) :
    rest.length < cs.length := by
  have hgap := Text.length_dropWhile_le isGap cs
  rw [afterColon?] at h
  split at h
  · next tail htail =>
    obtain rfl := by simpa using h
    have hrest := Text.length_dropWhile_le isGap tail
    rw [htail, List.length_cons] at hgap
    omega
  · simp at h

/-- Reading a comma and a value takes something. -/
theorem length_of_laterValue? {cs rest : List Char} {v : DocumentValue}
    (h : laterValue? cs = some (v, rest)) : rest.length < cs.length := by
  have hgap := Text.length_dropWhile_le isGap cs
  rw [laterValue?] at h
  split at h
  · next tail htail =>
    have hvalue := length_of_value? h
    have hrest := Text.length_dropWhile_le isGap tail
    rw [htail, List.length_cons] at hgap
    omega
  · simp at h

/-- The reader of a comma and a value. -/
def laterValueReader : Reader DocumentValue :=
  ⟨laterValue?, length_of_laterValue?⟩

/-- Reads a list of values, which may be empty. -/
def values (cs : List Char) : List DocumentValue × List Char :=
  match value? cs with
  | some (v, rest) =>
    let more := laterValueReader.many rest
    (v :: more.1, more.2)
  | none => ([], cs)

/-- Reading values never lengthens what is left. -/
theorem length_values_le (cs : List Char) : (values cs).2.length ≤ cs.length := by
  rw [values]
  split
  · next v rest h =>
    have hmany := laterValueReader.length_many_le rest
    have hvalue := length_of_value? h
    simp only
    omega
  · exact Nat.le_refl _

/-- Reads a key and its values; the blanks around what is left are dropped. -/
def pair? (cs : List Char) : Option ((String × List DocumentValue) × List Char) :=
  match word? cs with
  | none => none
  | some (key, rest) =>
    match afterColon? rest with
    | none => none
    | some rest' =>
      let (vs, left) := values rest'
      some ((key, vs), Text.trim left)

/-- Reading a pair takes something. -/
theorem length_of_pair? {cs rest : List Char} {pair : String × List DocumentValue}
    (h : pair? cs = some (pair, rest)) : rest.length < cs.length := by
  rw [pair?] at h
  split at h
  · simp at h
  · next key tail hword =>
    split at h
    · simp at h
    · next tail' hcolon =>
      obtain ⟨-, rfl⟩ := by simpa using h
      have htrim := Text.length_trim_le (values tail').2
      have hvalues := length_values_le tail'
      have := length_of_word? hword
      have := length_of_afterColon? hcolon
      omega

/-- The reader of a key and its values. -/
def pairReader : Reader (String × List DocumentValue) :=
  ⟨pair?, length_of_pair?⟩

/-- Reads a title and the pairs after it, of which there has to be one. -/
def section? (cs : List Char) :
    Option ((String × List (String × List DocumentValue)) × List Char) :=
  match word? (cs.dropWhile isGap) with
  | none => none
  | some (title, rest) =>
    match pairReader.many (Text.trim rest) with
    | ([], _) => none
    | (pair :: more, left) => some ((title, pair :: more), left)

/-- Reading a section takes something. -/
theorem length_of_section? {cs rest : List Char}
    {part : String × List (String × List DocumentValue)}
    (h : section? cs = some (part, rest)) : rest.length < cs.length := by
  rw [section?] at h
  split at h
  · simp at h
  · next title tail hword =>
    have hpairs := pairReader.length_many_le (Text.trim tail)
    split at h
    · simp at h
    · next pair more left hread =>
      obtain ⟨-, rfl⟩ := by simpa using h
      rw [hread] at hpairs
      have htrim := Text.length_trim_le tail
      have := length_of_word? hword
      have := Text.length_dropWhile_le isGap cs
      simp only at hpairs
      omega

/-- The reader of a section. -/
def sectionReader : Reader (String × List (String × List DocumentValue)) :=
  ⟨section?, length_of_section?⟩

/-- The document of a list of sections: of two sections with one title, and of two pairs with one
key, the later one counts. -/
def ofSections (parts : List (String × List (String × List DocumentValue))) : Document :=
  Entries.ofList (parts.map fun part =>
    (part.1, Entries.ofList (part.2.map fun pair => (pair.1, some pair.2))))

/-- Reads a document of at least one section from a text without comments, with what is left. -/
def parse? (cs : List Char) : Option (Document × List Char) :=
  match sectionReader.many cs with
  | ([], _) => none
  | (part :: more, left) => some (ofSections (part :: more), left)

/-- The lines of a text, without the characters that end them. -/
def linesOf (cs : List Char) : List (List Char) :=
  let parts := cs.splitOn '\n'
  parts.dropLast.map dropReturn ++ parts.getLast?.toList
where
  /-- Drops a carriage return at the end of a line that a line feed ends. -/
  dropReturn (line : List Char) : List Char :=
    if line.getLast? = some '\r' then line.dropLast else line

/-- Whether a line carries nothing: it is blank, or its first character or its first two mark a
comment. -/
def isComment (line : List Char) : Bool :=
  match Text.trim line with
  | [] => true
  | '/' :: '/' :: _ => true
  | c :: _ => c == '#' || c == '%' || c == ';'

/-- A text without its comments and blank lines, and without blanks around it. -/
def withoutComments (cs : List Char) : List Char :=
  Text.trim (['\n'].intercalate ((linesOf cs).filter fun line => !isComment line))

end Calculator.Document
