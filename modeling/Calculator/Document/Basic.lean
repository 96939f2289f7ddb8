import Calculator.Decimal.Reading
import Calculator.Decimal.Shortest
import Calculator.Document.Entries
import Calculator.Text.Blank

/-!
# Documents

A document is a list of sections with titles, and a section is a list of keys with lists of
values. A value is typed by its text: the first of integer, number and boolean that reads it, else
text.
-/

namespace Calculator

/-- A value of a document. -/
inductive DocumentValue
  /-- An integer of sixty-four bits. -/
  | integer (n : Int)
  | number (x : Float)
  | boolean (b : Bool)
  | text (s : String)

namespace DocumentValue

/-- The value of a token without blanks around it. -/
def ofTrimmed (token : List Char) : DocumentValue :=
  match readInteger? token with
  | some n => integer n
  | none =>
    match readNumber? token with
    | some x => number x
    | none =>
      if token = "true".toList then boolean true
      else if token = "false".toList then boolean false
      else text (String.ofList token)

/-- The value of a token. -/
def ofToken (token : List Char) : DocumentValue :=
  ofTrimmed (Text.trim token)

/-- The text of an integer. -/
def integerText (n : Int) : List Char :=
  Decimal.text ⟨decide (n < 0), n.natAbs, 0⟩

/-- The text of a value. -/
def toText : DocumentValue → String
  | integer n => String.ofList (integerText n)
  | number x => String.ofList (numberText x)
  | boolean true => "true"
  | boolean false => "false"
  | text s => s

/-- The number that a value is; an integer is rounded to the nearest double. -/
def number? : DocumentValue → Option Float
  | integer n => some (Float.ofInt n)
  | number x => some x
  | _ => none

/-- The integer that a value is. -/
def integer? : DocumentValue → Option Int
  | integer n => some n
  | _ => none

end DocumentValue

/-- The keys of a section with their values. A key that a template asks for and the document does
not have is there without values. -/
abbrev Section := Entries (Option (List DocumentValue))

/-- The titles of a document with their sections. -/
abbrev Document := Entries Section

/-- Adds the titles and keys of a template that the document does not have. -/
def Document.complete (template : List (String × List String)) (document : Document) : Document :=
  template.foldl (fun document entry =>
    let found := (document.get? entry.1).getD []
    let completed := entry.2.foldl (fun (part : Section) key =>
      match part.get? key with
      | some _ => part
      | none => part.put key none) found
    document.put entry.1 completed) document

end Calculator
