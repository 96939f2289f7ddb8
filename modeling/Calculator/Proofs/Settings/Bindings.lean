import Calculator.Proofs.Decimal.Integer
import Calculator.Proofs.Document.RoundTrip

/-!
# Two ways to bind an unknown

An unknown is bound to a token by an argument of the command line or by a document. Both read the
token as the same number, except that a document tries to read an integer first, and no integer is
a negative zero.
-/

namespace Calculator

open Document (Token Word WrittenPair WrittenSection Interspersed)

/-- The number that a token is typed as is the number that is read off it, apart from the sign of
a negative zero. -/
theorem DocumentValue.number?_ofTrimmed (token : List Char) :
    (¬IsNegativeZero token → (DocumentValue.ofTrimmed token).number? = readNumber? token) ∧
      (IsNegativeZero token → (DocumentValue.ofTrimmed token).number? = some 0) := by
  constructor
  · intro hzero
    rw [DocumentValue.ofTrimmed]
    split
    · next n hinteger => exact (readNumber?_of_readInteger? hinteger hzero).symm
    · split
      · next x hnumber => exact hnumber.symm
      · next hnone =>
        rw [hnone]
        split
        · rfl
        · split <;> rfl
  · intro hzero
    rw [DocumentValue.ofTrimmed, hzero.read.1]
    rfl

namespace Bindings

/-- The argument of the command line that binds an unknown to a token. -/
def argumentText (c : Char) (t : Token) : String :=
  String.ofList (c :: '=' :: t.chars)

/-- The document that binds an unknown to a token. -/
def documentText (c : Char) (t : Token) : String :=
  "bindings\n  " ++ String.singleton c ++ ": " ++ String.ofList t.chars ++ "\n"

section Letter

variable {c : Char} (hc : c.isAlpha = true) (t : Token)

include hc

/-- A letter may start a word. -/
theorem startsWord_of_isAlpha : Document.startsWord c = true := by
  rw [Document.startsWord, hc, Bool.true_or]

/-- From the argument the number of the token is read, if it is one. -/
theorem readOne_argumentText :
    readOne (argumentText c t) = match readNumber? t.chars with
      | some x => .ok (c, x)
      | none => .error (.malformedBinding (argumentText c t)) := by
  have hequals : c ≠ '=' := by
    rintro rfl
    cases hc
  have hblank : Text.isBlank c = false :=
    Document.isBlank_of_isWordChar (Document.isWordChar_of_startsWord (startsWord_of_isAlpha hc))
  have htake : (argumentText c t).toList.takeWhile (· != '=') = [c] := by
    simp [argumentText, hequals]
  have hdrop : (argumentText c t).toList.dropWhile (· != '=') = '=' :: t.chars := by
    simp [argumentText, hequals]
  have htrim : Text.trim [c] = [c] := by simp [Text.trim, Text.trimStart, Text.trimEnd, hblank]
  rw [readOne, htake, hdrop, htrim]
  cases hnumber : readNumber? t.chars <;> simp only [t.trim_chars, hnumber]

/-- From the document the value of the token is read, if it is a number. -/
theorem ofText_documentText :
    ofText (documentText c t) = match t.value.number? with
      | some x => .ok [(c, x)]
      | none => .error (.notANumber (String.ofList [c]) t.value.toText) := by
  let title : Word := ⟨'b', "indings".toList, rfl, List.all_eq_true.1 rfl⟩
  let key : Word := ⟨c, [], startsWord_of_isAlpha hc, nofun⟩
  let part : WrittenSection := ⟨title, [⟨key, [t]⟩], List.cons_ne_nil _ _⟩
  have hlines : Interspersed ([part].flatMap (·.lines)) (part.lines ++ [[]]) :=
    .line _ (.line _ (.noise nofun (.inl rfl) .nil))
  have htext : documentText c t = String.ofList (['\n'].intercalate (part.lines ++ [[]])) := by
    rw [← String.toList_inj, String.toList_ofList]
    simp [documentText, part, title, key, WrittenSection.lines, WrittenPair.line, WrittenPair.list,
      Word.chars, List.intercalate]
  have hread := Document.read_of_interspersed (List.cons_ne_nil part []) hlines Settings.template
  have hsection : ((Document.ofSections ([part].map (·.entry))).complete Settings.template).get?
      "bindings" = some [(String.ofList [c], some [t.value])] := rfl
  have hentry : ofEntry (String.ofList [c], some [t.value]) = match t.value.number? with
      | some x => .ok (c, x)
      | none => .error (.notANumber (String.ofList [c]) t.value.toText) := by
    have hsymbol : Settings.oneCharacter (String.ofList [c]) = .ok c := by
      rw [Settings.oneCharacter, String.toList_ofList]
    rw [ofEntry, hsymbol]
    rfl
  have hbindings : ofText (documentText c t) =
      [(String.ofList [c], some [t.value])].mapM ofEntry := by
    rw [ofText, htext, hread]
    exact congrArg (fun entries => (entries.getD []).mapM ofEntry) hsection
  rw [hbindings, List.mapM_cons, hentry]
  cases t.value.number? <;> rfl

/-- A negative zero is bound with its minus sign by an argument, and without it by a document. -/
theorem binds_of_isNegativeZero (h : IsNegativeZero t.chars) :
    readOne (argumentText c t) = .ok (c, -0) ∧ ofText (documentText c t) = .ok [(c, 0)] := by
  have hnumber : t.value.number? = some 0 := (DocumentValue.number?_ofTrimmed t.chars).2 h
  rw [readOne_argumentText hc, ofText_documentText hc, h.read.2, hnumber]
  exact ⟨rfl, rfl⟩

end Letter

/-- The argument and the document both fail to bind the unknown, or both bind it to the same
double. -/
def BindAlike (c : Char) (t : Token) : Prop :=
  (∃ err err', readOne (argumentText c t) = .error err ∧
      ofText (documentText c t) = .error err') ∨
    ∃ x, readOne (argumentText c t) = .ok (c, x) ∧ ofText (documentText c t) = .ok [(c, x)]

/-- A letter is bound alike by an argument and by a document, to the same double bit for bit, or by
neither of them. Only a negative zero is bound with its minus sign by an argument and without it by
a document. -/
theorem bindAlike_unless_negativeZero {c : Char} (hc : c.isAlpha = true) (t : Token) :
    (¬IsNegativeZero t.chars → BindAlike c t) ∧
      (IsNegativeZero t.chars → readOne (argumentText c t) = .ok (c, -0) ∧
        ofText (documentText c t) = .ok [(c, 0)]) := by
  refine ⟨fun hzero => ?_, binds_of_isNegativeZero hc t⟩
  have hnumber : t.value.number? = readNumber? t.chars :=
    (DocumentValue.number?_ofTrimmed t.chars).1 hzero
  rw [BindAlike, readOne_argumentText hc, ofText_documentText hc, hnumber]
  cases readNumber? t.chars with
  | none => exact .inl ⟨_, _, rfl, rfl⟩
  | some x => exact .inr ⟨x, rfl, rfl⟩

/-- The token of the number two. -/
def two : Token :=
  ⟨['2'], by decide, List.forall_mem_singleton.2 (by decide)⟩

/-- The token of a negative zero. -/
def negativeZero : Token :=
  ⟨['-', '0'], by decide,
    List.forall_mem_cons.2 ⟨by decide, List.forall_mem_singleton.2 (by decide)⟩⟩

/-- The token consists of a minus sign and zeros. -/
theorem isNegativeZero_negativeZero : IsNegativeZero negativeZero.chars :=
  ⟨['0'], by decide, List.forall_mem_singleton.2 rfl, rfl⟩

/-- The number two is bound alike, a negative zero is not. -/
theorem bindAlike_two :
    BindAlike 'x' two ∧ readOne (argumentText 'x' negativeZero) = .ok ('x', -0) ∧
      ofText (documentText 'x' negativeZero) = .ok [('x', 0)] := by
  have htwo : ¬IsNegativeZero two.chars := by
    rintro ⟨zeros, -, -, h⟩
    cases h
  exact ⟨(bindAlike_unless_negativeZero (by decide) two).1 htwo,
    (bindAlike_unless_negativeZero (by decide) negativeZero).2 isNegativeZero_negativeZero⟩

/-- Of two ways to bind an unknown to a negative zero, one keeps the minus sign and one drops it. -/
theorem not_bindAlike_negativeZero :
    readOne "x=-0" = .ok ('x', -0) ∧ ofText "bindings\n  x: -0\n" = .ok [('x', 0)] ∧
      ¬∀ c : Char, c.isAlpha = true → ∀ t : Token, BindAlike c t := by
  obtain ⟨hargument, hdocument⟩ :=
    binds_of_isNegativeZero (c := 'x') (by decide) negativeZero isNegativeZero_negativeZero
  refine ⟨hargument, hdocument, fun halike => ?_⟩
  obtain ⟨err, err', herror, -⟩ | ⟨x, hx, hx'⟩ := halike 'x' (by decide) negativeZero
  · rw [hargument] at herror
    cases herror
  · have hnegative : x = -0 := by
      rw [hargument] at hx
      exact (Prod.mk.inj (Except.ok.inj hx)).2.symm
    have hpositive : x = 0 := by
      rw [hdocument] at hx'
      exact (Prod.mk.inj (List.cons.inj (Except.ok.inj hx')).1).2.symm
    have hne : (-0 : Float) ≠ 0 := by decide +kernel
    exact hne (hnegative.symm.trans hpositive)

end Bindings

end Calculator
