import Calculator.Proofs.Settings.Bindings
import Calculator.Proofs.Syntax.Phrase

/-!
# Settings in a document

A document shows settings if the last of its sections with the title `engine` does: there the last
pair of each of the three keys has the tokens of one field. Valid settings are read back from every
document that shows them. Each token is typed before its field is read, so that an unknown and a log
level have to be typed as texts, and the nesting limit as an integer.
-/

namespace Calculator

open Document (Word Token WrittenPair WrittenSection Interspersed IsNoise)

section Letters

variable {c : Char} {cs : List Char}

/-- The letters of ASCII are letters, and their lower-case forms are those within ASCII. -/
theorem Text.isLetter_and_lowerChar_of_isAlpha (h : c.isAlpha = true) :
    Text.isLetter c = true ∧ Text.lowerChar c = [c.toLower] := by
  have hcode : c.toNat < 123 := by
    simp only [Char.isAlpha, Char.isUpper, Char.isLower, Bool.or_eq_true, Bool.and_eq_true,
      decide_eq_true_eq, UInt32.le_iff_toNat_le] at h
    have hupper : 'Z'.val.toNat = 90 := rfl
    have hlower : 'z'.val.toNat = 122 := rfl
    have hval : c.toNat = c.val.toNat := rfl
    omega
  have hall : ∀ n < 123, (Char.ofNat n).isAlpha = true →
      Text.isLetter (Char.ofNat n) = true ∧
        Text.lowerChar (Char.ofNat n) = [(Char.ofNat n).toLower] := by decide +kernel
  have hc := hall c.toNat hcode
  rw [Char.ofNat_toNat] at hc
  exact hc h

/-- A word of letters of ASCII is put into lower case letter by letter. -/
theorem Text.lowercase_of_isAlpha (h : ∀ c ∈ cs, c.isAlpha = true) :
    Text.lowercase cs = cs.map Char.toLower := by
  have hafter (before : List Char) : Text.lowerAfter before cs = cs.map Char.toLower := by
    induction cs generalizing before with
    | nil => rfl
    | cons c cs ih =>
      obtain ⟨hc, hcs⟩ := List.forall_mem_cons.1 h
      have hsigma : c ≠ '\u03A3' := by
        rintro rfl
        cases hc
      rw [Text.lowerAfter, if_neg (by simpa using hsigma),
        (Text.isLetter_and_lowerChar_of_isAlpha hc).2, ih hcs, List.map_cons, List.singleton_append]
  exact hafter []

/-- No number in digits starts with a letter, which is no sign, no digit and no point. -/
theorem takeSign_and_read?_of_isLetter {c : Char} (h : Text.isLetter c = true) (cs : List Char) :
    Decimal.takeSign (c :: cs) = (false, c :: cs) ∧ c.isDigit = false ∧
      Decimal.read? (c :: cs) = none := by
  have hne (d : Char) (hd : d ∈ "+-*/^%!(),.0123456789".toList) : c ≠ d := by
    rintro rfl
    rw [Text.isLetter_eq_false hd] at h
    cases h
  have hdigit : c.isDigit = false := by
    by_contra hdigit
    rw [Text.isLetter_of_isDigit (eq_true_of_ne_false hdigit)] at h
    cases h
  have hsign : Decimal.takeSign (c :: cs) = (false, c :: cs) := by
    rw [Decimal.takeSign.eq_def]
    split
    · next heq => exact absurd (List.cons.inj heq).1 (hne '-' (by decide))
    · next heq => exact absurd (List.cons.inj heq).1 (hne '+' (by decide))
    · rfl
  have hdigits : Decimal.takeDigits? (c :: cs) = none := by
    rw [Decimal.takeDigits?, List.takeWhile_cons_of_neg (by simp [hdigit]),
      List.dropWhile_cons_of_neg (by simp [hdigit])]
    split
    · next heq => exact absurd (List.cons.inj heq).1 (hne '.' (by decide))
    · rfl
  refine ⟨hsign, hdigit, ?_⟩
  rw [Decimal.read?, hsign]
  simp only [hdigits]

/-- A token that starts with a letter is typed as a text, unless it is a word for a number or for a
truth value. -/
theorem DocumentValue.ofTrimmed_of_isLetter (h : Text.isLetter c = true)
    (hword : (c :: cs).map Char.toLower ∉
      ["inf".toList, "infinity".toList, "nan".toList, "true".toList, "false".toList]) :
    ofTrimmed (c :: cs) = text (String.ofList (c :: cs)) := by
  obtain ⟨hsign, hdigit, hread⟩ := takeSign_and_read?_of_isLetter h cs
  simp only [List.mem_cons, List.not_mem_nil, or_false, not_or] at hword
  obtain ⟨hinf, hinfinity, hnan, htrue, hfalse⟩ := hword
  have hinteger : readInteger? (c :: cs) = none := by
    rw [readInteger?, hsign]
    simp [hdigit]
  have hnumber : readNumber? (c :: cs) = none := by
    rw [readNumber?, hread, readNumberWord?, hsign]
    simp only [beq_iff_eq, Bool.or_eq_true, hinf, hinfinity, hnan, or_self, if_false]
  have hne {word : List Char} (hlower : word.map Char.toLower = word)
      (hmap : (c :: cs).map Char.toLower ≠ word) : c :: cs ≠ word := by
    rintro rfl
    exact hmap hlower
  rw [ofTrimmed, hinteger, hnumber]
  simp only [if_neg (hne (by decide) htrue), if_neg (hne (by decide) hfalse)]

end Letters

/-- The digits of an integer of sixty-four bits are typed as that integer. -/
theorem DocumentValue.ofTrimmed_digitsOf {n : Nat} (h : (n : Int) < Int.pow 2 63) :
    ofTrimmed (Decimal.digitsOf n) = integer n := by
  have hdigits : ∀ c ∈ Decimal.digitsOf n, c.isDigit = true :=
    fun _ => Decimal.isDigit_of_mem_digitsOf
  have hsign : Decimal.takeSign (Decimal.digitsOf n) = (false, Decimal.digitsOf n) := by
    rw [Decimal.takeSign.eq_def]
    split
    · next heq => cases hdigits '-' (heq ▸ List.mem_cons_self)
    · next heq => cases hdigits '+' (heq ▸ List.mem_cons_self)
    · rfl
  have hvalue : (n : Int) =
      if false then -(Decimal.valueOf (Decimal.digitsOf n) : Int)
      else Decimal.valueOf (Decimal.digitsOf n) := by
    rw [Decimal.valueOf_digitsOf]
    rfl
  have hlower : -Int.pow 2 63 ≤ (n : Int) := Int.le_trans (by decide) (Int.natCast_nonneg n)
  have hinteger : readInteger? (Decimal.digitsOf n) = some (n : Int) :=
    (readInteger?_eq_some_iff hsign).2 ⟨Nat.toDigits_ne_nil, hdigits, hvalue, hlower, h⟩
  rw [ofTrimmed, hinteger]

namespace LogLevel

/-- The name of a level, in lower case. -/
def name : LogLevel → String
  | off => "off"
  | error => "error"
  | warn => "warn"
  | info => "info"
  | debug => "debug"
  | trace => "trace"

/-- Each level is the one of its name. -/
theorem ofWord?_name (level : LogLevel) : ofWord? level.name.toList = some level := by
  cases level <;> decide

/-- A word that is the name of a level in some letter case is typed as a text, and the level is
read from it. -/
theorem readLogLevel_of_map_toLower {level : LogLevel} {word : List Char}
    (h : word.map Char.toLower = level.name.toList) :
    DocumentValue.ofTrimmed word = .text (String.ofList word) ∧
      readLogLevel (String.ofList word) = .ok level := by
  have halpha : ∀ c ∈ word, c.isAlpha = true := by
    intro c hc
    have hname : ∀ d ∈ level.name.toList, d.isAlpha = true :=
      List.all_eq_true.1 (by cases level <;> rfl)
    rw [← Char.isAlpha_toLower_eq_isAlpha]
    exact hname _ (h ▸ List.mem_map_of_mem hc)
  constructor
  · cases word with
    | nil => cases level <;> cases h
    | cons c cs =>
      have hletter := (Text.isLetter_and_lowerChar_of_isAlpha (halpha c List.mem_cons_self)).1
      refine DocumentValue.ofTrimmed_of_isLetter hletter ?_
      rw [h]
      cases level <;> decide
  · rw [readLogLevel, String.toList_ofList, Text.lowercase_of_isAlpha halpha, h]
    simp only [ofWord?_name]

end LogLevel

namespace Document

/-- Adding the keys of a template keeps the values under a key that is there already. -/
theorem get?_addKeys (keys : List String) {part : Section} {key : String}
    {values : Option (List DocumentValue)} (h : part.get? key = some values) :
    (keys.foldl (fun (part : Section) key => match part.get? key with
      | some _ => part
      | none => part.put key none) part).get? key = some values := by
  induction keys generalizing part with
  | nil => exact h
  | cons added keys ih =>
    rw [List.foldl_cons]
    refine ih ?_
    split
    · exact h
    · next hnone =>
      have hne : added ≠ key := by
        rintro rfl
        rw [hnone] at h
        cases h
      rw [Entries.get?_put, if_neg hne, h]

/-- Completing a document to a template keeps the values under the keys of a section that is there
already. -/
theorem get?_complete (template : List (String × List String)) {document : Document}
    {title : String} {part : Section} (h : document.get? title = some part) :
    ∃ completed, (document.complete template).get? title = some completed ∧
      ∀ key values, part.get? key = some values → completed.get? key = some values := by
  induction template generalizing document part with
  | nil => exact ⟨part, h, fun _ _ => id⟩
  | cons entry template ih =>
    rw [complete, List.foldl_cons]
    by_cases htitle : entry.1 = title
    · have hput := Entries.get?_put document entry.1 title
      simp only [htitle, if_true, h, Option.getD_some] at hput ⊢
      obtain ⟨completed, hcompleted, hkept⟩ := ih (hput _)
      exact ⟨completed, hcompleted, fun key values hvalues =>
        hkept key values (get?_addKeys entry.2 hvalues)⟩
    · refine ih ?_
      rw [Entries.get?_put, if_neg htitle, h]

/-- The tokens of the pair that counts under a key: the last one of the section. -/
def WrittenSection.tokensOf? (s : WrittenSection) (key : String) : Option (List (List Char)) :=
  (s.pairs.findRev? (·.key.name == key)).map fun p => p.tokens.map (·.chars)

/-- A document that is read and completed has under each key of its last section of a title the
values of the tokens that count there. -/
theorem exists_read_complete {sections : List WrittenSection} {all : List (List Char)}
    (hlines : Interspersed (sections.flatMap (·.lines)) all)
    (template : List (String × List String)) {title : String} {s : WrittenSection}
    (hsection : sections.findRev? (·.title.name == title) = some s) :
    ∃ (document : Document) (part : Section),
      Document.read template (String.ofList (['\n'].intercalate all)) = .ok document ∧
      document.get? title = some part ∧
      ∀ key tokens, s.tokensOf? key = some tokens →
        part.get? key = some (some (tokens.map DocumentValue.ofTrimmed)) := by
  have hne : sections ≠ [] := by
    rintro rfl
    cases hsection
  have hfound : (ofSections (sections.map (·.entry))).get? title =
      some (.ofList (s.pairs.map fun p => (p.key.name, some (p.tokens.map (·.value))))) := by
    rw [get?_ofSections, hsection, Option.map_some]
  obtain ⟨part, hpart, hkept⟩ := get?_complete template hfound
  refine ⟨_, part, read_of_interspersed hne hlines template, hpart, fun key tokens htokens => ?_⟩
  obtain ⟨p, hp, rfl⟩ := Option.map_eq_some_iff.1 htokens
  have hvalues : p.tokens.map (·.value) = (p.tokens.map (·.chars)).map DocumentValue.ofTrimmed := by
    rw [List.map_map]
    rfl
  refine hkept key _ ?_
  rw [Entries.get?_ofList_map, hp, Option.map_some, hvalues]

end Document

namespace Settings

/-- A section shows settings if the tokens that count in it are the unknowns, the decimal digits of
the nesting limit, and the name of the log level in some letter case. -/
structure ShownBy (settings : Settings) (s : WrittenSection) : Prop where
  unknowns : s.tokensOf? "unknowns" = some (settings.unknowns.map fun c => [c])
  nestingLimit : s.tokensOf? "max_depth" = some [Decimal.digitsOf settings.nestingLimit]
  logLevel : ∃ word, s.tokensOf? "loglevel" = some [word] ∧
    word.map Char.toLower = settings.logLevel.name.toList

/-- Settings are valid if each unknown is one that an expression can use and the nesting limit is
in its bounds. -/
theorem validate_eq_ok_iff {settings : Settings} :
    settings.validate = .ok settings ↔ (∀ c ∈ settings.unknowns, isUnknownSymbol c = true) ∧
      0 < settings.nestingLimit ∧ settings.nestingLimit ≤ greatestNestingLimit := by
  have hrefused : refusedUnknown? settings.unknowns = none ↔
      ∀ c ∈ settings.unknowns, isUnknownSymbol c = true := by simp [refusedUnknown?]
  rw [← hrefused, validate]
  cases refusedUnknown? settings.unknowns with
  | some c => simp
  | none =>
    simp only [true_and]
    split
    · next hbad =>
      refine ⟨nofun, fun hgood => ?_⟩
      omega
    · next hgood =>
      refine ⟨fun _ => ?_, fun _ => rfl⟩
      omega

variable {part : Section} {settings base : Settings}

/-- An unknown is typed as a text and read back from it. -/
theorem oneCharacter_ofTrimmed {c : Char} (h : isUnknownSymbol c = true) :
    oneCharacter (DocumentValue.ofTrimmed [c]).toText = .ok c := by
  have hletter : Text.isLetter c = true := (Bool.and_eq_true_iff.1 h).1
  rw [DocumentValue.ofTrimmed_of_isLetter hletter (by simp), DocumentValue.toText, oneCharacter,
    String.toList_ofList]

/-- Unknowns are read back from their tokens. -/
theorem mapM_oneCharacter {unknowns : List Char} (h : ∀ c ∈ unknowns, isUnknownSymbol c = true) :
    ((unknowns.map fun c => [c]).map DocumentValue.ofTrimmed).mapM
      (fun v => oneCharacter v.toText) = .ok unknowns := by
  induction unknowns with
  | nil => rfl
  | cons c cs ih =>
    obtain ⟨hc, hcs⟩ := List.forall_mem_cons.1 h
    rw [List.map_cons, List.map_cons, List.mapM_cons, oneCharacter_ofTrimmed hc, ih hcs]
    rfl

/-- The unknowns of a section are those of its tokens. -/
theorem readUnknowns_eq {unknowns : List Char} (h : ∀ c ∈ unknowns, isUnknownSymbol c = true)
    (hpart : part.get? "unknowns" =
      some (some ((unknowns.map fun c => [c]).map DocumentValue.ofTrimmed))) :
    readUnknowns part base = .ok { base with unknowns } := by
  rw [readUnknowns, valuesOf?, hpart]
  simp only [Option.join_some, mapM_oneCharacter h]
  rfl

/-- The nesting limit of a section is the one of its digits. -/
theorem readNestingLimit_eq {n : Nat} (hpos : 0 < n) (hle : n ≤ greatestNestingLimit)
    (hpart : part.get? "max_depth" =
      some (some ([Decimal.digitsOf n].map DocumentValue.ofTrimmed))) :
    readNestingLimit part base = .ok { base with nestingLimit := n } := by
  have hfits : (n : Int) < Int.pow 2 63 :=
    Int.lt_of_le_of_lt (Int.ofNat_le.2 hle) (by decide)
  rw [readNestingLimit, valuesOf?, hpart, List.map_singleton,
    DocumentValue.ofTrimmed_digitsOf hfits]
  exact if_pos (Int.natCast_pos.2 hpos)

/-- The log level of a section is the one of its name. -/
theorem readLogLevelOf_eq {level : LogLevel} {word : List Char}
    (hword : word.map Char.toLower = level.name.toList)
    (hpart : part.get? "loglevel" = some (some ([word].map DocumentValue.ofTrimmed))) :
    readLogLevelOf part base = .ok { base with logLevel := level } := by
  obtain ⟨htyped, hlevel⟩ := LogLevel.readLogLevel_of_map_toLower hword
  rw [readLogLevelOf, valuesOf?, hpart, List.map_singleton, htyped]
  exact congrArg (· >>= fun logLevel => .ok { base with logLevel }) hlevel

/-- Valid settings are read back from every document that shows them, whatever lines that carry
nothing stand between its lines. -/
theorem ofText_of_shownBy (hvalid : settings.validate = .ok settings)
    {sections : List WrittenSection} {s : WrittenSection}
    (hsection : sections.findRev? (·.title.name == "engine") = some s) (hshown : settings.ShownBy s)
    {all : List (List Char)} (hlines : Interspersed (sections.flatMap (·.lines)) all) :
    ofText (String.ofList (['\n'].intercalate all)) = .ok settings := by
  obtain ⟨hunknowns, hpos, hle⟩ := validate_eq_ok_iff.1 hvalid
  obtain ⟨document, part, hread, hpart, hvalues⟩ :=
    Document.exists_read_complete hlines template hsection
  obtain ⟨word, htokens, hword⟩ := hshown.logLevel
  have hfields : ofSection part = .ok settings := by
    rw [ofSection, readUnknowns_eq hunknowns (hvalues _ _ hshown.unknowns)]
    change (readNestingLimit part _ >>= readLogLevelOf part) = _
    rw [readNestingLimit_eq hpos hle (hvalues _ _ hshown.nestingLimit)]
    exact readLogLevelOf_eq hword (hvalues _ _ htokens)
  rw [ofText, hread]
  simp only [hpart, Option.getD_some, hfields, hvalid]

/-- An earlier section, an earlier pair and keys of other names make no difference, nor do the words
of another section. -/
theorem ofText_repeatedUnknowns :
    ofText ("engine\n  max_depth: 0\n  loglevel: loud, 1e5\n" ++
      "notes\n  engine: true, inf\n# later\n" ++
      "engine\n  unknowns: e, pi\n  max_depth: 64\n  colour: \n  loglevel: dEbuG\n" ++
      "  unknowns: x, λ\n") = .ok ⟨['x', 'λ'], 64, .debug⟩ := by
  let engine : Word := ⟨'e', "ngine".toList, rfl, List.all_eq_true.1 rfl⟩
  let notes : Word := ⟨'n', "otes".toList, rfl, List.all_eq_true.1 rfl⟩
  let unknowns : Word := ⟨'u', "nknowns".toList, rfl, List.all_eq_true.1 rfl⟩
  let limit : Word := ⟨'m', "ax_depth".toList, rfl, List.all_eq_true.1 rfl⟩
  let level : Word := ⟨'l', "oglevel".toList, rfl, List.all_eq_true.1 rfl⟩
  let colour : Word := ⟨'c', "olour".toList, rfl, List.all_eq_true.1 rfl⟩
  let token (cs : List Char) (hne : cs ≠ [])
      (hchars : (cs.all fun c => !Text.isBlank c && c != ',' && c != ';') = true) : Token :=
    ⟨cs, hne, by simpa [and_assoc] using hchars⟩
  let first : WrittenSection := ⟨engine, [⟨limit, [token "0".toList nofun rfl]⟩,
    ⟨level, [token "loud".toList nofun rfl, token "1e5".toList nofun rfl]⟩], List.cons_ne_nil _ _⟩
  let second : WrittenSection := ⟨notes, [⟨engine, [token "true".toList nofun rfl,
    token "inf".toList nofun rfl]⟩], List.cons_ne_nil _ _⟩
  let third : WrittenSection := ⟨engine, [⟨unknowns, [token "e".toList nofun rfl,
    token "pi".toList nofun rfl]⟩, ⟨limit, [token "64".toList nofun rfl]⟩, ⟨colour, []⟩,
    ⟨level, [token "dEbuG".toList nofun rfl]⟩,
    ⟨unknowns, [token "x".toList nofun rfl, token "λ".toList nofun rfl]⟩], List.cons_ne_nil _ _⟩
  have hcomment : IsNoise "# later".toList := Document.isComment_iff.1 rfl
  have hlines : Interspersed ([first, second, third].flatMap (·.lines))
      (first.lines ++ second.lines ++ ["# later".toList] ++ third.lines ++ [[]]) :=
    .line _ (.line _ (.line _ (.line _ (.line _ (.noise (by decide) hcomment (.line _ (.line _
      (.line _ (.line _ (.line _ (.line _ (.noise nofun (.inl rfl) .nil))))))))))))
  have hvalid : validate ⟨['x', 'λ'], 64, .debug⟩ = .ok ⟨['x', 'λ'], 64, .debug⟩ :=
    validate_eq_ok_iff.2 ⟨List.all_eq_true.1 (by decide +kernel), by decide, by decide⟩
  have hshown : ShownBy ⟨['x', 'λ'], 64, .debug⟩ third :=
    ⟨rfl, rfl, "dEbuG".toList, rfl, rfl⟩
  refine (congrArg ofText ?_).trans (ofText_of_shownBy hvalid rfl hshown hlines)
  decide +kernel

end Settings

end Calculator
