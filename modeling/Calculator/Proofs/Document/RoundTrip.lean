import Calculator.Proofs.Document.Entries
import Calculator.Proofs.Document.Layout
import Calculator.Settings.Basic

/-!
# Reading documents back

A document that is written in lines is read back: each section with its own pairs, each pair with
its own tokens. Every reader stops at the end of its line, and what is left for the next one, which
is trimmed, is what stands below that line.
-/

namespace Calculator

open Text (trim trimEnd)

namespace Document

/-- The text goes on with the end of a line, if it goes on. -/
def AtLineEnd (cs : List Char) : Prop :=
  ∀ c ∈ cs.head?, c = '\n'

section Readers

variable {cs : List Char}

/-- What stands below a line starts with its end. -/
theorem atLineEnd_below (lines : List (List Char)) : AtLineEnd (below lines) := by
  cases lines with
  | nil => exact nofun
  | cons line lines => simp [below, AtLineEnd]

/-- Trimming does not bring in what a line could go on with. -/
theorem AtLineEnd.trimEnd (h : AtLineEnd cs) : AtLineEnd (trimEnd cs) := by
  cases cs with
  | nil => exact h
  | cons c cs =>
    rw [Text.trimEnd_cons]
    split
    · exact nofun
    · exact h

/-- No gap is dropped at the end of a line. -/
theorem AtLineEnd.dropWhile_isGap (h : AtLineEnd cs) : cs.dropWhile isGap = cs := by
  cases cs with
  | nil => rfl
  | cons c cs =>
    obtain rfl : c = '\n' := h c rfl
    rfl

/-- The end of a line is no colon. -/
theorem AtLineEnd.afterColon?_eq (h : AtLineEnd cs) : afterColon? cs = none := by
  rw [afterColon?, h.dropWhile_isGap]
  split
  · cases h ':' rfl
  · rfl

/-- The end of a line is no comma. -/
theorem AtLineEnd.laterValue?_eq (h : AtLineEnd cs) : laterValue? cs = none := by
  rw [laterValue?, h.dropWhile_isGap]
  split
  · cases h ',' rfl
  · rfl

/-- No value starts at the end of a line. -/
theorem AtLineEnd.value?_eq (h : AtLineEnd cs) : value? cs = none := by
  cases cs with
  | nil => rfl
  | cons c cs =>
    obtain rfl : c = '\n' := h c rfl
    rfl

/-- A run of characters of a kind is taken whole if what follows starts with another kind. -/
theorem takeWhile_append_eq {f : Char → Bool} {run rest : List Char} (hrun : ∀ c ∈ run, f c = true)
    (hrest : ∀ c ∈ rest.head?, f c = false) :
    (run ++ rest).takeWhile f = run ∧ (run ++ rest).dropWhile f = rest := by
  rw [List.takeWhile_append_of_pos hrun, List.dropWhile_append_of_pos hrun]
  cases rest with
  | nil => simp
  | cons c rest =>
    have hc : f c = false := hrest c rfl
    simp [hc]

/-- A word is read where no character follows that it could go on with. -/
theorem word?_append (w : Word) (hrest : ∀ c ∈ cs.head?, isWordChar c = false) :
    word? (w.chars ++ cs) = some (w.name, cs) := by
  obtain ⟨htake, hdrop⟩ := takeWhile_append_eq w.continues hrest
  rw [Word.chars, List.cons_append, word?, if_pos w.starts, htake, hdrop]
  rfl

/-- A value goes on with every character of a token. -/
theorem Token.isTokenChar_of_mem (t : Token) {c : Char} (hc : c ∈ t.chars) :
    isTokenChar c = true := by
  obtain ⟨hblank, hcomma, hsemicolon⟩ := t.unbroken c hc
  have hspace : c ≠ ' ' := ne_of_isBlank hblank rfl
  have htab : c ≠ '\t' := ne_of_isBlank hblank rfl
  have hfeed : c ≠ '\n' := ne_of_isBlank hblank rfl
  have hreturn : c ≠ '\r' := ne_of_isBlank hblank rfl
  simp [isTokenChar, hcomma, hsemicolon, hspace, htab, hfeed, hreturn]

/-- A token has no blanks that could be trimmed. -/
theorem Token.trim_chars (t : Token) : trim t.chars = t.chars := by
  have happend : trim (t.chars ++ []) = t.chars ++ [] :=
    Text.trim_append t.nonempty (fun c hc => (t.unbroken c (List.mem_of_mem_head? hc)).1)
      (fun c hc => (t.unbroken c (List.mem_of_getLast? hc)).1)
  rwa [List.append_nil] at happend

/-- A token is read as it is. -/
theorem Token.value_eq (t : Token) : DocumentValue.ofToken t.chars = t.value := by
  rw [DocumentValue.ofToken, t.trim_chars, Token.value]

/-- A token is read where no character follows that it could go on with. -/
theorem value?_append (t : Token) (hrest : ∀ c ∈ cs.head?, isTokenChar c = false) :
    value? (t.chars ++ cs) = some (t.value, cs) := by
  obtain ⟨c, token, htoken⟩ := List.exists_cons_of_ne_nil t.nonempty
  have hall : ∀ d ∈ c :: token, isTokenChar d = true := by
    intro d hd
    rw [← htoken] at hd
    exact t.isTokenChar_of_mem hd
  obtain ⟨hc, hall⟩ := List.forall_mem_cons.1 hall
  obtain ⟨htake, hdrop⟩ := takeWhile_append_eq hall hrest
  rw [← t.value_eq, htoken, List.cons_append, value?, if_pos hc, htake, hdrop]

/-- The tokens after the first one, each with the comma before it. -/
def laterTokens (ts : List Token) : List Char :=
  ts.flatMap fun t => ',' :: ' ' :: t.chars

theorem WrittenPair.list_eq_nil {p : WrittenPair} (h : p.tokens = []) : p.list = [] := by
  rw [list, h]
  rfl

theorem WrittenPair.list_eq_append {p : WrittenPair} {t : Token} {ts : List Token}
    (h : p.tokens = t :: ts) : p.list = t.chars ++ laterTokens ts := by
  rw [list, h, List.map_cons, intercalate_cons, laterTokens, List.flatMap_map]
  rfl

/-- No gap is dropped in front of a token. -/
theorem Token.dropWhile_isGap (t : Token) (cs : List Char) :
    (t.chars ++ cs).dropWhile isGap = t.chars ++ cs := by
  obtain ⟨c, token, htoken⟩ := List.exists_cons_of_ne_nil t.nonempty
  have hc : isGap c = false := isGap_of_isBlank (t.unbroken c (htoken ▸ List.mem_cons_self)).1
  rw [htoken, List.cons_append, List.dropWhile_cons_of_neg (by simp [hc])]

/-- No token goes on with the comma after it or past the end of its line. -/
theorem isTokenChar_of_head? (h : AtLineEnd cs) (ts : List Token) :
    ∀ c ∈ (laterTokens ts ++ cs).head?, isTokenChar c = false := by
  cases ts with
  | nil =>
    intro c hc
    obtain rfl : c = '\n' := h c hc
    rfl
  | cons t ts =>
    rintro c ⟨⟩
    rfl

/-- The tokens after the first one are read up to the end of the line. -/
theorem many_laterTokens (h : AtLineEnd cs) (ts : List Token) :
    laterValueReader.many (laterTokens ts ++ cs) = (ts.map (·.value), cs) := by
  induction ts with
  | nil => exact Reader.many_eq_nil h.laterValue?_eq
  | cons t ts ih =>
    have hread : laterValueReader.read (laterTokens (t :: ts) ++ cs) =
        some (t.value, laterTokens ts ++ cs) := by
      have htext : laterTokens (t :: ts) ++ cs =
          ',' :: ' ' :: (t.chars ++ (laterTokens ts ++ cs)) := by simp [laterTokens]
      rw [htext]
      change value? ((t.chars ++ (laterTokens ts ++ cs)).dropWhile isGap) = _
      rw [t.dropWhile_isGap, value?_append t (isTokenChar_of_head? h ts)]
    rw [Reader.many_eq_cons hread, ih]
    rfl

/-- The tokens of a pair are read up to the end of the line. -/
theorem values_list (p : WrittenPair) (h : AtLineEnd cs) :
    values (p.list ++ cs) = (p.tokens.map (·.value), cs) := by
  cases htokens : p.tokens with
  | nil =>
    rw [WrittenPair.list_eq_nil htokens, List.nil_append, values, h.value?_eq]
    rfl
  | cons t ts =>
    rw [WrittenPair.list_eq_append htokens, List.append_assoc, values,
      value?_append t (isTokenChar_of_head? h ts)]
    simp only [many_laterTokens h]
    rfl

/-- The tokens of a pair stay in front of what is trimmed. -/
theorem trimEnd_laterTokens (ts : List Token) (cs : List Char) :
    trimEnd (laterTokens ts ++ cs) = laterTokens ts ++ trimEnd cs := by
  induction ts with
  | nil => rfl
  | cons t ts ih =>
    have htext (cs : List Char) :
        laterTokens (t :: ts) ++ cs = ([',', ' '] ++ t.chars) ++ (laterTokens ts ++ cs) := by
      simp [laterTokens]
    have hlast : ∀ c ∈ ([',', ' '] ++ t.chars).getLast?, Text.isBlank c = false := by
      intro c hc
      rw [List.getLast?_append, List.getLast?_eq_some_getLast t.nonempty] at hc
      obtain rfl := Option.some.inj hc
      exact (t.unbroken _ (List.getLast_mem t.nonempty)).1
    rw [htext, Text.trimEnd_append hlast, ih, htext]

/-- After the colon of a pair stand its tokens and the end of the line, below which the text goes
on. -/
theorem exists_dropWhile_isGap_eq (p : WrittenPair) (lines : List (List Char)) :
    ∃ left, (trimEnd (' ' :: (p.list ++ below lines))).dropWhile isGap = p.list ++ left ∧
      AtLineEnd left ∧ trim left = trim (below lines) := by
  have hspace : Text.isBlank ' ' = true := rfl
  have hbelow := (atLineEnd_below lines).trimEnd
  cases htokens : p.tokens with
  | nil =>
    -- Without tokens the blank after the colon runs into the end of the line, or of the text.
    rw [WrittenPair.list_eq_nil htokens]
    refine ⟨_, rfl, ?_, ?_⟩
    · rw [List.nil_append, Text.trimEnd_cons]
      split
      · exact nofun
      · rw [List.dropWhile_cons_of_pos rfl, hbelow.dropWhile_isGap]
        exact hbelow
    · rw [List.nil_append, Text.trim_dropWhile (fun _ => isBlank_of_isGap), Text.trim_trimEnd,
        Text.trim_cons_blank hspace]
  | cons t ts =>
    have htrim : trimEnd (' ' :: (p.list ++ below lines)) =
        ' ' :: (t.chars ++ (laterTokens ts ++ trimEnd (below lines))) := by
      have hlast : ∀ c ∈ (' ' :: t.chars).getLast?, Text.isBlank c = false := by
        intro c hc
        rw [List.getLast?_cons_of_ne_nil t.nonempty] at hc
        exact (t.unbroken c (List.mem_of_getLast? hc)).1
      rw [WrittenPair.list_eq_append htokens, List.append_assoc, ← List.cons_append,
        Text.trimEnd_append hlast, trimEnd_laterTokens]
      rfl
    refine ⟨trimEnd (below lines), ?_, hbelow, Text.trim_trimEnd _⟩
    rw [htrim, List.dropWhile_cons_of_pos rfl, t.dropWhile_isGap,
      WrittenPair.list_eq_append htokens, List.append_assoc]

/-- The key of a pair with the values of its tokens. -/
def WrittenPair.entry (p : WrittenPair) : String × List DocumentValue :=
  (p.key.name, p.tokens.map (·.value))

/-- A pair is read off the first line, and what stands below is left. -/
theorem pair?_line (p : WrittenPair) (lines : List (List Char)) :
    pair? (trim (below (p.line :: lines))) = some (p.entry, trim (below lines)) := by
  have hbelow : below (p.line :: lines) = '\n' :: (p.line ++ below lines) := rfl
  obtain ⟨left, hleft, hend, htrim⟩ := exists_dropWhile_isGap_eq p lines
  have hcolon (cs : List Char) : afterColon? (':' :: cs) = some (cs.dropWhile isGap) := rfl
  rw [hbelow, Text.trim_cons_blank rfl, p.trim_line_append, pair?,
    word?_append p.key (by rintro c ⟨⟩; rfl)]
  simp only [hcolon, hleft, values_list p hend, htrim]
  rfl

/-- The line of a title goes on with its end. -/
theorem trim_below_title (w : Word) (lines : List (List Char)) :
    trim (below (w.chars :: lines)) = w.chars ++ trimEnd (below lines) := by
  have hbelow : below (w.chars :: lines) = '\n' :: (w.chars ++ below lines) := rfl
  rw [hbelow, Text.trim_cons_blank rfl, w.trim_append]

/-- A title is read off the first line. -/
theorem word?_title (w : Word) (lines : List (List Char)) :
    word? (trim (below (w.chars :: lines))) = some (w.name, trimEnd (below lines)) := by
  rw [trim_below_title]
  refine word?_append w fun c hc => ?_
  obtain rfl := (atLineEnd_below lines).trimEnd c hc
  rfl

/-- A title is no pair. -/
theorem pair?_title (w : Word) (lines : List (List Char)) :
    pair? (trim (below (w.chars :: lines))) = none := by
  rw [pair?, word?_title]
  simp only [(atLineEnd_below lines).trimEnd.afterColon?_eq]

/-- Pairs are read up to a line that is no pair. -/
theorem many_pairs (pairs : List WrittenPair) {lines : List (List Char)}
    (h : pair? (trim (below lines)) = none) :
    pairReader.many (trim (below (pairs.map (·.line) ++ lines))) =
      (pairs.map (·.entry), trim (below lines)) := by
  induction pairs with
  | nil => exact Reader.many_eq_nil h
  | cons p pairs ih =>
    have hread : pairReader.read (trim (below (p.line :: (pairs.map (·.line) ++ lines)))) =
        some (p.entry, trim (below (pairs.map (·.line) ++ lines))) := pair?_line p _
    rw [List.map_cons, List.cons_append, Reader.many_eq_cons hread, ih, List.map_cons]

/-- The title of a section with its pairs. -/
def WrittenSection.entry (s : WrittenSection) : String × List (String × List DocumentValue) :=
  (s.title.name, s.pairs.map (·.entry))

/-- A section is read off its lines, and what stands below is left. -/
theorem section?_lines (s : WrittenSection) {lines : List (List Char)}
    (h : pair? (trim (below lines)) = none) :
    Document.section? (trim (below (s.lines ++ lines))) =
      some (s.entry, trim (below lines)) := by
  have hgap (lines : List (List Char)) :
      (trim (below (s.title.chars :: lines))).dropWhile isGap =
        trim (below (s.title.chars :: lines)) := by
    have hfirst : isGap s.title.first = false :=
      isGap_of_isBlank (s.title.isBlank_of_mem List.mem_cons_self)
    rw [trim_below_title, Word.chars, List.cons_append,
      List.dropWhile_cons_of_neg (by simp [hfirst])]
  obtain ⟨p, pairs, hpairs⟩ := List.exists_cons_of_ne_nil s.nonempty
  have hread := many_pairs s.pairs h
  rw [hpairs, List.map_cons] at hread
  rw [WrittenSection.lines, List.cons_append, section?, hgap, word?_title]
  simp only [Text.trim_trimEnd, hpairs, List.map_cons, hread]
  rw [WrittenSection.entry, hpairs, List.map_cons]

/-- All sections are read. -/
theorem many_sections (sections : List WrittenSection) :
    sectionReader.many (trim (below (sections.flatMap (·.lines)))) =
      (sections.map (·.entry), []) := by
  induction sections with
  | nil => exact Reader.many_eq_nil rfl
  | cons s sections ih =>
    -- The pairs of a section end where the text does or where the next title stands.
    have hnext : pair? (trim (below (sections.flatMap (·.lines)))) = none := by
      cases sections with
      | nil => rfl
      | cons s sections => exact pair?_title s.title _
    have hread : sectionReader.read (trim (below (s.lines ++ sections.flatMap (·.lines)))) =
        some (s.entry, trim (below (sections.flatMap (·.lines)))) := section?_lines s hnext
    rw [List.flatMap_cons, Reader.many_eq_cons hread, ih, List.map_cons]

end Readers

/-- A written document is read as the entries of its sections, completed to a template. -/
theorem read_of_interspersed {sections : List WrittenSection} (hne : sections ≠ [])
    {all : List (List Char)} (h : Interspersed (sections.flatMap (·.lines)) all)
    (template : List (String × List String)) :
    Document.read template (String.ofList (['\n'].intercalate all)) =
      .ok ((ofSections (sections.map (·.entry))).complete template) := by
  have hcontent : ∀ line ∈ sections.flatMap (·.lines), IsContent line := by
    intro line hline
    obtain ⟨s, -, hline⟩ := List.mem_flatMap.1 hline
    exact s.isContent line hline
  obtain ⟨s, rest, rfl⟩ := List.exists_cons_of_ne_nil hne
  have hsections := many_sections (s :: rest)
  have hparse : parse? (withoutComments (['\n'].intercalate all)) =
      some (ofSections ((s :: rest).map (·.entry)), []) := by
    rw [withoutComments_eq h hcontent (List.cons_ne_nil _ _), parse?, hsections]
    rfl
  rw [Document.read, String.toList_ofList, hparse]
  rfl

/-- Under a title there are the keys of its last section, each with the values of its last pair. -/
theorem get?_ofSections (sections : List WrittenSection) (title : String) :
    (ofSections (sections.map (·.entry))).get? title =
      (sections.findRev? (·.title.name == title)).map fun s =>
        .ofList (s.pairs.map fun p => (p.key.name, some (p.tokens.map (·.value)))) := by
  rw [ofSections, List.map_map, Entries.get?_ofList_map]
  simp only [Function.comp_def, WrittenSection.entry, WrittenPair.entry, List.map_map]

/-- A written document is read as the map from each title to its last section, and in it from each
key to the values of its last pair, whatever lines that carry nothing stand between its lines. -/
theorem exists_read_eq_of_interspersed {sections : List WrittenSection} (hne : sections ≠ [])
    {all : List (List Char)} (h : Interspersed (sections.flatMap (·.lines)) all) :
    ∃ document : Document,
      Document.read [] (String.ofList (['\n'].intercalate all)) = .ok document ∧
      (document.Pairwise fun e f => e.1 ≠ f.1) ∧
      (∀ title, sections.findRev? (·.title.name == title) = none → document.get? title = none) ∧
      ∀ title s, sections.findRev? (·.title.name == title) = some s →
        ∃ part, document.get? title = some part ∧ (part.Pairwise fun e f => e.1 ≠ f.1) ∧
          ∀ key, part.get? key = (s.pairs.findRev? (·.key.name == key)).map fun p =>
            some (p.tokens.map (·.value)) := by
  have hread : Document.read [] (String.ofList (['\n'].intercalate all)) =
      .ok (ofSections (sections.map (·.entry))) := read_of_interspersed hne h []
  refine ⟨_, hread, Entries.pairwise_ofList _, fun title hnone => ?_, fun title s hsome => ?_⟩
  · rw [get?_ofSections, hnone]
    rfl
  · rw [get?_ofSections, hsome]
    exact ⟨_, rfl, Entries.pairwise_ofList _, fun key => Entries.get?_ofList_map _ _ key⟩

/-- Of two sections with one title the later one counts; a token may look like a comment. -/
theorem read_repeatedTitle :
    ∃ (document : Document) (part : Section),
      Document.read [] "engine\n  limit: 7\n\n# later\nengine\n  note: \n  mark: #:, 2\n" =
        .ok document ∧
      document.get? "engine" = some part ∧ part.get? "limit" = none ∧
      part.get? "note" = some (some []) ∧
      part.get? "mark" = some (some [.text "#:", .integer 2]) := by
  let engine : Word := ⟨'e', "ngine".toList, rfl, List.all_eq_true.1 rfl⟩
  let limit : Word := ⟨'l', "imit".toList, rfl, List.all_eq_true.1 rfl⟩
  let note : Word := ⟨'n', "ote".toList, rfl, List.all_eq_true.1 rfl⟩
  let mark : Word := ⟨'m', "ark".toList, rfl, List.all_eq_true.1 rfl⟩
  let seven : Token := ⟨['7'], by decide, List.forall_mem_singleton.2 (by decide)⟩
  let two : Token := ⟨['2'], by decide, List.forall_mem_singleton.2 (by decide)⟩
  let commentLike : Token := ⟨['#', ':'], by decide,
    List.forall_mem_cons.2 ⟨by decide, List.forall_mem_singleton.2 (by decide)⟩⟩
  let first : WrittenSection := ⟨engine, [⟨limit, [seven]⟩], by decide⟩
  let second : WrittenSection := ⟨engine, [⟨note, []⟩, ⟨mark, [commentLike, two]⟩], by decide⟩
  have hblank : IsNoise [] := .inl rfl
  have hcomment : IsNoise "# later".toList := isComment_iff.1 rfl
  have hlines : Interspersed ([first, second].flatMap (·.lines))
      (first.lines ++ [[], "# later".toList] ++ second.lines ++ [[]]) :=
    .line _ (.line _ (.noise nofun hblank (.noise (by decide) hcomment
      (.line _ (.line _ (.line _ (.noise nofun hblank .nil)))))))
  obtain ⟨document, hread, -, -, hsections⟩ :=
    exists_read_eq_of_interspersed (List.cons_ne_nil _ _) hlines
  obtain ⟨part, hpart, -, hpairs⟩ := hsections "engine" second rfl
  exact ⟨document, part, hread, hpart, hpairs "limit", hpairs "note", hpairs "mark"⟩

end Document

end Calculator
