import Calculator.Document.Parser
import Calculator.Proofs.Syntax.Blanks
import Calculator.Proofs.Text.Trim

/-!
# Layout of documents

A document is written as lines: the title of a section, then a line for each of its pairs, which is
indented and lists the tokens with commas between them. Lines that carry nothing may stand anywhere
between these, and leaving them out gives the written lines back.
-/

namespace Calculator.Document

open Text (isBlank trim trimEnd)

/-- A title or a key. -/
structure Word where
  first : Char
  rest : List Char
  starts : startsWord first = true
  continues : ∀ c ∈ rest, isWordChar c = true

/-- The text of a value: not empty, with no blanks, no commas and no semicolons. -/
structure Token where
  chars : List Char
  nonempty : chars ≠ []
  unbroken : ∀ c ∈ chars, isBlank c = false ∧ c ≠ ',' ∧ c ≠ ';'

/-- A key with tokens, of which there may be none. -/
structure WrittenPair where
  key : Word
  tokens : List Token

/-- A title with one or more pairs. -/
structure WrittenSection where
  title : Word
  pairs : List WrittenPair
  nonempty : pairs ≠ []

/-- The characters of a word. -/
def Word.chars (w : Word) : List Char :=
  w.first :: w.rest

/-- A word as a title or a key of a document. -/
def Word.name (w : Word) : String :=
  String.ofList w.chars

/-- The value that a token is read as. -/
def Token.value (t : Token) : DocumentValue :=
  .ofTrimmed t.chars

/-- The tokens of a pair with commas between them. -/
def WrittenPair.list (p : WrittenPair) : List Char :=
  ", ".toList.intercalate (p.tokens.map (·.chars))

/-- The line of a pair. -/
def WrittenPair.line (p : WrittenPair) : List Char :=
  "  ".toList ++ p.key.chars ++ ": ".toList ++ p.list

/-- The lines of a section. -/
def WrittenSection.lines (s : WrittenSection) : List (List Char) :=
  s.title.chars :: s.pairs.map (·.line)

/-- A line that carries nothing: it is blank, or what stands in it starts with a comment mark. -/
def IsNoise (line : List Char) : Prop :=
  trim line = [] ∨ ∃ mark ∈ ["//", "#", "%", ";"], mark.toList <+: trim line

/-- Lines with others between them that carry nothing. -/
inductive Interspersed : List (List Char) → List (List Char) → Prop
  | nil : Interspersed [] []
  | line {lines all : List (List Char)} (line : List Char) (h : Interspersed lines all) :
    Interspersed (line :: lines) (line :: all)
  | noise {lines all : List (List Char)} {line : List Char} (hbreak : '\n' ∉ line)
    (hnoise : IsNoise line) (h : Interspersed lines all) : Interspersed lines (line :: all)

section Characters

variable {c : Char}

/-- No character of a word is blank. -/
theorem isBlank_of_isWordChar (h : isWordChar c = true) : isBlank c = false := by
  by_contra hblank
  have hword := Text.eq_false_of_isBlank (f := isWordChar) (by decide) (eq_true_of_ne_false hblank)
  rw [h] at hword
  cases hword

/-- A word may go on with what it may start with. -/
theorem isWordChar_of_startsWord (h : startsWord c = true) : isWordChar c = true := by
  simp only [startsWord, isWordChar, Char.isAlphanum, Bool.or_eq_true] at h ⊢
  exact h.imp_left .inl

/-- Gaps are blank. -/
theorem isBlank_of_isGap (h : isGap c = true) : isBlank c = true := by
  simp only [isGap, Bool.or_eq_true, beq_iff_eq] at h
  rcases h with rfl | rfl <;> rfl

/-- What is no blank differs from every blank. -/
theorem ne_of_isBlank {d : Char} (hc : isBlank c = false) (hd : isBlank d = true) : c ≠ d := by
  rintro rfl
  rw [hc] at hd
  cases hd

theorem isGap_of_isBlank (h : isBlank c = false) : isGap c = false :=
  eq_false_of_ne_true fun hgap => ne_of_isBlank h (isBlank_of_isGap hgap) rfl

end Characters

namespace Word

variable (w : Word)

theorem isWordChar_of_mem {c : Char} (hc : c ∈ w.chars) : isWordChar c = true := by
  rcases List.mem_cons.1 hc with rfl | hc
  · exact isWordChar_of_startsWord w.starts
  · exact w.continues c hc

theorem isBlank_of_mem {c : Char} (hc : c ∈ w.chars) : isBlank c = false :=
  isBlank_of_isWordChar (w.isWordChar_of_mem hc)

/-- A word stays in front of what is trimmed. -/
theorem trim_append (cs : List Char) : trim (w.chars ++ cs) = w.chars ++ trimEnd cs :=
  Text.trim_append (List.cons_ne_nil _ _)
    (fun _ hc => w.isBlank_of_mem (List.mem_of_mem_head? hc))
    (fun _ hc => w.isBlank_of_mem (List.mem_of_getLast? hc))

end Word

/-- A line that starts with a word, after blanks, carries something. -/
theorem not_isNoise_of_trim_eq {line cs : List Char} {w : Word} (h : trim line = w.chars ++ cs) :
    ¬IsNoise line := by
  rintro (hnil | ⟨mark, hmark, hprefix⟩)
  · rw [h] at hnil
    cases hnil
  · rw [h] at hprefix
    have hfirst := w.starts
    simp only [List.mem_cons, List.not_mem_nil, or_false] at hmark
    rcases hmark with rfl | rfl | rfl | rfl
    all_goals
      obtain ⟨_, heq⟩ := hprefix
      obtain ⟨hc, -⟩ := List.cons.inj heq
      rw [← hc] at hfirst
      cases hfirst

/-- The lines that are left out are those that carry nothing. -/
theorem isComment_iff {line : List Char} : isComment line = true ↔ IsNoise line := by
  have hmarks : "//".toList = ['/', '/'] ∧ "#".toList = ['#'] ∧ "%".toList = ['%'] ∧
      ";".toList = [';'] := ⟨rfl, rfl, rfl, rfl⟩
  rw [isComment, IsNoise]
  split
  · simp [*]
  · next h => simp [h, hmarks]
  · next c cs hnot h =>
    have hslash : ¬['/', '/'] <+: c :: cs := by
      rw [List.cons_prefix_cons]
      rintro ⟨rfl, ds, rfl⟩
      exact hnot ds rfl rfl
    have hmark (d : Char) : [d] <+: c :: cs ↔ c = d := by
      rw [List.cons_prefix_cons, eq_comm]
      exact and_iff_left List.nil_prefix
    simp [h, hmarks, hslash, hmark, or_assoc]

/-- Texts with a separator between them are the first one, and then each with the separator before
it. -/
theorem intercalate_cons (separator part : List Char) (parts : List (List Char)) :
    separator.intercalate (part :: parts) = part ++ parts.flatMap (separator ++ ·) := by
  induction parts generalizing part with
  | nil => simp [List.intercalate]
  | cons next parts ih =>
    rw [List.intercalate_cons_cons, ih, List.flatMap_cons, List.append_assoc, List.append_assoc]

/-- A line that carries something and stands on one line whatever ends it. -/
structure IsContent (line : List Char) : Prop where
  unbroken : ∀ c ∈ line, c ≠ '\n' ∧ c ≠ '\r'
  carries : ¬IsNoise line

theorem Word.isContent (w : Word) : IsContent w.chars where
  unbroken c hc := by
    have hblank := w.isBlank_of_mem hc
    exact ⟨ne_of_isBlank hblank rfl, ne_of_isBlank hblank rfl⟩
  carries := by
    have htrim := w.trim_append []
    rw [List.append_nil] at htrim
    exact not_isNoise_of_trim_eq htrim

theorem WrittenPair.line_eq (p : WrittenPair) :
    p.line = ' ' :: ' ' :: (p.key.chars ++ ':' :: ' ' :: p.list) := by
  simp [line]

/-- The line of a pair without its indent: the key, the colon, and what follows. -/
theorem WrittenPair.trim_line_append (p : WrittenPair) (cs : List Char) :
    trim (p.line ++ cs) = p.key.chars ++ ':' :: trimEnd (' ' :: (p.list ++ cs)) := by
  have hspace : isBlank ' ' = true := rfl
  have hcolon : ∀ c ∈ [':'].getLast?, isBlank c = false := by simp; rfl
  have hassoc : p.line ++ cs = ' ' :: ' ' :: (p.key.chars ++ ([':'] ++ ' ' :: (p.list ++ cs))) := by
    rw [line_eq]
    simp
  rw [hassoc, Text.trim_cons_blank hspace, Text.trim_cons_blank hspace, Word.trim_append,
    Text.trimEnd_append hcolon]
  rfl

/-- No line ends within a list of tokens. -/
theorem WrittenPair.ne_of_mem_list (p : WrittenPair) {c : Char} (hc : c ∈ p.list) :
    c ≠ '\n' ∧ c ≠ '\r' := by
  have htoken {t : Token} (hc : c ∈ t.chars) : c ≠ '\n' ∧ c ≠ '\r' := by
    have hblank := (t.unbroken c hc).1
    exact ⟨ne_of_isBlank hblank rfl, ne_of_isBlank hblank rfl⟩
  rw [list] at hc
  cases htokens : p.tokens with
  | nil =>
    rw [htokens] at hc
    cases hc
  | cons t ts =>
    rw [htokens, List.map_cons, intercalate_cons] at hc
    rcases List.mem_append.1 hc with hc | hc
    · exact htoken hc
    · obtain ⟨part, hpart, hc⟩ := List.mem_flatMap.1 hc
      obtain ⟨t, -, rfl⟩ := List.mem_map.1 hpart
      rcases List.mem_append.1 hc with hc | hc
      · have hseparator : c = ',' ∨ c = ' ' := by simpa using hc
        rcases hseparator with rfl | rfl <;> decide
      · exact htoken hc

theorem WrittenPair.isContent (p : WrittenPair) : IsContent p.line where
  unbroken c hc := by
    rw [line_eq] at hc
    simp only [List.mem_cons, List.mem_append] at hc
    rcases hc with rfl | rfl | hc | rfl | rfl | hc
    · decide
    · decide
    · exact p.key.isContent.unbroken c hc
    · decide
    · decide
    · exact p.ne_of_mem_list hc
  carries := by
    have htrim := p.trim_line_append []
    rw [List.append_nil] at htrim
    exact not_isNoise_of_trim_eq htrim

/-- Every line of a section carries something. -/
theorem WrittenSection.isContent (s : WrittenSection) : ∀ line ∈ s.lines, IsContent line :=
  List.forall_mem_cons.2 ⟨s.title.isContent, List.forall_mem_map.2 fun p _ => p.isContent⟩

/-- A carriage return that is dropped at the end of a line makes no difference. -/
theorem isComment_dropReturn (line : List Char) :
    isComment (linesOf.dropReturn line) = isComment line := by
  have htrim : trim (linesOf.dropReturn line) = trim line := by
    rw [linesOf.dropReturn]
    split
    · next h =>
      obtain ⟨cs, rfl⟩ := List.getLast?_eq_some_iff.1 h
      rw [List.dropLast_concat, Text.trim_append_blank rfl]
    · rfl
  rw [isComment, isComment, htrim]

namespace Interspersed

variable {lines all : List (List Char)}

/-- Among the lines those that carry something are the ones that are interspersed. -/
theorem filter_eq (h : Interspersed lines all) (hlines : ∀ line ∈ lines, IsContent line) :
    (all.filter fun line => !isComment line) = lines := by
  induction h with
  | nil => rfl
  | line line _ ih =>
    obtain ⟨hline, hlines⟩ := List.forall_mem_cons.1 hlines
    have hkept : isComment line = false :=
      eq_false_of_ne_true fun hcomment => hline.carries (isComment_iff.1 hcomment)
    rw [List.filter_cons_of_pos (by simp [hkept]), ih hlines]
  | noise _ hnoise _ ih =>
    rw [List.filter_cons_of_neg (by simp [isComment_iff.2 hnoise]), ih hlines]

/-- No line goes on after its end. -/
theorem not_mem_of_mem (h : Interspersed lines all) (hlines : ∀ line ∈ lines, IsContent line) :
    ∀ line ∈ all, '\n' ∉ line := by
  induction h with
  | nil => exact nofun
  | line line _ ih =>
    obtain ⟨hline, hlines⟩ := List.forall_mem_cons.1 hlines
    exact List.forall_mem_cons.2 ⟨fun hmem => (hline.unbroken _ hmem).1 rfl, ih hlines⟩
  | noise hbreak _ _ ih => exact List.forall_mem_cons.2 ⟨hbreak, ih hlines⟩

/-- The lines that carry something are found in the text of all lines. -/
theorem filter_linesOf (h : Interspersed lines all) (hlines : ∀ line ∈ lines, IsContent line)
    (hne : all ≠ []) :
    ((linesOf (['\n'].intercalate all)).filter fun line => !isComment line) = lines := by
  have hkept : ∀ line ∈ lines, linesOf.dropReturn line = line := by
    intro line hline
    rw [linesOf.dropReturn, if_neg]
    intro hlast
    exact ((hlines line hline).unbroken _ (List.mem_of_getLast? hlast)).2 rfl
  have hfilter := h.filter_eq hlines
  have hcomposed : ((fun line => !isComment line) ∘ linesOf.dropReturn) =
      fun line => !isComment line := by
    funext line
    simp [isComment_dropReturn]
  rw [← List.dropLast_concat_getLast hne, List.filter_append] at hfilter
  have hmap : (all.dropLast.filter fun line => !isComment line).map linesOf.dropReturn =
      all.dropLast.filter fun line => !isComment line :=
    (List.map_congr_left fun line hline =>
      hkept line (hfilter ▸ List.mem_append_left _ hline)).trans (List.map_id _)
  -- A carriage return is dropped from all lines but the last one, which no line feed ends.
  simp only [linesOf]
  rw [List.splitOn_intercalate '\n' (h.not_mem_of_mem hlines) hne,
    List.getLast?_eq_some_getLast hne, List.filter_append, List.filter_map, hcomposed, hmap]
  exact hfilter

end Interspersed

/-- Lines below another one. -/
def below (lines : List (List Char)) : List Char :=
  lines.flatMap ('\n' :: ·)

/-- Without comments, and trimmed, a text has the lines that carry something. -/
theorem withoutComments_eq {lines all : List (List Char)} (h : Interspersed lines all)
    (hlines : ∀ line ∈ lines, IsContent line) (hne : lines ≠ []) :
    withoutComments (['\n'].intercalate all) = trim (below lines) := by
  have hall : all ≠ [] := by
    rintro rfl
    cases h
    exact hne rfl
  obtain ⟨line, rest, rfl⟩ := List.exists_cons_of_ne_nil hne
  have hbelow : below (line :: rest) = '\n' :: (line ++ below rest) := rfl
  rw [withoutComments, h.filter_linesOf hlines hall, intercalate_cons, hbelow,
    Text.trim_cons_blank rfl]
  rfl

end Calculator.Document
