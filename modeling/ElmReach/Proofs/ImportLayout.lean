import ElmReach.Proofs.CanonicalStatement
import ElmReach.Proofs.Layout
import ElmReach.Proofs.LineBreak
import Mathlib.Tactic.Common

/-!
# Imports in any layout

An import may be written with blanks and comments between its words, signs and entries, and it is
read as the same import. A name or an `as` word may be one of the words of the grammar, and an entry
may hold commas and blanks of its own: the name, the clause and the list are told apart by the order
in which they stand.
-/

namespace ElmReach

open Text Statement Comment

namespace Statement

variable {lexeme : Lexeme} {lexemes : List Lexeme}

/-- Signs and words are sound: they hold no blank, and no comment opens in them. -/
theorem Lexeme.sound_of_not_isBlank (hne : lexeme.text ≠ [])
    (hblanks : ∀ c ∈ lexeme.text, isBlank c = false)
    (hapart : lexeme.text.IsChain Apart) : lexeme.Sound where
  ne_nil := hne
  trimmed := ⟨fun c hc => hblanks c (List.mem_of_mem_head? hc),
    fun c hc => hblanks c (List.mem_of_mem_getLast? hc)⟩
  tidy := tidy_of_not_isBlank hblanks hapart

/-- A dotted name is a sound lexeme: it has no blank and no dash in it. -/
theorem Lexeme.sound_name (h : Name.IsDotted lexeme.text) : lexeme.Sound :=
  sound_of_not_isBlank h.ne_nil h.not_isBlank (isChain_of_isDotted h)

/-- A sign that is not blank is a sound lexeme. It does not have to stand apart from what is in
front of it. -/
theorem Lexeme.sound_sign {sign : Char} (h : isBlank sign = false) :
    Lexeme.Sound ⟨false, [sign]⟩ :=
  sound_of_not_isBlank (List.cons_ne_nil sign []) (by simpa using h) (.singleton sign)

/-- Anything can stand in front of a lexeme that does not start with a dash. -/
theorem Lexeme.Sound.joins_of_ne_dash (h : lexeme.Sound)
    (hdash : ∀ b ∈ lexeme.text.head?, b ≠ '-') (left : List Char) : Joins left lexeme.text :=
  fun _ _ b hb => fits_of_ne_dash (h.trimmed.head b hb) (hdash b hb)

/-- Words can be put in front of lexemes, of which the first one does not start with a dash. -/
theorem Joinable.words_append {words : List Lexeme}
    (hwords : ∀ word ∈ words, Name.IsDotted word.text) (h : Joinable lexemes)
    (hdash : ∀ next ∈ lexemes.head?, ∀ b ∈ next.text.head?, b ≠ '-') :
    Joinable (words ++ lexemes) := by
  induction words with
  | nil => exact h
  | cons word words ih =>
    obtain ⟨hword, hothers⟩ := List.forall_mem_cons.mp hwords
    have hrest := ih hothers
    refine .cons (Lexeme.sound_name hword) (fun next hnext => ?_) hrest
    refine (hrest.sound next (List.mem_of_mem_head? hnext)).joins_of_ne_dash ?_ word.text
    cases words with
    | nil => exact hdash next hnext
    | cons other words =>
      obtain rfl := Option.some.inj hnext
      exact fun b hb => ((hothers other (by simp)).ne_of_mem b (List.mem_of_mem_head? hb)).1

end Statement

namespace Exposing

/-- The entries of a list with commas between them, up to the closing parenthesis. -/
def entryLexemes : List String → List Lexeme
  | [] => [⟨false, [')']⟩]
  | [entry] => [⟨false, entry.toList⟩, ⟨false, [')']⟩]
  | entry :: others => ⟨false, entry.toList⟩ :: ⟨false, [',']⟩ :: entryLexemes others

/-- The words and signs of a list with its entries. Only the keyword has to stand apart. -/
def lexemes (entries : List String) : List Lexeme :=
  [⟨true, keyword⟩] ++ ⟨false, ['(']⟩ :: entryLexemes entries

/-- The keyword of a list is a word, and so it is laid out like the other words of the statement. -/
theorem isDotted_keyword : Name.IsDotted keyword :=
  .word ⟨'e', keyword.tail, rfl, by decide, List.all_eq_true.mp (by decide)⟩

/-- An entry may start with a dash, but it stands behind a sign that opens no comment with it. -/
theorem joinable_entryLexemes {entries : List String} {sign : Char}
    (hentries : ∀ entry ∈ entries, IsEntry entry.toList) (hblank : isBlank sign = false)
    (hsign : sign ≠ '-' ∧ sign ≠ '{') : Joinable (⟨false, [sign]⟩ :: entryLexemes entries) := by
  have hentry {entry : String} (h : IsEntry entry.toList) :
      Lexeme.Sound ⟨false, entry.toList⟩ := ⟨h.ne_nil, h.trimmed, h.tidy⟩
  have hclose : Lexeme.Sound ⟨false, [')']⟩ := Lexeme.sound_sign (by decide)
  have hbehind (left : List Char) : Joins left [')'] := hclose.joins_of_ne_dash (by simp) left
  have hlast : Joinable [⟨false, [')']⟩] := ⟨by simpa using hclose, .singleton _⟩
  have hfits {entry : String} {sign : Char} (h : IsEntry entry.toList)
      (hblank : isBlank sign = false) (hsign : sign ≠ '-' ∧ sign ≠ '{') :
      Joins [sign] entry.toList := by
    rintro a ⟨rfl⟩ b hb
    exact ⟨fun ha => absurd ha (by simp [hblank]), fun _ => hsign⟩
  fun_induction entryLexemes entries generalizing sign with
  | case1 => exact .cons (Lexeme.sound_sign hblank) (by simpa using hbehind [sign]) hlast
  | case2 entry =>
    have h := hentries entry List.mem_cons_self
    refine .cons (Lexeme.sound_sign hblank) (by simpa using hfits h hblank hsign) ?_
    exact .cons (hentry h) (by simpa using hbehind entry.toList) hlast
  | case3 entry others hothers ih =>
    obtain ⟨h, hrest⟩ := List.forall_mem_cons.mp hentries
    have hcomma : Lexeme.Sound ⟨false, [',']⟩ := Lexeme.sound_sign (by decide)
    refine .cons (Lexeme.sound_sign hblank) (by simpa using hfits h hblank hsign) ?_
    refine .cons (hentry h) (fun next hnext => ?_) (ih hrest (by decide) (by decide))
    obtain rfl := Option.some.inj hnext
    exact hcomma.joins_of_ne_dash (by simp) entry.toList

/-- The words and signs of a list can stand side by side, whatever its entries are. -/
theorem joinable_lexemes {entries : List String}
    (hentries : ∀ entry ∈ entries, IsEntry entry.toList) : Joinable (lexemes entries) := by
  have hlist := joinable_entryLexemes hentries (by decide : isBlank '(' = false) (by decide)
  refine hlist.words_append ?_ ?_
  · simpa using isDotted_keyword
  · rintro next ⟨rfl⟩ b ⟨rfl⟩
    decide

/-- Blanks open and close no parenthesis, so that the depth is the same behind them. -/
theorem nested_blanks {blanks : List Char} (h : ∀ c ∈ blanks, isBlank c = true) (depth : Nat) :
    Nested depth blanks depth := by
  induction blanks with
  | nil => exact .nil
  | cons c blanks ih =>
    obtain ⟨hc, hblanks⟩ := List.forall_mem_cons.mp h
    have hne {sign : Char} (hsign : isBlank sign = false) : c ≠ sign := by
      rintro rfl
      rw [hsign] at hc
      cases hc
    exact .other (hne (by decide)) (hne (by decide)) (fun hcomma => absurd hcomma (hne (by decide)))
      (ih hblanks)

/-- An entry with blanks around it is read up to the sign behind it. -/
theorem map_trim_split_entry {entry front back rest : List Char} {others : List (List Char)}
    (hentry : IsEntry entry) (hfront : ∀ c ∈ front, isBlank c = true)
    (hback : ∀ c ∈ back, isBlank c = true) (hrest : split 0 rest = [] :: others) :
    (split 0 (front ++ (entry ++ (back ++ rest)))).map trim = entry :: others.map trim := by
  have hsplit := split_append (nested_blanks hfront 0)
    (split_append hentry.nested (split_append (nested_blanks hback 0) hrest))
  rw [hsplit, List.map_cons, List.append_nil,
    hentry.trimmed.trim_between hentry.ne_nil hfront hback]

/-- With single spaces in the gaps, a sign has blanks in front of it. -/
theorem exists_blanks_of_laid {text sign : List Char} {lexemes : List Lexeme}
    (h : Laid (· = [' ']) (⟨false, sign⟩ :: lexemes) text) :
    ∃ blanks rest, text = blanks ++ (sign ++ rest) ∧ (∀ c ∈ blanks, isBlank c = true) ∧
      Laid (· = [' ']) lexemes rest := by
  obtain ⟨blanks, rest, rfl, hblanks, hrest⟩ := h.of_cons
  refine ⟨blanks, rest, rfl, ?_, hrest⟩
  rcases hblanks with rfl | ⟨-, rfl⟩
  · exact List.forall_mem_singleton.mpr (by decide)
  · simp

/-- The entries are read from a list with or without spaces between them and its signs. -/
theorem filter_split_of_laid {entries : List String}
    (hentries : ∀ entry ∈ entries, IsEntry entry.toList) {text : List Char}
    (h : Laid (· = [' ']) (entryLexemes entries) text) :
    ((split 0 text).map trim).filter (!·.isEmpty) = entries.map String.toList := by
  have hclose : split 0 [')'] = [[]] := rfl
  fun_induction entryLexemes entries generalizing text with
  | case1 =>
    obtain ⟨blanks, _, rfl, hblanks, ⟨⟩⟩ := exists_blanks_of_laid h
    rw [List.append_nil, split_append (nested_blanks hblanks 0) hclose, List.append_nil,
      List.map_singleton, trim_eq_nil hblanks]
    rfl
  | case2 entry =>
    have hentry := hentries entry List.mem_cons_self
    obtain ⟨front, _, rfl, hfront, hrest⟩ := exists_blanks_of_laid h
    obtain ⟨back, _, rfl, hback, ⟨⟩⟩ := exists_blanks_of_laid hrest
    rw [List.append_nil, map_trim_split_entry hentry hfront hback hclose]
    simp [hentry.ne_nil]
  | case3 entry others hothers ih =>
    obtain ⟨hentry, hrest⟩ := List.forall_mem_cons.mp hentries
    obtain ⟨front, _, rfl, hfront, h⟩ := exists_blanks_of_laid h
    obtain ⟨back, rest, rfl, hback, h⟩ := exists_blanks_of_laid h
    have hcomma : split 0 ([','] ++ rest) = [] :: split 0 rest := by simp [split]
    rw [map_trim_split_entry hentry hfront hback hcomma, List.filter_cons, ih hrest h]
    simp [hentry.ne_nil]

/-- The text of a list with single spaces in the gaps starts with a space, is no `as` clause, and
holds the entries. -/
theorem entries_of_laid {entries : List String}
    (hentries : ∀ entry ∈ entries, IsEntry entry.toList) {text : List Char}
    (h : Laid (· = [' ']) (lexemes entries) text) :
    BlankFirst text ∧ asClause? text = none ∧ Exposing.entries text = entries := by
  obtain ⟨_, _, rfl, hspace, hrest⟩ := h.of_cons
  obtain rfl : _ = [' '] := hspace.resolve_right (by simp)
  obtain ⟨blanks, list, rfl, hblanks, hlist⟩ := exists_blanks_of_laid hrest
  refine ⟨blankFirst_cons.mpr (by decide), rfl, ?_⟩
  have hfind := find?_keyword hblanks none list
  rw [List.singleton_append, List.singleton_append, Exposing.entries, hfind]
  simp [filter_split_of_laid hentries hlist]

end Exposing

namespace ImportStatement

/-- The words of the `as` clause. Each of them has to stand apart from what is in front of it. -/
def asWords : Option String → List Lexeme
  | none => []
  | some word => [⟨true, ['a', 's']⟩, ⟨true, word.toList⟩]

/-- The words behind the keyword of the statement, up to its list: its name, and the `as` clause if
there is one. -/
def leadingWords (statement : ImportStatement) : List Lexeme :=
  ⟨true, statement.name.toList⟩ :: asWords statement.asName

/-- The text is the statement with any blanks and comments between its words, signs and entries, and
behind it. Without entries, there may be an empty list or none. -/
inductive WrittenAs (statement : ImportStatement) : List Char → Prop where
  | withoutList {body last : List Char} (hnil : statement.exposing = [])
    (hbody : Laid IsGap statement.leadingWords body) (hlast : last = [] ∨ IsGap last) :
    WrittenAs statement (importKeyword ++ (body ++ last))
  | withList {body last : List Char}
    (hbody : Laid IsGap (statement.leadingWords ++ Exposing.lexemes statement.exposing) body)
    (hlast : last = [] ∨ IsGap last) :
    WrittenAs statement (importKeyword ++ (body ++ last))

/-- Where each gap is a single space, the words of the `as` clause can be written in one way
only. -/
theorem eq_renderAs_of_laid {asName : Option String} {text : List Char}
    (h : Laid (· = [' ']) (asWords asName) text) : text = renderAs asName := by
  cases asName with
  | none =>
    cases h
    rfl
  | some word =>
    obtain ⟨_, _, rfl, hfirst, h⟩ := h.of_cons
    obtain ⟨_, _, rfl, hsecond, ⟨⟩⟩ := h.of_cons
    obtain rfl : _ = [' '] := hfirst.resolve_right (by simp)
    obtain rfl : _ = [' '] := hsecond.resolve_right (by simp)
    simp [renderAs]

/-- The leading words of a canonical statement are dotted names: its module, the word `as`, and the
name behind it. -/
theorem Canonical.isDotted_leadingWords {statement : ImportStatement} (h : statement.Canonical) :
    ∀ word ∈ statement.leadingWords, Name.IsDotted word.text := by
  refine List.forall_mem_cons.mpr ⟨h.name, ?_⟩
  cases hasName : statement.asName with
  | none => simp [asWords]
  | some word =>
    have has : Name.IsWord ['a', 's'] :=
      ⟨'a', ['s'], rfl, by decide, List.forall_mem_singleton.mpr (by decide)⟩
    have hword : Name.IsWord word.toList := h.asName word hasName
    simpa [asWords] using And.intro (Name.IsDotted.word has) (Name.IsDotted.word hword)

/-- Behind its keyword, a written statement is read as what was written. The gaps are stripped and
collapsed to single spaces first, which leaves its canonical text, but for blanks in the list. -/
theorem Canonical.ofSpan_of_laid {statement : ImportStatement} (h : statement.Canonical)
    {list : List Lexeme} {body last : List Char}
    (hbody : Laid IsGap (statement.leadingWords ++ list) body)
    (hlast : last = [] ∨ IsGap last) (hjoinable : Joinable (statement.leadingWords ++ list))
    (hlist : ∀ text, Laid (· = [' ']) list text →
      BlankFirst text ∧ asClause? text = none ∧ Exposing.entries text = statement.exposing) :
    ofSpan (body ++ last) = statement := by
  obtain ⟨_, hsingle, hplain⟩ := hbody.exists_plain_eq hjoinable hlast
  obtain ⟨clause, text, rfl, hclause, htext⟩ := hsingle.of_append
  obtain ⟨hblank, hnone, hentries⟩ := hlist text htext
  rw [eq_renderAs_of_laid hclause] at hplain
  exact ofSpan_of_plain_eq h.name h.asName hplain hblank hnone hentries

/-- A written import is read as the same import, up to the end of the text, if no letter follows a
line break in it. -/
theorem parse_of_writtenAs {statement : ImportStatement} {text : List Char}
    (hstatement : statement.Canonical) (htext : statement.WrittenAs text)
    (hbreaks : ∀ front rest, text = front ++ '\n' :: rest → startsWithLetter rest = false) :
    parse text importKeyword.length = (statement, text.length) := by
  have hwords := hstatement.isDotted_leadingWords
  obtain ⟨span, rfl, hspan⟩ : ∃ span, text = importKeyword ++ span ∧ ofSpan span = statement := by
    cases htext with
    | @withoutList body last hnil hbody hlast =>
      refine ⟨body ++ last, rfl, ?_⟩
      rw [← List.append_nil statement.leadingWords] at hbody
      have hjoinable : Joinable (statement.leadingWords ++ []) :=
        .words_append hwords ⟨by simp, .nil⟩ (by simp)
      refine hstatement.ofSpan_of_laid hbody hlast hjoinable ?_
      rintro _ ⟨⟩
      exact ⟨blankFirst_nil, rfl, hnil.symm⟩
    | @withList body last hbody hlast =>
      refine ⟨body ++ last, rfl, ?_⟩
      have hjoinable := (Exposing.joinable_lexemes hstatement.exposing).words_append hwords (by
        rintro next ⟨rfl⟩ b ⟨rfl⟩
        decide)
      exact hstatement.ofSpan_of_laid hbody hlast hjoinable
        fun _ htext => Exposing.entries_of_laid hstatement.exposing htext
  have hwhole : Statement.span span = span := span_eq_self fun front rest heq =>
    hbreaks (importKeyword ++ front) rest (by rw [heq, List.append_assoc])
  rw [parse, endOffset, List.drop_left, hwhole, hspan, List.length_append,
    Nat.min_eq_left (Nat.le_add_right _ _)]

/-- An import whose name and `as` word are words of the grammar, so that reading them must not take
them for the grammar's own. -/
def keywordImport : ImportStatement :=
  ⟨"as", some "exposing", ["-a(..)", "(b, c)"]⟩

/-- The import with a nested comment in front of its name, a line comment, and gaps in its list. -/
def keywordImportText : List Char :=
  "import \x7b-\x7b--\x7d(-\x7das\tas --(\n exposing exposing(\n-a(..),\t(b, c) ) ".toList

/-- The sample statement is one that parsing can give. -/
theorem canonical_keywordImport : keywordImport.Canonical := by
  have h := @canonical_ofSpan " as as exposing exposing (-a(..), (b, c))".toList
    (by decide +kernel) (by decide +kernel)
  rwa [show ofSpan _ = keywordImport by decide +kernel] at h

/-- The sample text is a way to write the sample statement. It has comments in its gaps, and words
that look like keywords in its entries. -/
theorem writtenAs_keywordImportText : keywordImport.WrittenAs keywordImportText := by
  have hnested : BlockAt ['{', '-', '{', '-', '-', '}', '(', '-', '}'] 2 6 :=
    .mk (by decide) (.nil 4) (by decide)
  have hblock : BlockAt ['{', '-', '{', '-', '-', '}', '(', '-', '}'] 0 9 :=
    .mk (by decide) (.block hnested (.char (by decide) (by decide) (by decide) (.nil 7)))
      (by decide)
  have hcomment : IsGap (' ' :: (['{', '-', '{', '-', '-', '}', '(', '-', '}'] ++ [])) :=
    ⟨' ', _, rfl, by decide, .block hblock .nil⟩
  have hline : IsGap (' ' :: '-' :: '-' :: (['('] ++ ['\n', ' '])) :=
    ⟨' ', _, rfl, by decide, .line (by decide) (.blank (by decide) .nil)⟩
  have hblank {c : Char} (hc : isBlank c = true) : IsGap [c] := ⟨c, [], rfl, hc, .nil⟩
  have hspace : IsGap [' '] := hblank (by decide)
  have htab : IsGap ['\t'] := hblank (by decide)
  have hbreak : IsGap ['\n'] := hblank (by decide)
  have hbody : Laid IsGap
      (keywordImport.leadingWords ++ Exposing.lexemes keywordImport.exposing) _ :=
    .cons (.inl hcomment) <| .cons (.inl htab) <| .cons (.inl hline) <| .cons (.inl hspace) <|
      .cons (.inr ⟨rfl, rfl⟩) <| .cons (.inl hbreak) <| .cons (.inr ⟨rfl, rfl⟩) <|
      .cons (.inl htab) <| .cons (.inl hspace) .nil
  have htext := WrittenAs.withList hbody (.inr hspace)
  exact (congrArg keywordImport.WrittenAs (by decide +kernel)).mp htext

/-- Parsing the sample text gives the sample statement back, and the offset at which the text
ends. -/
theorem parse_keywordImportText :
    keywordImport.Canonical ∧ keywordImport.WrittenAs keywordImportText ∧
      parse keywordImportText 6 = (keywordImport, 63) := by
  have htails : ∀ tail ∈ keywordImportText.tails,
      tail.head? = some '\n' → startsWithLetter tail.tail = false := by decide
  refine ⟨canonical_keywordImport, writtenAs_keywordImportText, ?_⟩
  exact parse_of_writtenAs canonical_keywordImport writtenAs_keywordImportText
    fun front rest heq => htails ('\n' :: rest) ((List.mem_tails _ _).mpr ⟨front, heq.symm⟩) rfl

end ImportStatement

end ElmReach
