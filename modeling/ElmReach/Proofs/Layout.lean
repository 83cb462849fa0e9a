import ElmReach.Proofs.CommentBetween
import ElmReach.Proofs.CommentGrammar
import ElmReach.Proofs.PlainText
import Mathlib.Tactic.Common

/-!
# Layout

Between the words and signs of a statement there may be blanks and comments, in any number and
order. They belong to no word: stripping leaves blanks of them, and collapsing leaves a single
space, or nothing where nothing stood. So the plain text of a statement depends on its words and
signs, and on where there is a gap at all, but not on what stands in the gaps.
-/

namespace ElmReach

open Text

namespace Comment

/-- Blanks, block comments with their closers, and line comments with their line breaks. -/
inductive Layout : List Char → Prop where
  | nil : Layout []
  | blank {c : Char} {rest : List Char} (hc : isBlank c = true) (hrest : Layout rest) :
    Layout (c :: rest)
  | block {comment rest : List Char} (hcomment : BlockAt comment 0 comment.length)
    (hrest : Layout rest) : Layout (comment ++ rest)
  | line {comment rest : List Char} (hcomment : '\n' ∉ comment) (hrest : Layout rest) :
    Layout ('-' :: '-' :: (comment ++ '\n' :: rest))

/-- Layout that starts with a blank, so that it keeps the words on its two sides apart. -/
def IsGap (text : List Char) : Prop :=
  ∃ c rest, text = c :: rest ∧ isBlank c = true ∧ Layout rest

/-- A gap is layout. It is the layout that cannot be empty. -/
theorem IsGap.layout {gap : List Char} (h : IsGap gap) : Layout gap := by
  obtain ⟨c, rest, rfl, hc, hrest⟩ := h
  exact .blank hc hrest

/-- A block comment starts with its opener, and reading goes on behind it. -/
theorem exists_of_blockAt {comment : List Char} (h : BlockAt comment 0 comment.length) :
    ∃ inner, comment = '{' :: '-' :: inner ∧
      ∀ rest, afterBlock 1 (inner ++ rest) = rest := by
  obtain ⟨inner, hinner⟩ := h.opens
  rw [List.drop_zero] at hinner
  refine ⟨inner, hinner.symm, fun rest => ?_⟩
  have hafter := (h.append rest).afterBlock_zero
  rwa [List.drop_zero, List.drop_left, ← hinner, opener, List.append_assoc, List.cons_append,
    List.cons_append, afterBlock, Int.zero_add] at hafter

/-- A line comment ends at its line break, which is left for what follows. -/
theorem afterLine_of_notMem {comment : List Char} (h : '\n' ∉ comment) (rest : List Char) :
    afterLine (comment ++ '\n' :: rest) = '\n' :: rest := by
  rw [afterLine_append_break, afterLine_eq_nil h, List.nil_append]

/-- A blank cannot be one of the two characters that open a comment. -/
theorem ne_of_isBlank {c : Char} (hc : isBlank c = true) : c ≠ '-' ∧ c ≠ '{' := by
  constructor <;> rintro rfl <;> exact absurd hc (by decide)

/-- A blank is copied when comments are stripped. -/
theorem strip_cons_of_isBlank {c : Char} (hc : isBlank c = true) (rest : List Char) :
    strip (c :: rest) = c :: strip rest :=
  strip_cons_of_ne (ne_of_isBlank hc).1 (ne_of_isBlank hc).2 rest

/-- Layout in front of a text holds no word: its comments are stripped, and its blanks are
collapsed. -/
theorem Layout.words_strip {layout : List Char} (h : Layout layout) (rest : List Char) :
    words (strip (layout ++ rest)) = words (strip rest) := by
  induction h with
  | nil => rfl
  | blank hc _ ih => rw [List.cons_append, strip_cons_of_isBlank hc, words_cons_of_isBlank hc, ih]
  | block hcomment _ ih =>
    obtain ⟨inner, rfl, hafter⟩ := exists_of_blockAt hcomment
    rw [List.append_assoc, List.cons_append, List.cons_append, strip, hafter,
      words_cons_of_isBlank (by decide), ih]
  | line hcomment _ ih =>
    have hbreak : isBlank '\n' = true := by decide
    rw [List.cons_append, List.cons_append, List.append_assoc, List.cons_append, strip,
      afterLine_of_notMem hcomment, strip_cons_of_isBlank hbreak, words_cons_of_isBlank hbreak, ih]

/-- A gap counts as a single space, since it starts with a blank and holds no word. -/
theorem IsGap.words_strip {gap : List Char} (h : IsGap gap) (front rest : List Char) :
    words (front ++ strip (gap ++ rest)) = words (front ++ ' ' :: strip rest) := by
  obtain ⟨c, layout, rfl, hc, hlayout⟩ := h
  rw [List.cons_append, strip_cons_of_isBlank hc, words_append_blank hc, hlayout.words_strip,
    words_append_blank (by decide)]

end Comment

namespace Statement

/-- A word or a sign of a statement, or an entry of its list. Between any two of them layout may
stand. -/
structure Lexeme where
  /-- Whether a gap has to stand in front of it. -/
  apart : Bool
  text : List Char

/-- The text consists of the lexemes, in order, each with a gap in front of it. The gap may only be
missing where the lexeme does not have to stand apart. -/
inductive Laid (gap : List Char → Prop) : List Lexeme → List Char → Prop where
  | nil : Laid gap [] []
  | cons {lexeme : Lexeme} {lexemes : List Lexeme} {front rest : List Char}
    (hfront : gap front ∨ lexeme.apart = false ∧ front = []) (hrest : Laid gap lexemes rest) :
    Laid gap (lexeme :: lexemes) (front ++ (lexeme.text ++ rest))

/-- A text of one lexeme and others has a gap, if one is needed, then the lexeme, and then a text of
the others. -/
theorem Laid.of_cons {gap : List Char → Prop} {lexeme : Lexeme} {lexemes : List Lexeme}
    {text : List Char} (h : Laid gap (lexeme :: lexemes) text) :
    ∃ front rest, text = front ++ (lexeme.text ++ rest) ∧
      (gap front ∨ lexeme.apart = false ∧ front = []) ∧ Laid gap lexemes rest := by
  cases h with
  | cons hfront hrest => exact ⟨_, _, rfl, hfront, hrest⟩

/-- A text of some lexemes and of others behind them can be split between the two. -/
theorem Laid.of_append {gap : List Char → Prop} {first second : List Lexeme} {text : List Char}
    (h : Laid gap (first ++ second) text) :
    ∃ left right, text = left ++ right ∧ Laid gap first left ∧ Laid gap second right := by
  induction first generalizing text with
  | nil => exact ⟨[], text, rfl, .nil, h⟩
  | cons lexeme first ih =>
    obtain ⟨front, rest, rfl, hfront, hrest⟩ := h.of_cons
    obtain ⟨left, right, rfl, hleft, hright⟩ := ih hrest
    exact ⟨front ++ (lexeme.text ++ left), right, by simp, .cons hfront hleft, hright⟩

/-- The text of a lexeme is not changed by stripping and collapsing: it is not empty, has no blanks
at its ends, and is tidy. -/
structure Lexeme.Sound (lexeme : Lexeme) : Prop where
  ne_nil : lexeme.text ≠ []
  trimmed : Trimmed lexeme.text
  tidy : Tidy lexeme.text

/-- The lexemes can stand side by side, with and without gaps between them: no comment opens where
two of them meet. -/
structure Joinable (lexemes : List Lexeme) : Prop where
  sound : ∀ lexeme ∈ lexemes, lexeme.Sound
  joins : lexemes.IsChain fun left right => Joins left.text right.text

variable {lexeme : Lexeme} {lexemes : List Lexeme}

/-- A sound lexeme can be put in front of others if it joins the first one of them. -/
theorem Joinable.cons (hsound : lexeme.Sound)
    (hjoins : ∀ next ∈ lexemes.head?, Joins lexeme.text next.text) (h : Joinable lexemes) :
    Joinable (lexeme :: lexemes) :=
  ⟨List.forall_mem_cons.mpr ⟨hsound, h.sound⟩, List.isChain_cons.mpr ⟨hjoins, h.joins⟩⟩

/-- What can stand side by side still can without its first lexeme. -/
theorem Joinable.tail (h : Joinable (lexeme :: lexemes)) : Joinable lexemes :=
  ⟨fun other hother => h.sound other (List.mem_cons_of_mem lexeme hother), h.joins.tail⟩

/-- The first of the lexemes that can stand side by side is sound. -/
theorem Joinable.head (h : Joinable (lexeme :: lexemes)) : lexeme.Sound :=
  h.sound lexeme List.mem_cons_self

/-- A text of lexemes starts with a blank or with its first lexeme. -/
theorem Laid.head? {text last : List Char} (h : Laid Comment.IsGap lexemes text)
    (hsound : ∀ lexeme ∈ lexemes, lexeme.Sound) (hlast : last = [] ∨ Comment.IsGap last) :
    ∀ b ∈ (text ++ last).head?,
      isBlank b = true ∨ ∃ first ∈ lexemes.head?, b ∈ first.text.head? := by
  intro b hb
  have hgap {gap rest : List Char} (hgap : Comment.IsGap gap) (hb : b ∈ (gap ++ rest).head?) :
      isBlank b = true := by
    obtain ⟨c, others, rfl, hc, -⟩ := hgap
    rwa [← Option.some.inj hb]
  cases h with
  | nil =>
    rcases hlast with rfl | hlast
    · simp at hb
    · exact .inl (@hgap last [] hlast (by simpa using hb))
  | @cons lexeme lexemes front rest hfront hrest =>
    rcases hfront with hfront | ⟨-, rfl⟩
    · rw [List.append_assoc] at hb
      exact .inl (hgap hfront hb)
    · rw [List.nil_append, List.append_assoc,
        List.head?_append_of_ne_nil _ (hsound lexeme List.mem_cons_self).ne_nil] at hb
      exact .inr ⟨lexeme, rfl, hb⟩

/-- No comment opens behind a lexeme, and stripping copies it. The comments of the text are those of
its gaps, each of which leaves blanks. -/
theorem Laid.strip_append {text last : List Char} (h : Laid Comment.IsGap lexemes text)
    (hjoinable : Joinable (lexeme :: lexemes)) (hlast : last = [] ∨ Comment.IsGap last) :
    Comment.strip (lexeme.text ++ (text ++ last)) =
      lexeme.text ++ Comment.strip (text ++ last) := by
  have hapart : lexeme.text.IsChain Comment.Apart :=
    hjoinable.head.tidy.fits.imp fun _ _ hfits => hfits.2
  refine Comment.strip_append hapart fun a ha b hb => ?_
  rcases h.head? hjoinable.tail.sound hlast b hb with hblank | ⟨first, hfirst, hb⟩
  · exact fun hdash => absurd hdash (Comment.ne_of_isBlank hblank).1
  · obtain ⟨hjoins, -⟩ := List.isChain_cons.mp hjoinable.joins
    exact (hjoins first hfirst a ha b hb).2

/-- The words of a text of lexemes are those of the lexemes with single spaces in the gaps. -/
theorem Laid.exists_words_eq {text last : List Char} (h : Laid Comment.IsGap lexemes text)
    (hjoinable : Joinable lexemes) (hlast : last = [] ∨ Comment.IsGap last) :
    ∃ single, Laid (· = [' ']) lexemes single ∧
      ∀ front, words (front ++ Comment.strip (text ++ last)) = words (front ++ single) := by
  induction h with
  | nil =>
    refine ⟨[], .nil, fun front => ?_⟩
    have hnil : Comment.strip [] = [] := by rw [Comment.strip]
    rcases hlast with rfl | hlast
    · rw [List.append_nil, hnil]
    · have hwords := hlast.words_strip front []
      rw [List.append_nil, hnil, words_append_blank (by decide), words, List.append_nil] at hwords
      rw [List.nil_append, hwords, List.append_nil]
  | @cons lexeme lexemes front rest hfront hrest ih =>
    obtain ⟨single, hsingle, hwords⟩ := ih hjoinable.tail
    have hcopy := hrest.strip_append hjoinable hlast
    rcases hfront with hgap | ⟨hapart, rfl⟩
    · refine ⟨[' '] ++ (lexeme.text ++ single), .cons (.inl rfl) hsingle, fun before => ?_⟩
      have hlexeme := hwords (before ++ ' ' :: lexeme.text)
      simp only [List.append_assoc, List.cons_append] at hlexeme
      rw [List.append_assoc, List.append_assoc, hgap.words_strip, hcopy, hlexeme]
      rfl
    · refine ⟨[] ++ (lexeme.text ++ single), .cons (.inr ⟨hapart, rfl⟩) hsingle, fun before => ?_⟩
      have hlexeme := hwords (before ++ lexeme.text)
      simp only [List.append_assoc] at hlexeme
      rw [List.nil_append, List.nil_append, List.append_assoc, hcopy, hlexeme]

/-- Lexemes with single spaces in the gaps are a tidy text. -/
theorem Laid.tidy_append {text : List Char} (h : Laid (· = [' ']) lexemes text)
    (hjoinable : Joinable (lexeme :: lexemes)) :
    Tidy (lexeme.text ++ text) ∧ Trimmed (lexeme.text ++ text) := by
  induction h generalizing lexeme with
  | nil =>
    rw [List.append_nil]
    exact ⟨hjoinable.head.tidy, hjoinable.head.trimmed⟩
  | @cons next lexemes front rest hfront hrest ih =>
    obtain ⟨htidy, htrimmed⟩ := ih hjoinable.tail
    have hsound := hjoinable.head
    have hne : next.text ++ rest ≠ [] :=
      List.append_ne_nil_of_left_ne_nil hjoinable.tail.head.ne_nil rest
    have hfront' : Tidy (front ++ (next.text ++ rest)) ∧
        Joins lexeme.text (front ++ (next.text ++ rest)) := by
      rcases hfront with rfl | ⟨-, rfl⟩
      · refine ⟨Tidy.append (by decide) htidy ?_, ?_⟩
        · rintro a ⟨rfl⟩ b hb
          exact fits_space (htrimmed.head b hb)
        · rintro a ha b ⟨rfl⟩
          exact fits_of_not_isBlank (hsound.trimmed.last a ha) (by decide)
      · refine ⟨htidy, fun a ha b hb => ?_⟩
        obtain ⟨hjoins, -⟩ := List.isChain_cons.mp hjoinable.joins
        rw [List.nil_append, List.head?_append_of_ne_nil _ hjoinable.tail.head.ne_nil] at hb
        exact hjoins next rfl a ha b hb
    refine ⟨hsound.tidy.append hfront'.1 hfront'.2, fun c hc => ?_, fun c hc => ?_⟩
    · rw [List.head?_append_of_ne_nil _ hsound.ne_nil] at hc
      exact hsound.trimmed.head c hc
    · rw [← List.append_assoc, List.getLast?_append_of_ne_nil _ hne] at hc
      exact htrimmed.last c hc

/-- The plain text of lexemes with layout between them has single spaces in the gaps, and none at
its ends. -/
theorem Laid.exists_plain_eq {text last : List Char}
    (h : Laid Comment.IsGap (lexeme :: lexemes) text) (hjoinable : Joinable (lexeme :: lexemes))
    (hlast : last = [] ∨ Comment.IsGap last) :
    ∃ single, Laid (· = [' ']) lexemes single ∧ plain (text ++ last) = lexeme.text ++ single := by
  obtain ⟨front, rest, rfl, hfront, hrest⟩ := h.of_cons
  obtain ⟨single, hsingle, hwords⟩ := hrest.exists_words_eq hjoinable.tail hlast
  obtain ⟨htidy, htrimmed⟩ := hsingle.tidy_append hjoinable
  have hlayout : Comment.Layout front := by
    rcases hfront with hgap | ⟨-, rfl⟩
    · exact hgap.layout
    · exact .nil
  refine ⟨single, hsingle, ?_⟩
  calc
    plain (front ++ (lexeme.text ++ rest) ++ last) =
        collapse (Comment.strip (lexeme.text ++ (rest ++ last))) := by
      rw [List.append_assoc, List.append_assoc, plain, collapse, hlayout.words_strip, collapse]
    _ = collapse (lexeme.text ++ single) := by
      rw [hrest.strip_append hjoinable hlast, collapse, hwords, collapse]
    _ = lexeme.text ++ single := htidy.collapse_eq htrimmed

end Statement

end ElmReach
