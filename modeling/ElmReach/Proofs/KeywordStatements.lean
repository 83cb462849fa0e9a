import ElmReach.Proofs.BlankText
import ElmReach.Proofs.LineBreak
import Mathlib.Tactic.Common

/-!
# The keywords of a text

A text has a list of keywords, wherever they stand. It is regular if no block comment opens in it
and each keyword stands in the first column and has no colon behind it. A piece of a regular text in
which no line starts with a letter holds no keyword but the one it may start with. The tokens of a
regular text are such pieces, so they have one statement for each keyword.
-/

namespace ElmReach

open Text Statement

namespace Statement

/-- A statement goes on to the end of a text on one line. -/
theorem span_of_not_mem {text : List Char} (h : '\n' ∉ text) : span text = text := by
  apply span_eq_self
  rintro front rest rfl
  simp at h

/-- A text without line breaks belongs to the statement. -/
theorem span_append_of_not_mem {front : List Char} (h : '\n' ∉ front) (rest : List Char) :
    span (front ++ rest) = front ++ span rest := by
  induction front with
  | nil => rfl
  | cons c front ih =>
    simp only [List.mem_cons, not_or] at h
    rw [List.cons_append, span, if_neg fun hend => h.1 hend.1.symm, ih h.2, List.cons_append]

/-- What a statement takes of a text, a statement takes as a whole. -/
theorem span_span (text : List Char) : span (span text) = span text := by
  induction text with
  | nil => rfl
  | cons c rest ih =>
    by_cases hend : c = '\n' ∧ startsWithLetter rest = true
    · rw [span, if_pos hend, span]
    · have hletter : ¬ (c = '\n' ∧ startsWithLetter (span rest) = true) := by
        rintro ⟨hc, hstarts⟩
        refine hend ⟨hc, ?_⟩
        cases rest with
        | nil => exact hstarts
        | cons d others =>
          rw [span] at hstarts
          split at hstarts
          · cases hstarts
          · exact hstarts
      rw [span, if_neg hend, span, if_neg hletter, ih]

/-- The keywords stand on one line. -/
theorem not_mem_of_mem_keywords {keyword : List Char} (h : keyword ∈ keywords) :
    '\n' ∉ keyword := by
  revert keyword
  decide

/-- A text that starts with a keyword starts with a letter. -/
theorem startsWithLetter_of_keyword {keyword text : List Char} (hkeyword : keyword ∈ keywords)
    (h : keyword <+: text) : startsWithLetter text = true := by
  obtain ⟨rest, rfl⟩ := h
  revert keyword
  simp only [keywords, List.mem_cons, List.not_mem_nil, or_false, forall_eq_or_imp, forall_eq]
  exact ⟨(by decide : isLetter 'm' = true), (by decide : isLetter 'i' = true)⟩

end Statement

/-- A blank is no letter, so that no declaration starts with one. -/
theorem isLetter_of_isBlank {c : Char} (h : isBlank c = true) : isLetter c = false := by
  have hword := isWordChar_of_isBlank h
  simp only [isWordChar, Bool.or_eq_false_iff] at hword
  exact hword.1.1

/-- A text that is empty or starts with a line break is blank in front. -/
theorem blankFirst_of_break {text : List Char} (h : ∀ c ∈ text.head?, c = '\n') :
    BlankFirst text := by
  intro c hc
  rw [h c hc]
  decide

namespace Token

/-- Only a text that starts with a keyword is read as a statement. -/
theorem exists_keyword_of_isStatement {before : Option Char} {start : Nat} {text : List Char}
    (h : (next before start text).kind.isStatement = true) :
    ∃ keyword ∈ keywords, startsWithKeyword keyword before text = true := by
  by_cases hmodule : startsWithKeyword moduleKeyword before text = true
  · exact ⟨moduleKeyword, by decide, hmodule⟩
  by_cases himport : startsWithKeyword importKeyword before text = true
  · exact ⟨importKeyword, by decide, himport⟩
  -- What is left is a comment or a marker.
  exfalso
  unfold next recognise? at h
  rw [if_neg hmodule, if_neg himport] at h
  by_cases hline : Comment.opensLine text = true
  · simp [hline, covering, TokenKind.isStatement] at h
  · by_cases hblock : Comment.opensBlock text = true
    · simp [hline, hblock, covering, TokenKind.isStatement] at h
    · simp [hline, hblock, covering, TokenKind.isStatement] at h

/-- The statements that start at the keywords of the text, wherever they stand. Both the tokens and
the outline are compared with these. -/
def keywordStatements (before : Option Char) (start : Nat) : List Char → List (TokenKind × Nat)
  | [] => []
  | c :: rest =>
    statements [next before start (c :: rest)] ++ keywordStatements (some c) (start + 1) rest

/-- A token that starts with no keyword is no statement. -/
theorem statements_of_not_keyword {before : Option Char} {text : List Char}
    (h : ∀ keyword ∈ keywords, startsWithKeyword keyword before text = false) (start : Nat) :
    statements [next before start text] = [] := by
  rw [statements_cons_of_neg]
  · rfl
  · by_contra hstatement
    obtain ⟨keyword, hkeyword, hstarts⟩ :=
      exists_keyword_of_isStatement (by simpa using hstatement)
    rw [h keyword hkeyword] at hstarts
    cases hstarts

/-- The text opens no block comment here, and a keyword here stands in the first column and has no
colon behind it. -/
structure Regular (before : Option Char) (text : List Char) : Prop where
  noBlock : Comment.opensBlock text = false
  column : ∀ keyword ∈ keywords, startsWithKeyword keyword before text = true →
    ∀ c ∈ before, c = '\n'
  noColon : ∀ keyword ∈ keywords, before.any isWordChar = false → keyword <+: text →
    ((text.drop 6).dropWhile isBlank).head? ≠ some ':'

/-- The text is regular at each of its places, seen from the character in front of the place. -/
def RegularFrom (before : Option Char) (text : List Char) : Prop :=
  ∀ front rest, front ++ rest = text → Regular (front.getLast?.or before) rest

/-- A text that is regular from one place on is regular at that place. -/
theorem RegularFrom.here {before : Option Char} {text : List Char} (h : RegularFrom before text) :
    Regular before text := by
  simpa using h [] text rfl

/-- A text that is regular from one place on is regular from each later place on, seen from the
character in front of it. -/
theorem RegularFrom.behind {before : Option Char} {piece rest : List Char}
    (h : RegularFrom before (piece ++ rest)) (hne : piece ≠ []) :
    RegularFrom piece.getLast? rest := by
  intro front others heq
  have hregular := h (piece ++ front) others (by rw [List.append_assoc, heq])
  have hlast : piece.getLast?.or before = piece.getLast? := by
    rw [List.getLast?_eq_some_getLast hne]
    rfl
  rwa [List.getLast?_append, Option.or_assoc, hlast] at hregular

/-- A piece of a text in which no line starts with a letter holds no keyword but the one it may
start with. -/
theorem keywordStatements_append {before : Option Char} {piece rest : List Char}
    (h : RegularFrom before (piece ++ rest)) (hne : piece ≠ []) (hspan : span piece = piece)
    (start : Nat) :
    keywordStatements before start (piece ++ rest) =
      statements [next before start (piece ++ rest)] ++
        keywordStatements piece.getLast? (start + piece.length) rest := by
  induction piece generalizing before start with
  | nil => exact absurd rfl hne
  | cons c piece ih =>
    cases piece with
    | nil => rfl
    | cons d piece =>
      have hend : ¬ (c = '\n' ∧ startsWithLetter (d :: piece) = true) := by
        intro hend
        rw [span, if_pos hend] at hspan
        cases hspan
      rw [span, if_neg hend] at hspan
      have htail : RegularFrom (some c) (d :: piece ++ rest) := by
        rw [← List.getLast?_singleton]
        exact RegularFrom.behind h (List.cons_ne_nil c [])
      -- A keyword inside of the piece would have to follow a line break.
      have hinside : statements [next (some c) (start + 1) (d :: piece ++ rest)] = [] := by
        apply statements_of_not_keyword
        intro keyword hkeyword
        by_contra hstarts
        have hstarts : startsWithKeyword keyword (some c) (d :: piece ++ rest) = true := by
          simpa using hstarts
        obtain ⟨-, e, others, htext, -⟩ := startsWithKeyword_iff.mp hstarts
        have hletter := startsWithLetter_of_keyword hkeyword ⟨e :: others, htext.symm⟩
        exact hend ⟨htail.here.column keyword hkeyword hstarts c rfl, hletter⟩
      have hrest := ih htail (List.cons_ne_nil d piece) (List.cons.inj hspan).2 (start + 1)
      rw [hinside, List.nil_append] at hrest
      rw [List.cons_append, keywordStatements, hrest, List.getLast?_cons_cons, List.length_cons,
        List.length_cons, List.length_cons, Nat.add_right_comm, Nat.add_assoc]

/-- What is recognised is a piece in which no line starts with a letter, and a line break follows
it, if anything. -/
theorem exists_piece_of_recognise? {before : Option Char} {text : List Char} {kind : TokenKind}
    {length : Nat} (hblock : Comment.opensBlock text = false)
    (h : recognise? before text = some (kind, length)) :
    ∃ piece rest, piece ++ rest = text ∧ piece.length = length ∧ span piece = piece ∧
      BlankFirst rest := by
  have hstatement {keyword : List Char} (hkeyword : keyword ∈ keywords)
      (hstarts : startsWithKeyword keyword before text = true)
      (hlength : 6 + (span (text.drop 6)).length = length) :
      ∃ piece rest, piece ++ rest = text ∧ piece.length = length ∧ span piece = piece ∧
        BlankFirst rest := by
    have hsix := length_of_mem_keywords hkeyword
    obtain ⟨-, c, others, rfl, -⟩ := startsWithKeyword_iff.mp hstarts
    rw [← hsix, List.drop_left] at hlength
    refine ⟨keyword ++ span (c :: others), afterSpan (c :: others), ?_, ?_, ?_, ?_⟩
    · rw [List.append_assoc, span_append_afterSpan]
    · rw [List.length_append, hlength]
    · rw [span_append_of_not_mem (not_mem_of_mem_keywords hkeyword), span_span]
    · exact blankFirst_of_break (head?_afterSpan _)
  unfold recognise? at h
  split at h
  · obtain ⟨-, hlength⟩ := Prod.mk.inj (Option.some.inj h)
    refine ⟨text.takeWhile (· != '\n'), Comment.afterLine text, ?_, hlength, ?_, ?_⟩
    · exact List.takeWhile_append_dropWhile
    · apply span_of_not_mem
      intro hmem
      simpa using List.mem_takeWhile_imp hmem
    · exact blankFirst_of_break (Comment.head?_afterLine text)
  · split at h
    · next hopens =>
      rw [hblock] at hopens
      cases hopens
    · split at h
      · next hmodule =>
        exact hstatement (by decide) hmodule (Prod.mk.inj (Option.some.inj h)).2
      · split at h
        · next himport =>
          exact hstatement (by decide) himport (Prod.mk.inj (Option.some.inj h)).2
        · cases h

/-- Only a block comment can have a letter behind one of its line breaks. The text of any other
token is taken as a whole by a statement. -/
theorem span_text_next {before : Option Char} {text : List Char}
    (hblock : Comment.opensBlock text = false) (start : Nat) :
    span (next before start text).text = (next before start text).text := by
  cases hrec : recognise? before text with
  | none =>
    rw [next, hrec]
    cases text with
    | nil => rfl
    | cons c rest => simp [covering, span, startsWithLetter]
  | some found =>
    obtain ⟨kind, length⟩ := found
    obtain ⟨piece, rest, rfl, rfl, hspan, -⟩ := exists_piece_of_recognise? hblock hrec
    simp only [next, hrec, covering, List.take_left, hspan]

/-- The tokens of a regular text have a statement for each of its keywords. The induction is on the
tokens, each of which leaves a regular text. -/
theorem statements_ofText {before : Option Char} {text : List Char} (h : RegularFrom before text)
    (start : Nat) :
    statements (ofText before start text) = keywordStatements before start text := by
  induction before, start, text using run_induction with
  | nil before start =>
    rw [ofText, keywordStatements]
    rfl
  | cons before start c rest ih =>
    have hsplit := text_append_behind before start (c :: rest)
    have hne := List.ne_nil_of_length_pos (length_text_next_pos before start c rest)
    have hstop := stop_next before start c rest
    have hspan := @span_text_next before (c :: rest) h.here.noBlock start
    rw [← hsplit] at h
    have hpiece := keywordStatements_append h hne hspan start
    rw [hsplit] at hpiece
    rw [ofText_cons, statements_cons, ih (h.behind hne), hpiece, hstop]

end Token

end ElmReach
