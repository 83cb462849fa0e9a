import ElmReach.Proofs.KeywordStatements
import ElmReach.Proofs.Tiling
import ElmReach.Source.Declaration
import Mathlib.Tactic.Common

/-!
# Statements of the outline

The outline takes a whole declaration at a time, and the tokens take a character at a time. Both
find the same statements in a regular text: each of them has one for each keyword. A declaration
holds no keyword but the one it may start with, with two exceptions. A definition is read together
with the annotation in front of it, but a regular text does not annotate a keyword. And `module` is
read together with `port` or `effect` in front of it, but then the declaration is the statement of
that keyword.
-/

namespace ElmReach

open Text Statement

namespace Declaration

open Token

/-- The name of a function is copied from the front of the text. -/
theorem functionName?_eq_some {text name rest : List Char}
    (h : functionName? text = some (name, rest)) : text = name ++ rest := by
  cases text with
  | nil => cases h
  | cons c others =>
    rw [functionName?] at h
    split at h
    · obtain ⟨rfl, rfl⟩ := Prod.mk.inj (Option.some.inj h)
      rw [List.cons_append, List.takeWhile_append_dropWhile]
    · cases h

/-- A definition is for the function name at its front. -/
theorem exists_functionName?_of_defined? {text name : List Char} (h : defined? text = some name) :
    ∃ rest, functionName? text = some (name, rest) := by
  unfold defined? at h
  split at h
  · cases h
  · next found rest hfound =>
    split at h
    · cases h
    · obtain rfl := Option.some.inj h
      exact ⟨rest, hfound⟩
    · cases h

/-- An annotation is for the function name at its front, with a colon behind it. -/
theorem exists_functionName?_of_annotated? {text name : List Char}
    (h : annotated? text = some name) :
    ∃ rest, text = name ++ rest ∧ (rest.dropWhile isBlank).head? = some ':' := by
  unfold annotated? at h
  split at h
  · cases h
  · next found rest hfound =>
    split at h
    · cases h
    · next others hcolon =>
      obtain rfl := Option.some.inj h
      exact ⟨rest, functionName?_eq_some hfound, by rw [hcolon]; rfl⟩
    · cases h

/-- Where a keyword stands, it is the function name. -/
theorem functionName?_of_keyword {keyword text : List Char} {before : Option Char}
    (hkeyword : keyword ∈ keywords) (h : startsWithKeyword keyword before text = true) :
    ∃ rest, functionName? text = some (keyword, rest) := by
  obtain ⟨-, c, rest, rfl, hc⟩ := startsWithKeyword_iff.mp h
  have hword : isWordChar c = false := by
    simp only [endsKeyword, Bool.or_eq_true, beq_iff_eq] at hc
    rcases hc with (rfl | rfl) | rfl <;> decide
  have hname {first : Char} {others : List Char} (hfirst : isFunctionStart first = true)
      (hothers : others.all isWordChar = true) :
      ∃ rest', functionName? (first :: others ++ c :: rest) = some (first :: others, rest') := by
    rw [List.cons_append, functionName?, if_pos hfirst,
      List.takeWhile_append_of_pos (List.all_eq_true.mp hothers),
      List.takeWhile_cons_of_neg (by simp [hword]), List.append_nil]
    exact ⟨_, rfl⟩
  simp only [keywords, List.mem_cons, List.not_mem_nil, or_false] at hkeyword
  rcases hkeyword with rfl | rfl
  · exact hname (by decide) (by decide)
  · exact hname (by decide) (by decide)

/-- A definition behind an annotation for the same name does not start with a keyword. -/
theorem not_keyword_of_defined? {before : Option Char} {text body name : List Char}
    (hregular : Regular before text) (hbefore : before.any isWordChar = false)
    (hannotated : annotated? (span text) = some name) (hdefined : defined? body = some name) :
    ∀ keyword ∈ keywords, startsWithKeyword keyword (some '\n') body = false := by
  intro keyword hkeyword
  by_contra hstarts
  obtain ⟨others, hothers⟩ := functionName?_of_keyword hkeyword (by simpa using hstarts)
  obtain ⟨rest, hrest⟩ := exists_functionName?_of_defined? hdefined
  obtain ⟨rfl, -⟩ : keyword = name ∧ others = rest := by simpa [hothers] using hrest
  obtain ⟨more, hmore, hcolon⟩ := exists_functionName?_of_annotated? hannotated
  have htext : text = keyword ++ (more ++ afterSpan text) := by
    rw [← List.append_assoc, ← hmore, span_append_afterSpan]
  apply hregular.noColon keyword hkeyword hbefore ⟨_, htext.symm⟩
  have hne : (more.dropWhile isBlank).isEmpty = false := by
    cases hdrop : more.dropWhile isBlank with
    | nil => simp [hdrop] at hcolon
    | cons d others => rfl
  rw [htext, ← length_of_mem_keywords hkeyword, List.drop_left, List.dropWhile_append, hne]
  simp [List.head?_append, hcolon]

/-- The text starts with a piece of this kind and length. A blank follows it, if anything, and the
statement that it is, if any, is the only one among its keywords. -/
def Reads (before : Option Char) (text : List Char) (kind : TokenKind) (length : Nat) : Prop :=
  ∃ piece rest, piece ++ rest = text ∧ piece ≠ [] ∧ piece.length = length ∧ BlankFirst rest ∧
    ∀ start, keywordStatements before start text =
      statements [covering kind start length text] ++
        keywordStatements piece.getLast? (start + length) rest

/-- No keyword starts the text, neither that of a module statement nor that of an import. -/
def NoKeyword (before : Option Char) (text : List Char) : Prop :=
  ∀ keyword ∈ keywords, startsWithKeyword keyword before text = false

section Reads

variable {before : Option Char} {text : List Char}

/-- A text that is not recognised as a token of another kind starts with no keyword. -/
theorem noKeyword_of_recognise? (h : recognise? before text = none) : NoKeyword before text := by
  intro keyword hkeyword
  by_contra hstarts
  obtain ⟨hbefore, c, rest, rfl, hc⟩ := startsWithKeyword_iff.mp (by simpa using hstarts)
  have hrest : (c :: rest).head?.any endsKeyword = true := hc
  rw [recognise?_keyword_append hkeyword hbefore hrest] at h
  cases h

/-- Of a token it matters only whether it is a statement, and where it ends. -/
theorem statements_covering (kind : TokenKind) (start length : Nat) (text : List Char) :
    statements [covering kind start length text] =
      if kind.isStatement then [(kind, start + length)] else [] := by
  by_cases hkind : kind.isStatement = true <;> simp [statements, covering, hkind]

/-- Comments and statements are read as by the tokens. -/
theorem reads_of_recognise? {kind : TokenKind} {length : Nat} (h : RegularFrom before text)
    (hrec : recognise? before text = some (kind, length)) : Reads before text kind length := by
  obtain ⟨piece, rest, rfl, rfl, hspan, hrest⟩ :=
    exists_piece_of_recognise? h.here.noBlock hrec
  have hne : piece ≠ [] := List.ne_nil_of_length_pos (recognise?_length_pos hrec)
  refine ⟨piece, rest, rfl, hne, rfl, hrest, fun start => ?_⟩
  rw [keywordStatements_append h hne hspan, Token.next, hrec]

/-- A declaration without a keyword is read up to the first line that starts with a letter. -/
theorem reads_span {kind : TokenKind} (h : RegularFrom before text)
    (hkeyword : NoKeyword before text) (hne : span text ≠ [])
    (hkind : kind.isStatement = false) : Reads before text kind (span text).length := by
  have hsplit := span_append_afterSpan text
  refine ⟨span text, afterSpan text, hsplit, hne, rfl, blankFirst_of_break (head?_afterSpan text),
    fun start => ?_⟩
  rw [← hsplit] at h
  have hpiece := keywordStatements_append h hne (span_span text) start
  rw [hsplit, statements_of_not_keyword hkeyword] at hpiece
  rw [hpiece, statements_cons_of_neg hkind]
  rfl

/-- A piece without a keyword can be put in front: what is read then goes from the front of the
piece to the end of what was read behind it, with the same statements. -/
theorem Reads.append {front rest : List Char} {kind : TokenKind} {length : Nat}
    (hrest : Reads front.getLast? rest kind length) (h : RegularFrom before (front ++ rest))
    (hkeyword : NoKeyword before (front ++ rest)) (hne : front ≠ []) (hspan : span front = front) :
    Reads before (front ++ rest) kind (front.length + length) := by
  obtain ⟨piece, behind, rfl, hpiece, rfl, hblank, hstatements⟩ := hrest
  refine ⟨front ++ piece, behind, List.append_assoc _ _ _, List.append_ne_nil_of_left_ne_nil hne _,
    List.length_append, hblank, fun start => ?_⟩
  rw [keywordStatements_append h hne hspan, statements_of_not_keyword hkeyword, List.nil_append,
    hstatements, List.getLast?_append_of_ne_nil _ hpiece, statements_covering,
    statements_covering, Nat.add_assoc]

/-- A declaration starts with no line break, so it is not empty. -/
theorem span_ne_nil {c : Char} (hc : c ≠ '\n') (rest : List Char) : span (c :: rest) ≠ [] := by
  rw [span, if_neg fun hend => hc hend.1]
  exact List.cons_ne_nil _ _

/-- A definition has a name in front, so that a statement takes at least this name. -/
theorem span_ne_nil_of_defined? {body name : List Char} (h : defined? body = some name) :
    span body ≠ [] := by
  obtain ⟨rest, hname⟩ := exists_functionName?_of_defined? h
  cases body with
  | nil => cases hname
  | cons c others =>
    apply span_ne_nil
    rintro rfl
    cases hname

/-- An annotation is read together with the definition behind it. -/
theorem reads_annotated {name : List Char} (h : RegularFrom before text)
    (hbefore : before.any isWordChar = false) (hkeyword : NoKeyword before text)
    (hne : span text ≠ []) (hannotated : annotated? (span text) = some name) :
    Reads before text .function
      ((span text).length + definitionLength name (text.drop (span text).length)) := by
  rw [← afterSpan]
  cases hafter : afterSpan text with
  | nil => exact reads_span h hkeyword hne rfl
  | cons c body =>
    rw [definitionLength]
    split
    · next hdefined =>
      obtain rfl : c = '\n' := head?_afterSpan text c (by rw [hafter]; rfl)
      have hbodyKeyword := not_keyword_of_defined? h.here hbefore hannotated hdefined
      have hlast : (span text ++ ['\n']).getLast? = some '\n' := List.getLast?_concat
      have hfrontNe : span text ++ ['\n'] ≠ [] := by simp
      have htext : (span text ++ ['\n']) ++ body = text := by
        rw [List.append_assoc, List.singleton_append, ← hafter, span_append_afterSpan]
      have hfrontSpan : span (span text ++ ['\n']) = span text ++ ['\n'] :=
        span_append_break (span_span text) rfl rfl
      have hlength : (span text).length + (1 + (span body).length) =
          (span text ++ ['\n']).length + (span body).length := by
        rw [List.length_append, Nat.add_assoc]
        rfl
      generalize span text ++ ['\n'] = front at hlast hfrontNe htext hfrontSpan hlength
      rw [hlength]
      subst htext
      have hregular := h.behind hfrontNe
      rw [← hlast] at hbodyKeyword
      exact (reads_span hregular hbodyKeyword (span_ne_nil_of_defined? hdefined) rfl).append h
        hkeyword hfrontNe hfrontSpan
    · exact reads_span h hkeyword hne rfl

/-- An ordinary declaration reads no statement over: its text, with an annotation and the definition
behind it as one piece, has no keyword at the front of a line. -/
theorem reads_ordinary (h : RegularFrom before text) (hbefore : before.any isWordChar = false)
    (hkeyword : NoKeyword before text) (hne : span text ≠ []) :
    Reads before text (ordinary text).1 (ordinary text).2 := by
  unfold ordinary
  dsimp only
  split
  · exact reads_span h hkeyword hne rfl
  · split
    · exact reads_span h hkeyword hne rfl
    · split
      · next hannotated => exact reads_annotated h hbefore hkeyword hne hannotated
      · split
        · exact reads_span h hkeyword hne rfl
        · exact reads_span h hkeyword hne rfl

/-- A word and blanks stand in front of the keyword of a special module. -/
theorem exists_blanks_of_specialModule? {rest : List Char} (h : specialModule? text = some rest) :
    ∃ word blanks, word ++ blanks ++ rest = text ∧ '\n' ∉ word ∧ blanks ≠ [] ∧
      ∀ c ∈ blanks, isBlank c = true := by
  have hblanks {word : List Char} (hword : '\n' ∉ word)
      (hafter : afterBlanks? word text = some rest) :
      ∃ word blanks, word ++ blanks ++ rest = text ∧ '\n' ∉ word ∧ blanks ≠ [] ∧
        ∀ c ∈ blanks, isBlank c = true := by
    unfold afterBlanks? at hafter
    split at hafter
    · next hstarts =>
      obtain rfl := Option.some.inj hafter
      obtain ⟨hfront, hblank⟩ := Bool.and_eq_true_iff.mp hstarts
      obtain ⟨others, rfl⟩ := List.isPrefixOf_iff_prefix.mp hfront
      rw [List.drop_left] at hblank ⊢
      refine ⟨word, others.takeWhile isBlank, ?_, hword, ?_, fun c hc => List.mem_takeWhile_imp hc⟩
      · rw [List.append_assoc, List.takeWhile_append_dropWhile]
      · cases others with
        | nil => cases hblank
        | cons c others =>
          have hc : isBlank c = true := hblank
          rw [List.takeWhile_cons_of_pos hc]
          exact List.cons_ne_nil _ _
    · cases hafter
  obtain ⟨hsome, -⟩ := Option.filter_eq_some_iff.mp h
  rcases Option.or_eq_some_iff.mp hsome with hport | ⟨-, heffect⟩
  · exact hblanks (by decide) hport
  · exact hblanks (by decide) heffect

/-- The statement of a special module is that of its keyword. -/
theorem reads_special {rest : List Char} (h : RegularFrom before text)
    (hkeyword : NoKeyword before text) (hspecial : specialModule? text = some rest)
    (hstarts : startsWithKeyword moduleKeyword none rest = true) :
    Reads before text (.moduleStatement (.ofSpan (span (rest.drop 6))))
      (text.length - rest.length + 6 + (span (rest.drop 6)).length) := by
  obtain ⟨word, blanks, rfl, hword, hne, hblanks⟩ := exists_blanks_of_specialModule? hspecial
  have hfrontNe : word ++ blanks ≠ [] := List.append_ne_nil_of_right_ne_nil _ hne
  have hlast : (word ++ blanks).getLast?.any isWordChar = false := by
    rw [List.getLast?_append_of_ne_nil _ hne, List.getLast?_eq_some_getLast hne]
    exact isWordChar_of_isBlank (hblanks _ (List.getLast_mem hne))
  have hblanksSpan : span blanks = blanks := by
    apply span_eq_self
    rintro front others rfl
    cases others with
    | nil => rfl
    | cons c others => exact isLetter_of_isBlank (hblanks c (by simp))
  have hfrontSpan : span (word ++ blanks) = word ++ blanks := by
    rw [span_append_of_not_mem hword, hblanksSpan]
  have hrec : recognise? (word ++ blanks).getLast? rest =
      some (.moduleStatement (.ofSpan (span (rest.drop 6))), 6 + (span (rest.drop 6)).length) := by
    obtain ⟨-, c, others, htext, hc⟩ := startsWithKeyword_iff.mp hstarts
    exact recognise?_of_moduleKeyword (startsWithKeyword_iff.mpr ⟨hlast, c, others, htext, hc⟩)
  have hlength : (word ++ blanks ++ rest).length - rest.length + 6 + (span (rest.drop 6)).length =
      (word ++ blanks).length + (6 + (span (rest.drop 6)).length) := by
    rw [List.length_append]
    omega
  rw [hlength]
  exact (reads_of_recognise? (h.behind hfrontNe) hrec).append h hkeyword hfrontNe hfrontSpan

/-- A declaration of any kind reads no statement over. -/
theorem reads_classify (h : RegularFrom before text) (hbefore : before.any isWordChar = false)
    (hkeyword : NoKeyword before text) (hne : span text ≠ []) :
    Reads before text (classify text).1 (classify text).2 := by
  unfold classify
  split
  · next rest hspecial =>
    split
    · next hstarts => exact reads_special h hkeyword hspecial hstarts
    · exact reads_ordinary h hbefore hkeyword hne
  · exact reads_ordinary h hbefore hkeyword hne

end Reads

/-- No keyword starts with a blank, so that the blanks between declarations hold no statement. -/
theorem noKeyword_of_isBlank {c : Char} (hc : isBlank c = true) (before : Option Char)
    (rest : List Char) : NoKeyword before (c :: rest) := by
  intro keyword hkeyword
  by_contra hstarts
  obtain ⟨-, d, others, htext, -⟩ := startsWithKeyword_iff.mp (by simpa using hstarts)
  have hletter : isLetter c = true := startsWithLetter_of_keyword hkeyword ⟨_, htext.symm⟩
  rw [isLetter_of_isBlank hc] at hletter
  cases hletter

/-- One declaration of a regular text accounts for the keywords that it covers. -/
theorem reads_next {before : Option Char} {c : Char} {rest : List Char}
    (h : RegularFrom before (c :: rest)) (hbefore : before.any isWordChar = false)
    (hc : isBlank c = false) (start : Nat) :
    ∃ piece others, (next before start (c :: rest)).text = piece ∧ piece ++ others = c :: rest ∧
      piece ≠ [] ∧ BlankFirst others ∧
      keywordStatements before start (c :: rest) =
        statements [next before start (c :: rest)] ++
          keywordStatements piece.getLast? (next before start (c :: rest)).stop others := by
  have hbreak : c ≠ '\n' := by
    rintro rfl
    exact absurd hc (by decide)
  have hreads : Reads before (c :: rest)
      ((recognise? before (c :: rest)).getD (classify (c :: rest))).1
      ((recognise? before (c :: rest)).getD (classify (c :: rest))).2 := by
    cases hrec : recognise? before (c :: rest) with
    | none =>
      exact reads_classify h hbefore (noKeyword_of_recognise? hrec) (span_ne_nil hbreak rest)
    | some found => exact reads_of_recognise? h hrec
  obtain ⟨piece, others, hsplit, hne, hlength, hblank, hstatements⟩ := hreads
  have htake : (c :: rest).take piece.length = piece := by rw [← hsplit, List.take_left]
  rw [hlength] at htake
  exact ⟨piece, others, htake, hsplit, hne, hblank, hstatements start⟩

/-- An empty text has no outline. -/
theorem ofText_nil (before : Option Char) (start : Nat) : ofText before start [] = [] := by
  rw [ofText.eq_def]

/-- A blank between declarations is left out of the outline. -/
theorem ofText_cons_of_isBlank {c : Char} (hc : isBlank c = true) (before : Option Char)
    (start : Nat) (rest : List Char) :
    ofText before start (c :: rest) = ofText (some c) (start + 1) rest := by
  rw [ofText.eq_def before start (c :: rest)]
  exact dif_pos hc

/-- What is not blank starts a declaration, and the outline goes on behind its text. -/
theorem ofText_cons_of_not_isBlank {before : Option Char} {start : Nat} {c : Char}
    {rest piece others : List Char} (hc : isBlank c = false)
    (hpiece : (next before start (c :: rest)).text = piece) (hsplit : piece ++ others = c :: rest) :
    ofText before start (c :: rest) =
      next before start (c :: rest) ::
        ofText piece.getLast? (next before start (c :: rest)).stop others := by
  have hothers : (c :: rest).drop piece.length = others := by rw [← hsplit, List.drop_left]
  rw [ofText.eq_def before start (c :: rest)]
  dsimp only
  rw [dif_neg (by simp [hc]), hpiece, hothers]

/-- The outline of a regular text has a statement for each of its keywords. -/
theorem statements_outline {before : Option Char} {text : List Char}
    (h : RegularFrom before text) (hbefore : before.any isWordChar = false ∨ BlankFirst text)
    (start : Nat) :
    statements (ofText before start text) = keywordStatements before start text := by
  induction hlength : text.length using Nat.strongRecOn generalizing before start text with
  | _ length ih =>
    cases text with
    | nil =>
      rw [ofText.eq_def, keywordStatements]
      rfl
    | cons c rest =>
      rw [List.length_cons] at hlength
      by_cases hblank : isBlank c = true
      · have hregular : RegularFrom (some c) rest := by
          rw [← List.getLast?_singleton]
          exact RegularFrom.behind h (List.cons_ne_nil c [])
        have hword : (some c).any isWordChar = false := isWordChar_of_isBlank hblank
        have hnone := noKeyword_of_isBlank hblank before rest
        rw [ofText_cons_of_isBlank hblank, keywordStatements, statements_of_not_keyword hnone,
          List.nil_append]
        exact ih _ (by omega) hregular (.inl hword) _ rfl
      · have hnotBlank : isBlank c = false := by simpa using hblank
        have hword : before.any isWordChar = false := by
          rcases hbefore with hword | hfirst
          · exact hword
          · exact absurd (blankFirst_cons.mp hfirst) hblank
        obtain ⟨piece, others, hpiece, hsplit, hne, hfirst, hstatements⟩ :=
          reads_next h hword hnotBlank start
        have hpos := List.length_pos_iff.mpr hne
        have hlengths := congrArg List.length hsplit
        rw [List.length_append, List.length_cons] at hlengths
        rw [← hsplit] at h
        rw [ofText_cons_of_not_isBlank hnotBlank hpiece hsplit, statements_cons, hstatements,
          ih _ (by omega) (h.behind hne) (.inr hfirst) _ rfl]

end Declaration

/-- The outline and the tokens of a content have the same statements, with the same ends, if no
block comment opens in it, every keyword stands in the first column, and neither keyword is followed
by a colon. -/
theorem Declaration.statements_all_eq {content : List Char}
    (hblock : ¬ ['{', '-'] <:+: content)
    (hcolumn : ∀ keyword ∈ keywords, ∀ p, keywordAt content p keyword = true →
      p = 0 ∨ content[p - 1]? = some '\n')
    (hcolon : ∀ keyword ∈ keywords, ∀ p, (charBefore content p).any isWordChar = false →
      keyword <+: content.drop p → ((content.drop (p + 6)).dropWhile isBlank).head? ≠ some ':') :
    Token.statements (Declaration.all content) = Token.statements (Token.all content) := by
  have hregular : Token.RegularFrom none content := by
    rintro front rest rfl
    have hbefore := Token.charBefore_append front rest
    rw [Option.or_none]
    refine ⟨?_, ?_, ?_⟩
    · by_contra hopens
      obtain ⟨others, rfl⟩ := Comment.opensBlock_iff.mp (by simpa using hopens)
      exact hblock ⟨front, others, by simp⟩
    · intro keyword hkeyword hstarts c hc
      have hat := hcolumn keyword hkeyword front.length
      rw [keywordAt, hbefore, List.drop_left] at hat
      rw [← hbefore, charBefore] at hc
      split at hc
      · cases hc
      · next hne =>
        rw [(hat hstarts).resolve_left hne] at hc
        exact (Option.some.inj hc).symm
    · intro keyword hkeyword hword hfront
      have hat := hcolon keyword hkeyword front.length
      rw [hbefore, List.drop_left, ← List.drop_drop, List.drop_left] at hat
      exact hat hword hfront
  rw [Declaration.all, Declaration.statements_outline hregular (.inl rfl), Token.all,
    Token.statements_ofText hregular]

/-- In this content the keyword of the module stands behind `port`, and the outline takes a
definition together with its annotation. -/
theorem Declaration.statements_all_eq_of_port :
    Token.statements (Declaration.all "port\nmodule A\nf:C\nf=x\nimport B".toList) =
      [(.moduleStatement ⟨"A", []⟩, 13), (.importStatement ⟨"B", none, []⟩, 30)] := by
  have hplaces : ∀ p < 30, ∀ keyword ∈ keywords,
      keyword <+: "port\nmodule A\nf:C\nf=x\nimport B".toList.drop p → p = 5 ∨ p = 22 := by
    decide +kernel
  have hplace {keyword : List Char} (hkeyword : keyword ∈ keywords) {p : Nat}
      (hfront : keyword <+: "port\nmodule A\nf:C\nf=x\nimport B".toList.drop p) :
      p = 5 ∨ p = 22 := by
    by_cases hp : p < 30
    · exact hplaces p hp keyword hkeyword hfront
    · have hlength := hfront.length_le
      rw [length_of_mem_keywords hkeyword, List.drop_eq_nil_of_le (by simpa using hp)] at hlength
      cases hlength
  have hsame : Token.statements (Declaration.all "port\nmodule A\nf:C\nf=x\nimport B".toList) =
      Token.statements (Token.all "port\nmodule A\nf:C\nf=x\nimport B".toList) := by
    apply Declaration.statements_all_eq
    · intro hopens
      exact absurd (hopens.subset List.mem_cons_self) (by decide)
    · intro keyword hkeyword p hat
      obtain ⟨-, c, rest, htext, -⟩ := startsWithKeyword_iff.mp hat
      rcases hplace hkeyword ⟨c :: rest, htext.symm⟩ with rfl | rfl
      · exact .inr (by decide)
      · exact .inr (by decide)
    · intro keyword hkeyword p _ hfront
      rcases hplace hkeyword hfront with rfl | rfl
      · decide
      · decide
  exact hsame.trans (by decide +kernel)

end ElmReach
