import ElmReach.Proofs.BlankText
import ElmReach.Proofs.Concatenation
import ElmReach.Source.Summary
import Mathlib.Data.List.Infix
import Mathlib.Tactic.Common

/-!
# Comments between statements

A comment on lines of its own between two top-level statements changes neither of them. Behind plain
text it is a token of its own. Behind a statement it belongs to the span of the statement, because
no letter stands in front of it, and there it is stripped off: it leaves only blanks at the end of
the statement's text. So nothing that is written in the comment counts as a statement.
-/

namespace ElmReach

open Text Statement

namespace Text

/-- A blank keeps the words on its two sides apart, so that each side can be looked at on its
own. -/
theorem words_append_blank {b : Char} (hb : isBlank b = true) (text rest : List Char) :
    words (text ++ b :: rest) = words text ++ words rest := by
  induction hlength : text.length using Nat.strongRecOn generalizing text with
  | _ length ih =>
    obtain ⟨word, others, rfl, hword, hothers⟩ := exists_append_blankFirst text
    -- What follows the first word is dealt with first, then the word is put in front.
    have htail : words (others ++ b :: rest) = words others ++ words rest := by
      cases others with
      | nil => simp [words_cons_of_isBlank hb, words]
      | cons d others =>
        have hd := blankFirst_cons.mp hothers
        have hshorter : others.length < length := by
          rw [← hlength, List.length_append, List.length_cons]
          omega
        rw [List.cons_append, words_cons_of_isBlank hd, words_cons_of_isBlank hd]
        exact ih _ hshorter others rfl
    by_cases hne : word = []
    · rw [hne, List.nil_append]
      exact htail
    · have hfirst : BlankFirst (others ++ b :: rest) := by
        cases others with
        | nil => exact blankFirst_cons.mpr hb
        | cons d others => exact hothers
      rw [List.append_assoc, words_append hne hword hfirst, words_append hne hword hothers, htail,
        List.cons_append]

end Text

namespace Comment

/-- The text is a line comment without the line break behind it: two dashes, and anything on the
same line. -/
def IsLine (text : List Char) : Prop :=
  ∃ rest, text = '-' :: '-' :: rest ∧ '\n' ∉ rest

/-- The text is one block comment, with all that nests in it: reading it as a comment ends at the
end of the text, with as many closers as openers. -/
structure IsBlock (text : List Char) : Prop where
  opens : opensBlock text = true
  whole : blockEnd text 0 = text.length
  closed : openAtEnd 0 text = 0

/-- Whether the scan for comments ends inside of a block comment. If it does, the comment goes on in
what is put behind the text. -/
def leavesOpen : List Char → Bool
  | '-' :: '-' :: rest => leavesOpen (afterLine rest)
  | '{' :: '-' :: rest => openAtEnd 1 rest != 0 || leavesOpen (afterBlock 1 rest)
  | _ :: rest => leavesOpen rest
  | [] => false
termination_by text => text.length
decreasing_by
  · have := length_afterLine_le rest
    simp only [List.length_cons]
    omega
  · have := length_afterBlock_le 1 rest
    simp only [List.length_cons]
    omega
  · simp

/-- A line comment without a line break runs to the end of the text. -/
theorem afterLine_eq_nil {text : List Char} (h : '\n' ∉ text) : afterLine text = [] := by
  rw [afterLine, List.dropWhile_eq_nil_iff]
  intro c hc
  have hne : c ≠ '\n' := by
    rintro rfl
    exact h hc
  simpa using hne

/-- Nothing is left behind a block comment: it closes with its last two characters. -/
theorem IsBlock.afterBlock_eq_nil {text : List Char} (h : IsBlock text) :
    afterBlock 0 text = [] := by
  have hwhole := h.whole
  have hlt := length_afterBlock_lt_of_opensBlock h.opens
  rw [blockEnd, List.drop_zero] at hwhole
  exact List.length_eq_zero_iff.mp (by omega)

/-- Stripping leaves nothing but blanks of a comment. -/
theorem isBlank_of_mem_strip {text : List Char} (h : IsLine text ∨ IsBlock text) :
    ∀ c ∈ strip text, isBlank c = true := by
  rcases h with ⟨rest, rfl, hrest⟩ | hblock
  · rw [strip, afterLine_eq_nil hrest, strip]
    simp
  · have hafter := hblock.afterBlock_eq_nil
    obtain ⟨rest, rfl⟩ := opensBlock_iff.mp hblock.opens
    rw [afterBlock, Int.zero_add] at hafter
    rw [strip, hafter, strip]
    simpa using (by decide : isBlank ' ' = true)

/-- A comment does not start with a letter, so it ends no statement that stands in front of it. -/
theorem startsWithLetter_of_comment {text : List Char} (h : IsLine text ∨ IsBlock text) :
    startsWithLetter text = false := by
  rcases h with ⟨rest, rfl, -⟩ | hblock
  · exact (by decide : isLetter '-' = false)
  · obtain ⟨rest, rfl⟩ := opensBlock_iff.mp hblock.opens
    exact (by decide : isLetter '{' = false)

/-- A line break ends a line comment at the latest; what stands behind it is not a part of the
comment. -/
theorem afterLine_append_break (text rest : List Char) :
    afterLine (text ++ '\n' :: rest) = afterLine text ++ '\n' :: rest := by
  induction text with
  | nil => rfl
  | cons c text ih =>
    by_cases hc : c = '\n'
    · simp [afterLine, hc]
    · simpa [afterLine, hc] using ih

/-- If no block comment is open at a line break, the two sides of it are stripped apart. -/
theorem strip_append_break {text : List Char} (h : leavesOpen text = false) (rest : List Char) :
    strip (text ++ '\n' :: rest) = strip text ++ '\n' :: strip rest := by
  fun_induction leavesOpen text with
  | case1 text ih =>
    rw [List.cons_append, List.cons_append, strip, afterLine_append_break, ih h, strip]
  | case2 text ih =>
    obtain ⟨hclosed, hafter⟩ : openAtEnd 1 text = 0 ∧ leavesOpen (afterBlock 1 text) = false := by
      simpa using h
    rw [List.cons_append, List.cons_append, strip, afterBlock_append (Int.le_refl 1) hclosed,
      ih hafter, strip, List.cons_append]
  | case3 c text hline hblock ih =>
    obtain ⟨hopensLine, hopensBlock⟩ := not_opens_cons hline hblock
    have happend : strip (c :: (text ++ '\n' :: rest)) = c :: strip (text ++ '\n' :: rest) := by
      apply strip_cons
      · rw [← List.cons_append, opensLine_append_break (by simp), hopensLine]
      · rw [← List.cons_append, opensBlock_append_break (by simp), hopensBlock]
    rw [List.cons_append, happend, strip_cons hopensLine hopensBlock, ih h, List.cons_append]
  | case4 => rw [List.nil_append, strip_cons_of_ne (by decide) (by decide), strip, List.nil_append]

end Comment

namespace Statement

/-- A comment behind a statement does not change the text that is read, since stripping leaves
nothing but blanks of it, and these are trimmed away. -/
theorem plain_append_comment {body comment : List Char} (hbody : Comment.leavesOpen body = false)
    (hcomment : Comment.IsLine comment ∨ Comment.IsBlock comment) :
    plain (body ++ '\n' :: comment) = plain body := by
  rw [plain, collapse, Comment.strip_append_break hbody, words_append_blank (by decide),
    words_eq_nil (Comment.isBlank_of_mem_strip hcomment), List.append_nil, plain, collapse]

end Statement

namespace Token

/-- No block comment is open behind the tokens: the last one is not a block comment without its
closer, and if it is a statement, the scan for comments does not end inside of one there. -/
def LeaveNoneOpen (tokens : List Token) : Prop :=
  ∀ token ∈ tokens.getLast?,
    (token.kind = .comment .block → Comment.openAtEnd 0 token.text = 0) ∧
      (token.kind.isStatement = true → Comment.leavesOpen (token.text.drop 6) = false)

/-- Whether tokens leave no comment open can be decided, since only the last one matters. -/
instance (tokens : List Token) : Decidable (LeaveNoneOpen tokens) :=
  inferInstanceAs (Decidable (∀ token ∈ tokens.getLast?,
    (token.kind = .comment .block → Comment.openAtEnd 0 token.text = 0) ∧
      (token.kind.isStatement = true → Comment.leavesOpen (token.text.drop 6) = false)))

/-- If tokens leave no comment open, so do those behind the first one. -/
theorem LeaveNoneOpen.tail {token : Token} {tokens : List Token}
    (h : LeaveNoneOpen (token :: tokens)) : LeaveNoneOpen tokens :=
  fun last hlast => h last (List.mem_getLast?_cons hlast)

/-- A comment at the start of a text is one token. Reading goes on behind it as it does behind a
line break. -/
theorem next_comment {comment : List Char}
    (h : Comment.IsLine comment ∨ Comment.IsBlock comment) (before : Option Char) (start : Nat)
    (rest : List Char) :
    (next before start (comment ++ '\n' :: rest)).kind.isStatement = false ∧
      behind before (comment ++ '\n' :: rest) = '\n' :: rest := by
  rcases h with ⟨others, rfl, hothers⟩ | hblock
  · have hbreak : '\n' ∉ '-' :: '-' :: others := by simpa using hothers
    refine ⟨rfl, ?_⟩
    rw [behind_of_opensLine rfl, Comment.afterLine_append_break,
      Comment.afterLine_eq_nil hbreak, List.nil_append]
  · have hnil := hblock.afterBlock_eq_nil
    have hafter := Comment.afterBlock_append_of_opensBlock hblock.opens hblock.closed ('\n' :: rest)
    rw [hnil, List.nil_append] at hafter
    obtain ⟨others, rfl⟩ := Comment.opensBlock_iff.mp hblock.opens
    exact ⟨rfl, by rw [behind_of_opensBlock rfl, hafter]⟩

/-- The kinds of the statements in a text, which do not depend on where the text stands. -/
def statementKinds (before : Option Char) (text : List Char) : List TokenKind :=
  (statements (ofText before 0 text)).map Prod.fst

/-- Wherever a text stands, the statements among its tokens have the same kinds. -/
theorem map_fst_statements_ofText (before : Option Char) (start : Nat) (text : List Char) :
    (statements (ofText before start text)).map Prod.fst = statementKinds before text := by
  have hshift := ofText_shift before 0 start text
  rw [Nat.zero_add] at hshift
  rw [hshift, statementKinds, statements, statements, List.filter_map, List.map_map, List.map_map,
    List.map_map]
  rfl

/-- The kinds of the statements of a text are that of its first token, if it is one, and those of
the text behind this token. -/
theorem statementKinds_of_ne_nil {text : List Char} (h : text ≠ []) (before : Option Char)
    (start : Nat) :
    statementKinds before text =
      (statements [next before start text]).map Prod.fst ++
        statementKinds (next before start text).text.getLast? (behind before text) := by
  rw [← map_fst_statements_ofText before start, ofText_of_ne_nil h, statements_cons,
    List.map_append, map_fst_statements_ofText]

/-- A token that is no statement is passed over when statements are listed. Comments and markers are
such tokens. -/
theorem statementKinds_of_not_isStatement {text : List Char} (hne : text ≠ [])
    {before : Option Char} (h : (next before 0 text).kind.isStatement = false) :
    statementKinds before text =
      statementKinds (next before 0 text).text.getLast? (behind before text) := by
  rw [statementKinds_of_ne_nil hne before 0, statements_cons_of_neg h]
  rfl

/-- A line break holds no statement, and the next line is read as a text of its own. -/
theorem statementKinds_break (before : Option Char) (rest : List Char) :
    statementKinds before ('\n' :: rest) = statementKinds (some '\n') rest := by
  rw [statementKinds, ofText_break, statements_cons_of_neg rfl, map_fst_statements_ofText]

/-- A statement that reaches to a line break is the first one of the text, and reading goes on with
the next line. -/
theorem statementKinds_keyword {keyword body second : List Char} {before : Option Char}
    (hkeyword : keyword ∈ keywords) (hbefore : before.any isWordChar = false)
    (hbody : ∀ c ∈ body.head?, endsKeyword c = true) (hspan : span body = body)
    (hsecond : startsWithLetter second = true) :
    statementKinds before (keyword ++ body ++ '\n' :: second) =
      kindOf keyword body :: statementKinds (some '\n') second := by
  have hends : (body ++ '\n' :: second).head?.any endsKeyword = true := by
    cases body with
    | nil => exact (by decide : endsKeyword '\n' = true)
    | cons c body => exact hbody c rfl
  have hbodySpan : span (body ++ '\n' :: second) = body := by
    rw [span_append_letter hsecond, hspan]
  have hafter : afterSpan (body ++ '\n' :: second) = '\n' :: second := by
    rw [afterSpan, hbodySpan, List.drop_left]
  have hkind := kind_next_keyword_append hkeyword hbefore hends 0
  rw [hbodySpan] at hkind
  rw [List.append_assoc, statementKinds_of_ne_nil (by simp) before 0,
    behind_keyword_append hkeyword hbefore hends, hafter, statementKinds_break,
    statements_cons_of_pos (by rw [hkind, isStatement_kindOf]), hkind]
  rfl

/-- The text is a statement up to its end, or a line break behind it makes it one. -/
def EndsInStatement (before : Option Char) (text : List Char) : Prop :=
  before.any isWordChar = false ∧
    ∃ keyword ∈ keywords, ∃ body, text = keyword ++ body ∧
      (∀ c ∈ body.head?, endsKeyword c = true) ∧ span body = body

/-- If no block comment is open behind a text that is a statement, none is open behind the text of
the statement. -/
theorem leavesOpen_body {keyword body : List Char} {before : Option Char} {start : Nat}
    (hkeyword : keyword ∈ keywords) (hbefore : before.any isWordChar = false)
    (hbody : ∀ c ∈ body.head?, endsKeyword c = true) (hspan : span body = body)
    (hclosed : LeaveNoneOpen (ofText before start (keyword ++ body))) :
    Comment.leavesOpen body = false := by
  cases body with
  | nil => rw [Comment.leavesOpen]
  | cons c body =>
    have hends : (c :: body).head?.any endsKeyword = true := hbody c rfl
    have hbehind : behind before (keyword ++ c :: body) = [] := by
      rw [behind_keyword_append hkeyword hbefore hends, afterSpan, hspan, List.drop_length]
    have hkind := kind_next_keyword_append hkeyword hbefore hends start
    have htext := text_append_behind before start (keyword ++ c :: body)
    rw [hbehind, List.append_nil] at htext
    rw [ofText_of_ne_nil (by simp), hbehind, ofText] at hclosed
    obtain ⟨-, hstatement⟩ := hclosed (next before start (keyword ++ c :: body)) rfl
    have hopen := hstatement (by rw [hkind, isStatement_kindOf])
    rwa [htext, ← length_of_mem_keywords hkeyword, List.drop_left] at hopen

/-- A text that does not end in a statement is read in the same way whatever lines follow. -/
theorem recognise?_append_of_not_endsInStatement {before : Option Char} {text : List Char}
    {start : Nat} (hne : text ≠ []) (hend : ¬ EndsInStatement before text)
    (hclosed : LeaveNoneOpen (ofText before start text)) (rest : List Char) :
    recognise? before (text ++ '\n' :: rest) = recognise? before text := by
  apply recognise?_append_break hne
  · intro hbefore
    have hkeyword (keyword : List Char) (hmem : keyword ∈ keywords) : text ≠ keyword := by
      rintro rfl
      exact hend ⟨hbefore, text, hmem, [], by simp, by simp, rfl⟩
    exact ⟨hkeyword _ (by decide), hkeyword _ (by decide)⟩
  · intro hblock
    exact openAtEnd_eq_zero hblock fun token htoken => (hclosed token htoken).1
  · intro hstarts
    apply span_append_of_ne
    intro hspan
    have hstatement (keyword : List Char) (hmem : keyword ∈ keywords)
        (hstarts : startsWithKeyword keyword before text = true) : False := by
      obtain ⟨hbefore, c, others, rfl, hc⟩ := startsWithKeyword_iff.mp hstarts
      rw [← length_of_mem_keywords hmem, List.drop_left] at hspan
      exact hend ⟨hbefore, keyword, hmem, c :: others, rfl, by simpa using hc, hspan⟩
    rcases hstarts with hmodule | himport
    · exact hstatement _ (by decide) hmodule
    · exact hstatement _ (by decide) himport

section Insert

variable {comment second : List Char}
  (hcomment : Comment.IsLine comment ∨ Comment.IsBlock comment)

include hcomment

/-- Behind a line break the comment is a token of its own. -/
theorem statementKinds_comment (before : Option Char) (second : List Char) :
    statementKinds before ('\n' :: (comment ++ '\n' :: second)) =
      statementKinds before ('\n' :: second) := by
  obtain ⟨hkind, hbehind⟩ := next_comment hcomment (some '\n') 0 second
  have hne : comment ++ '\n' :: second ≠ [] := by simp
  rw [statementKinds_break, statementKinds_break, statementKinds_of_not_isStatement hne hkind,
    hbehind, statementKinds_break]

/-- Behind a statement the comment belongs to the span of the statement. -/
theorem statementKinds_insert_of_endsInStatement {first : List Char}
    (hspan : span comment = comment) (hsecond : startsWithLetter second = true)
    {before : Option Char} {start : Nat} (hend : EndsInStatement before first)
    (hclosed : LeaveNoneOpen (ofText before start first)) :
    statementKinds before (first ++ '\n' :: (comment ++ '\n' :: second)) =
      statementKinds before (first ++ '\n' :: second) := by
  obtain ⟨hbefore, keyword, hkeyword, body, rfl, hbody, hbodySpan⟩ := hend
  have hopen := leavesOpen_body hkeyword hbefore hbody hbodySpan hclosed
  have hlonger : ∀ c ∈ (body ++ '\n' :: comment).head?, endsKeyword c = true := by
    cases body with
    | nil => simpa using (by decide : endsKeyword '\n' = true)
    | cons c body => exact hbody
  have hlongerSpan := span_append_break hbodySpan
    (Comment.startsWithLetter_of_comment hcomment) hspan
  have hkind : kindOf keyword (body ++ '\n' :: comment) = kindOf keyword body := by
    have hplain := plain_append_comment hopen hcomment
    simp only [kindOf, ModuleStatement.ofSpan, ImportStatement.ofSpan, hplain]
  have hassoc : keyword ++ body ++ '\n' :: (comment ++ '\n' :: second) =
      keyword ++ (body ++ '\n' :: comment) ++ '\n' :: second := by simp
  rw [hassoc, statementKinds_keyword hkeyword hbefore hlonger hlongerSpan hsecond,
    statementKinds_keyword hkeyword hbefore hbody hbodySpan hsecond, hkind]

/-- A comment between two lines does not change the statements. Behind a statement it belongs to its
span, and anywhere else it is a token of its own. -/
theorem statementKinds_insert {first : List Char} (hspan : span comment = comment)
    (hsecond : startsWithLetter second = true) (before : Option Char) (start : Nat)
    (hclosed : LeaveNoneOpen (ofText before start first)) :
    statementKinds before (first ++ '\n' :: (comment ++ '\n' :: second)) =
      statementKinds before (first ++ '\n' :: second) := by
  induction before, start, first using run_induction with
  | nil before start => exact statementKinds_comment hcomment before second
  | cons before start c rest ih =>
    by_cases hend : EndsInStatement before (c :: rest)
    · exact statementKinds_insert_of_endsInStatement hcomment hspan hsecond hend hclosed
    · have hne : c :: rest ≠ [] := List.cons_ne_nil c rest
      have hstep (line : List Char) : statementKinds before (c :: rest ++ '\n' :: line) =
          (statements [next before start (c :: rest)]).map Prod.fst ++
            statementKinds (next before start (c :: rest)).text.getLast?
              (behind before (c :: rest) ++ '\n' :: line) := by
        have hrec := recognise?_append_of_not_endsInStatement hne hend hclosed line
        obtain ⟨hnext, hbehind⟩ := next_append hne hrec start
        rw [statementKinds_of_ne_nil (List.append_ne_nil_of_left_ne_nil hne _) before start, hnext,
          hbehind]
      rw [ofText_cons] at hclosed
      rw [hstep, hstep, ih hclosed.tail]

end Insert

end Token

namespace Summary

/-- The statements are collected from the tokens that are statements. -/
theorem statements_eq_filterMap (tokens : List Token) :
    (ofTokens tokens).moduleStatements =
        ((Token.statements tokens).map Prod.fst).filterMap
          (fun kind => Token.moduleStatement? ⟨kind, 0, 0, []⟩) ∧
      (ofTokens tokens).imports =
        ((Token.statements tokens).map Prod.fst).filterMap
          (fun kind => Token.importStatement? ⟨kind, 0, 0, []⟩) := by
  induction tokens with
  | nil => exact ⟨rfl, rfl⟩
  | cons token tokens ih =>
    obtain ⟨kind, start, stop, text⟩ := token
    obtain ⟨hmodules, himports⟩ := ih
    simp only [ofTokens] at hmodules himports ⊢
    rw [List.filterMap_cons, List.filterMap_cons, hmodules, himports]
    cases kind <;> exact ⟨rfl, rfl⟩

/-- A comment between two top-level statements is transparent: with and without it the same module
statement and the same imports are found. -/
theorem statements_insert_comment {first comment second : List Char}
    (hsecond : startsWithLetter second = true)
    (hcomment : Comment.IsLine comment ∨ Comment.IsBlock comment)
    (hbreaks : ∀ front rest, comment = front ++ '\n' :: rest → startsWithLetter rest = false)
    (hfirst : Token.LeaveNoneOpen (Token.all first)) :
    (ofContent (first ++ '\n' :: (comment ++ '\n' :: second))).moduleStatement =
        (ofContent (first ++ '\n' :: second)).moduleStatement ∧
      (ofContent (first ++ '\n' :: (comment ++ '\n' :: second))).imports =
        (ofContent (first ++ '\n' :: second)).imports := by
  have hkinds := Token.statementKinds_insert hcomment (span_eq_self hbreaks) hsecond none 0 hfirst
  have hwith := statements_eq_filterMap (Token.all (first ++ '\n' :: (comment ++ '\n' :: second)))
  have hwithout := statements_eq_filterMap (Token.all (first ++ '\n' :: second))
  rw [Token.all, ← Token.statementKinds] at hwith hwithout
  refine ⟨?_, ?_⟩
  · rw [moduleStatement, moduleStatement, ofContent, ofContent, Token.all, Token.all, hwith.1,
      hwithout.1, hkinds]
  · rw [ofContent, ofContent, Token.all, Token.all, hwith.2, hwithout.2, hkinds]

/-- The comment stands behind a statement that ends with a line comment, and it holds an import. -/
theorem statements_insert_comment_behind_import :
    (ofContent
        ("module A\nimport B -- \x7b-".toList ++
          '\n' :: ("\x7b- \x7b- -\x7d\n import C -\x7d".toList ++
            '\n' :: "import D".toList))).imports =
      [⟨"B", none, []⟩, ⟨"D", none, []⟩] := by
  have htails : ∀ tail ∈ "\x7b- \x7b- -\x7d\n import C -\x7d".toList.tails,
      tail.head? = some '\n' → startsWithLetter tail.tail = false := by decide
  have hbreaks (front rest : List Char)
      (h : "\x7b- \x7b- -\x7d\n import C -\x7d".toList = front ++ '\n' :: rest) :
      startsWithLetter rest = false :=
    htails ('\n' :: rest) ((List.mem_tails _ _).mpr ⟨front, h.symm⟩) rfl
  obtain ⟨-, himports⟩ :=
    @statements_insert_comment "module A\nimport B -- \x7b-".toList _ "import D".toList (by decide)
      (.inr ⟨by decide, by decide +kernel, by decide +kernel⟩) hbreaks (by decide +kernel)
  exact himports.trans (by decide +kernel)

end Summary

end ElmReach
