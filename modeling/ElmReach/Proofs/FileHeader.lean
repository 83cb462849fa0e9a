import ElmReach.Proofs.CommentBetween
import ElmReach.Proofs.ImportsKept
import ElmReach.Proofs.Layout
import ElmReach.Proofs.Listing
import ElmReach.Source.Declaration
import Mathlib.Tactic.Common

/-!
# File headers

A file may start with blanks and comments, and its module statement may start with the word of a
port or effect module. None of this holds a statement, whatever the comments say, and no character
of it sticks to the keyword. So the statement behind it is the first one of the file, and it names
the module.
-/

namespace ElmReach

open Text Statement Comment

namespace Comment

/-- The last character of a block comment is that of its closer. -/
theorem BlockAt.getLast?_take {content : List Char} {start stop : Nat}
    (h : BlockAt content start stop) : (content.take stop).getLast? = some '}' := by
  obtain @⟨_, close, -, -, hclose⟩ := h
  have hlast : content[close + 1]? = some '}' := by
    rw [← List.getElem?_drop, drop_of_standsAt hclose]
    rfl
  rw [List.getLast?_take, if_neg (by omega), Nat.add_sub_assoc (by omega), hlast]
  rfl

/-- Layout without the blanks in front of it is layout. -/
theorem Layout.dropWhile {layout : List Char} (h : Layout layout) :
    Layout (layout.dropWhile isBlank) := by
  induction h with
  | nil => exact .nil
  | blank hc _ ih => rwa [List.dropWhile_cons_of_pos hc]
  | block hcomment hrest _ =>
    have hlayout := Layout.block hcomment hrest
    obtain ⟨inner, rfl, -⟩ := exists_of_blockAt hcomment
    exact hlayout
  | line hcomment hrest _ => exact .line hcomment hrest

end Comment

namespace Name

/-- A text in front of which a name ends: it is empty, or it starts with a blank or a comment. -/
def Ends (rest : List Char) : Prop :=
  BlankFirst rest ∨ opensLine rest = true ∨ opensBlock rest = true

/-- What ends a header still ends it if the blanks behind it are trimmed away. -/
theorem Ends.trimEnd {rest : List Char} (h : Ends rest) : Ends (trimEnd rest) := by
  have hdelimiter {a b : Char} (others : List Char) (ha : isBlank b = false) :
      Text.trimEnd (a :: b :: others) = a :: b :: Text.trimEnd others :=
    @trimEnd_append [a, b] (by simp) (by simpa using ha) others
  rcases h with hblank | hline | hblock
  · obtain ⟨back, hback, -⟩ := exists_append_trimEnd rest
    refine .inl fun c hc => hblank c ?_
    rw [hback, List.head?_append, Option.mem_def.mp hc]
    rfl
  · obtain ⟨others, rfl⟩ := opensLine_iff.mp hline
    rw [hdelimiter others (by decide)]
    exact .inr (.inl rfl)
  · obtain ⟨others, rfl⟩ := opensBlock_iff.mp hblock
    rw [hdelimiter others (by decide)]
    exact .inr (.inr rfl)

/-- A name is read up to its end: a blank, a comment, or the end of the text. -/
theorem IsDotted.dotted_append_of_ends {name rest : List Char} (hname : IsDotted name)
    (hrest : Ends rest) : dotted (name ++ rest) = name := by
  rcases hrest with hblank | hcomment
  · rw [dotted_append hblank, hname.dotted_eq]
  · rw [← dotted_strip, strip_name_append hname, dotted_append (blankFirst_strip hcomment),
      hname.dotted_eq]

end Name

namespace Token

/-- The characters at which a comment or a keyword may start. At all others, a token is a marker. -/
def starters : List Char := ['-', '{', 'm', 'i']

/-- Nothing is recognised at any other character, which is then a marker. -/
theorem recognise?_of_notMem_starters {c : Char} (hc : c ∉ starters) (before : Option Char)
    (rest : List Char) : recognise? before (c :: rest) = none := by
  simp only [starters, List.mem_cons, List.not_mem_nil, or_false, not_or] at hc
  obtain ⟨hdash, hbrace, hm, hi⟩ := hc
  obtain ⟨hline, hblock⟩ : opensLine (c :: rest) = false ∧ opensBlock (c :: rest) = false :=
    not_opens_cons (fun _ h _ => hdash h) fun _ h _ => hbrace h
  have hkeyword {keyword : List Char} (hfirst : keyword.head? ≠ some c) (hne : keyword ≠ []) :
      startsWithKeyword keyword before (c :: rest) = false := by
    rw [Bool.eq_false_iff, ne_eq, startsWithKeyword_iff]
    rintro ⟨-, d, others, heq, -⟩
    have hhead := congrArg List.head? heq
    rw [List.head?_append_of_ne_nil _ hne] at hhead
    exact hfirst hhead.symm
  have hmodule := @hkeyword moduleKeyword (by simpa [moduleKeyword, eq_comm] using hm) (by decide)
  have himport := @hkeyword importKeyword (by simpa [importKeyword, eq_comm] using hi) (by decide)
  simp [recognise?, hline, hblock, hmodule, himport]

/-- Such characters in front of a text are markers, and they change nothing in the statements behind
them. -/
theorem statementKinds_append_of_notMem_starters {front : List Char}
    (hfront : ∀ c ∈ front, c ∉ starters) (before : Option Char) (rest : List Char) :
    statementKinds before (front ++ rest) = statementKinds (front.getLast?.or before) rest := by
  induction front generalizing before with
  | nil => rfl
  | cons c front ih =>
    obtain ⟨hc, hothers⟩ := List.forall_mem_cons.mp hfront
    have hrec := recognise?_of_notMem_starters hc before (front ++ rest)
    have hkind : (next before 0 (c :: (front ++ rest))).kind.isStatement = false := by
      rw [next, hrec]
      rfl
    have htext : (next before 0 (c :: (front ++ rest))).text = [c] := by
      rw [next, hrec]
      rfl
    rw [List.cons_append, statementKinds_of_not_isStatement (by simp) hkind, htext,
      behind_of_recognise?_none hrec, getLast?_cons_or, ← ih hothers]
    rfl

/-- No declaration starts with a blank. -/
theorem notMem_starters_of_isBlank {c : Char} (hc : isBlank c = true) : c ∉ starters := by
  intro hmem
  have hstarters : (starters.all fun c => !isBlank c) = true := by decide
  simpa [hc] using List.all_eq_true.mp hstarters c hmem

/-- A block comment at the start of a text is one token. -/
theorem next_blockAt {comment : List Char} (h : BlockAt comment 0 comment.length)
    (before : Option Char) (rest : List Char) :
    (next before 0 (comment ++ rest)).kind.isStatement = false ∧
      (next before 0 (comment ++ rest)).text = comment ∧
      behind before (comment ++ rest) = rest := by
  obtain ⟨inner, rfl, hafter⟩ := exists_of_blockAt h
  have hbehind : behind before ('{' :: '-' :: inner ++ rest) = rest := by
    rw [behind_of_opensBlock rfl]
    simpa [afterBlock] using hafter rest
  have htext := text_append_behind before 0 ('{' :: '-' :: inner ++ rest)
  rw [hbehind, List.append_left_inj] at htext
  exact ⟨rfl, htext, hbehind⟩

/-- Layout holds no statement, and a keyword may stand behind it. -/
theorem exists_statementKinds_of_layout {layout : List Char} (h : Layout layout)
    {before : Option Char} (hbefore : before.any isWordChar = false) (rest : List Char) :
    ∃ last, last.any isWordChar = false ∧
      statementKinds before (layout ++ rest) = statementKinds last rest := by
  induction h generalizing before with
  | nil => exact ⟨before, hbefore, rfl⟩
  | @blank c layout hc _ ih =>
    have hword : (some c).any isWordChar = false := isWordChar_of_isBlank hc
    have hmarker : ∀ d ∈ [c], d ∉ starters := by simpa using notMem_starters_of_isBlank hc
    obtain ⟨last, hlast, hkinds⟩ := ih hword
    refine ⟨last, hlast, ?_⟩
    exact (statementKinds_append_of_notMem_starters hmarker before (layout ++ rest)).trans hkinds
  | @block comment layout hcomment _ ih =>
    have hbrace : (some '}').any isWordChar = false := by decide
    obtain ⟨last, hlast, hkinds⟩ := ih hbrace
    obtain ⟨hkind, htext, hbehind⟩ := next_blockAt hcomment before (layout ++ rest)
    obtain ⟨inner, hne, -⟩ := exists_of_blockAt hcomment
    have hend := hcomment.getLast?_take
    rw [List.take_length] at hend
    refine ⟨last, hlast, ?_⟩
    rw [List.append_assoc, statementKinds_of_not_isStatement (by simp [hne]) hkind, htext, hbehind,
      hend, hkinds]
  | @line comment layout hcomment _ ih =>
    -- The comment may end with a word, but the line break stands between it and what follows.
    have hbreak : (some '\n').any isWordChar = false := by decide
    obtain ⟨last, hlast, hkinds⟩ := ih hbreak
    obtain ⟨hkind, hbehind⟩ :=
      next_comment (.inl ⟨comment, rfl, hcomment⟩) before 0 (layout ++ rest)
    have hsplit : '-' :: '-' :: (comment ++ '\n' :: layout) ++ rest =
        '-' :: '-' :: comment ++ '\n' :: (layout ++ rest) := by simp
    refine ⟨last, hlast, ?_⟩
    rw [hsplit, statementKinds_of_not_isStatement (by simp) hkind, hbehind, statementKinds_break,
      hkinds]

end Token

namespace Declaration

/-- What may stand in front of the keyword of a module: nothing, or the word of a port or effect
module and blanks. -/
def LeadsModule (lead : List Char) : Prop :=
  lead = [] ∨ ∃ word ∈ [portWord, effectWord], ∃ blanks, blanks ≠ [] ∧
    (∀ c ∈ blanks, isBlank c = true) ∧ lead = word ++ blanks

variable {lead : List Char}

/-- Nothing is recognised in front of the keyword, and nothing sticks to it. -/
theorem LeadsModule.exists_statementKinds (h : LeadsModule lead) {before : Option Char}
    (hbefore : before.any isWordChar = false) (rest : List Char) :
    ∃ last, last.any isWordChar = false ∧
      Token.statementKinds before (lead ++ rest) = Token.statementKinds last rest := by
  obtain rfl | ⟨word, hword, blanks, hne, hblanks, rfl⟩ := h
  · exact ⟨before, hbefore, rfl⟩
  · have hletters : ∀ word ∈ [portWord, effectWord],
        (word.all fun c => decide (c ∉ Token.starters)) = true := by decide
    have hfront : ∀ c ∈ word ++ blanks, c ∉ Token.starters := by
      intro c hc
      rcases List.mem_append.mp hc with hc | hc
      · exact of_decide_eq_true (List.all_eq_true.mp (hletters word hword) c hc)
      · exact Token.notMem_starters_of_isBlank (hblanks c hc)
    refine ⟨_, ?_, Token.statementKinds_append_of_notMem_starters hfront before rest⟩
    rw [List.getLast?_append_of_ne_nil _ hne, List.getLast?_eq_some_getLast hne]
    exact isWordChar_of_isBlank (hblanks _ (List.getLast_mem hne))

/-- What stands in front of the keyword does not start with a blank. -/
theorem LeadsModule.head? (h : LeadsModule lead) (rest : List Char) :
    ∀ c ∈ (lead ++ (moduleKeyword ++ rest)).head?, isBlank c = false := by
  obtain rfl | ⟨word, hword, blanks, -, -, rfl⟩ := h
  · rintro c ⟨rfl⟩
    decide
  · simp only [List.mem_cons, List.not_mem_nil, or_false] at hword
    rcases hword with rfl | rfl <;>
    · rintro c ⟨rfl⟩
      decide

end Declaration

namespace Token

open Declaration

/-- The first statement behind a header is that of the module. The header holds none, and what leads
the keyword does not hide it. -/
theorem exists_statementKinds_header {header lead rest : List Char} (hheader : Layout header)
    (hlead : LeadsModule lead) :
    ∃ others, statementKinds none (header ++ (lead ++ (moduleKeyword ++ ' ' :: rest))) =
      .moduleStatement (.ofSpan (span (' ' :: rest))) :: others := by
  obtain ⟨before, hbefore, hlayout⟩ := exists_statementKinds_of_layout hheader
    (rfl : none.any isWordChar = false) (lead ++ (moduleKeyword ++ ' ' :: rest))
  obtain ⟨last, hlast, hkinds⟩ := hlead.exists_statementKinds hbefore (moduleKeyword ++ ' ' :: rest)
  have hkind := @kind_next_keyword_append moduleKeyword (' ' :: rest) last (by decide) hlast rfl 0
  have hstatement : (next last 0 (moduleKeyword ++ ' ' :: rest)).kind.isStatement = true := by
    rw [hkind, isStatement_kindOf]
  rw [hlayout, hkinds, statementKinds_of_ne_nil (by simp) last 0, statements_cons_of_pos hstatement,
    hkind]
  exact ⟨_, rfl⟩

end Token

/-- A name behind a single space and in front of its end is the name of the statement. -/
theorem ModuleStatement.name_ofSpan_span {name rest : List Char} (hname : Name.IsDotted name)
    (hrest : Name.Ends rest) :
    (ofSpan (span (' ' :: (name ++ rest)))).name = String.ofList name := by
  rw [← String.toList_inj, toList_name_ofSpan, dotted_plain_span hname (List.prefix_append _ _),
    hname.dotted_append_of_ends hrest, String.toList_ofList]

/-- The first statement is the module statement of the text if it is one at all. -/
theorem Summary.moduleStatement_of_statementKinds {content : List Char}
    {statement : ModuleStatement} {others : List TokenKind}
    (h : Token.statementKinds none content = .moduleStatement statement :: others) :
    (ofContent content).moduleStatement = some statement := by
  obtain ⟨hmodules, -⟩ := statements_eq_filterMap (Token.all content)
  rw [Token.all, ← Token.statementKinds, h] at hmodules
  rw [moduleStatement, ofContent, Token.all, hmodules]
  rfl

namespace SourceModule

open Declaration

/-- Blanks at the ends of a file belong to its header and to what follows the name. -/
theorem trim_header {header lead name rest : List Char} (hlead : LeadsModule lead)
    (hname : Name.IsDotted name) :
    trim (header ++ (lead ++ (moduleKeyword ++ ' ' :: (name ++ rest)))) =
      header.dropWhile isBlank ++ (lead ++ (moduleKeyword ++ ' ' :: (name ++ trimEnd rest))) := by
  have hassoc (rest : List Char) : lead ++ (moduleKeyword ++ ' ' :: (name ++ rest)) =
      lead ++ (moduleKeyword ++ ' ' :: name) ++ rest := by simp
  have htrimmed : Trimmed (lead ++ (moduleKeyword ++ ' ' :: name)) := by
    refine ⟨hlead.head? (' ' :: name), fun c hc => ?_⟩
    rw [List.append_cons, ← List.append_assoc, List.getLast?_append_of_ne_nil _ hname.ne_nil] at hc
    exact hname.not_isBlank c (List.mem_of_mem_getLast? hc)
  rw [hassoc, hassoc, htrimmed.trim_append (by simp [moduleKeyword])]

/-- A file header does not hide the name of a module: behind any blanks and comments, the first
module statement names it, whatever follows the name. -/
theorem name_ofContent_of_header {header lead name rest : List Char} (hheader : Layout header)
    (hlead : LeadsModule lead) (hname : Name.IsDotted name) (hrest : Name.Ends rest)
    (path : String) (sourceRoot : Option String) (past : List LogRecord) :
    ∃ source,
      (ofContent path (header ++ (lead ++ (moduleKeyword ++ ' ' :: (name ++ rest)))) sourceRoot
        past).outcome = .ok source ∧ source.path = path ∧ source.name = String.ofList name := by
  have hcontent := @trim_header header lead name rest hlead hname
  have hspan := ModuleStatement.name_ofSpan_span hname hrest.trimEnd
  obtain ⟨others, hkinds⟩ :=
    @Token.exists_statementKinds_header _ _ (name ++ trimEnd rest) hheader.dropWhile hlead
  rw [← hcontent] at hkinds
  have hstatement := Summary.moduleStatement_of_statementKinds hkinds
  have hne : String.ofList name ≠ "" := by simpa using hname.ne_nil
  rw [← hspan] at hne ⊢
  exact ⟨_, (SourceText.hasOutcome_summary _).after
    (hasOutcome_ofSummary hstatement hne path sourceRoot) past, rfl, rfl⟩

/-- The header holds module statements in its comments, and another one follows the name. -/
theorem name_ofContent_of_effectModule :
    Layout "\x7b-module X\x7b--\x7d-\x7d--module Y\n".toList ∧
      ∃ source,
        (ofContent "Main.elm"
          "\x7b-module X\x7b--\x7d-\x7d--module Y\neffect\tmodule A.B--\nmodule C".toList none
          []).outcome = .ok source ∧ source.path = "Main.elm" ∧ source.name = "A.B" := by
  have hblock : BlockAt "\x7b-module X\x7b--\x7d-\x7d".toList 0 16 := by
    refine .mk (by decide) ?_ (by decide)
    iterate 8 refine .char (by decide) (by decide) (by decide) ?_
    exact .block (.mk (by decide) (.nil 12) (by decide)) (.nil 14)
  have hheader : Layout "\x7b-module X\x7b--\x7d-\x7d--module Y\n".toList :=
    .block hblock (@Layout.line "module Y".toList _ (by decide) .nil)
  have hlead : LeadsModule "effect\t".toList :=
    .inr ⟨effectWord, by decide, ['\t'], by decide, List.forall_mem_singleton.mpr (by decide), rfl⟩
  have hname : Name.IsDotted "A.B".toList :=
    @Name.IsDotted.dot ['A'] ['B'] ⟨'A', [], rfl, by decide, List.forall_mem_nil _⟩
      (.word ⟨'B', [], rfl, by decide, List.forall_mem_nil _⟩)
  have hrest : Name.Ends "--\nmodule C".toList := .inr (.inl rfl)
  exact ⟨hheader, name_ofContent_of_header hheader hlead hname hrest "Main.elm" none []⟩

end SourceModule

end ElmReach
