import ElmReach.Proofs.PlainText
import ElmReach.Proofs.TokenRun
import Mathlib.Tactic.Common

/-!
# No import is lost

A statement may end inside of a block comment, and the tokens behind it are then read as if no
comment were open. They never hide code: a line that starts with a letter outside of all comments
has a token at its start. In particular every import in the first column that is not commented out
is found, with its whole name.
-/

namespace ElmReach

open Text Statement

namespace Token

/-- A token does not take away a line outside of comments that starts with a letter. Line comments
and statements end at a line break; a block comment ends in front of the line even if the scan for
comments was already inside of another one. -/
theorem ahead_behind {target text : List Char} (h : Comment.Ahead target text)
    (hletter : startsWithLetter target = true) (hbreak : '\n' :: target <:+ text)
    (before : Option Char) : Comment.Ahead target (behind before text) := by
  have hat (line : List Char) (hhead : ∀ c ∈ line.head?, c = '\n') (htext : line <:+ text)
      (hline : '\n' :: target <:+ line) : Comment.Ahead target line := by
    refine h.at_break ?_ htext ((List.suffix_cons _ _).trans hline)
    cases line with
    | nil => simp at hline
    | cons c rest => rw [List.head?_cons, hhead c rfl]
  by_cases hline : Comment.opensLine text = true
  · rw [behind_of_opensLine hline]
    exact hat _ (Comment.head?_afterLine text) (Comment.afterLine_suffix text)
      ((Comment.keepsBreaks_afterLine text).breaks _ rfl hbreak)
  by_cases hblock : Comment.opensBlock text = true
  · rw [behind_of_opensBlock hblock]
    obtain ⟨rest, rfl⟩ := Comment.opensBlock_iff.mp hblock
    exact h.of_opensBlock
  by_cases hkeyword : startsWithKeyword moduleKeyword before text = true ∨
      startsWithKeyword importKeyword before text = true
  · have hkeeps : Comment.KeepsBreaks text (text.drop 6) := by
      rcases hkeyword with hmodule | himport
      · obtain ⟨-, c, rest, rfl, -⟩ := startsWithKeyword_iff.mp hmodule
        exact Comment.keepsBreaks_append (by decide) (c :: rest)
      · obtain ⟨-, c, rest, rfl, -⟩ := startsWithKeyword_iff.mp himport
        exact Comment.keepsBreaks_append (by decide) (c :: rest)
    rw [behind_of_startsWithKeyword hkeyword]
    exact hat _ (head?_afterSpan _) ((List.drop_suffix _ _).trans hkeeps.suffix)
      (suffix_afterSpan hletter (hkeeps.breaks _ rfl hbreak))
  · simp only [not_or, Bool.not_eq_true] at hline hblock hkeyword
    rw [behind_of_not hline hblock hkeyword.1 hkeyword.2]
    cases text with
    | nil => exact h
    | cons c rest =>
      refine h.tail ?_ hline hblock
      rintro rfl
      have hlength := hbreak.length_le
      simp only [List.length_cons] at hlength
      omega

/-- The run over a text comes to every line outside of comments that starts with a letter. -/
theorem next_mem_ofText {target text front : List Char} (h : Comment.Ahead target text)
    (hletter : startsWithLetter target = true) (htext : text = front ++ target)
    (hfront : ∀ c ∈ front.getLast?, c = '\n') (before : Option Char) (start : Nat) :
    next (front.getLast?.or before) (start + front.length) target ∈ ofText before start text := by
  induction hlength : text.length using Nat.strongRecOn generalizing text front before start with
  | _ length ih =>
    cases text with
    | nil =>
      obtain ⟨-, rfl⟩ := List.append_eq_nil_iff.mp htext.symm
      cases hletter
    | cons c rest =>
      rw [ofText_cons]
      by_cases hempty : front = []
      · subst hempty
        rw [List.nil_append] at htext
        simp [htext]
      · have hbreak : '\n' :: target <:+ c :: rest := by
          obtain ⟨lead, last, rfl⟩ := (List.eq_nil_or_concat front).resolve_left hempty
          obtain rfl : last = '\n' := hfront last (by simp)
          exact ⟨lead, by simp [htext]⟩
        have hbehind := ahead_behind h hletter hbreak before
        obtain ⟨left, hleft⟩ := hbehind.suffix
        have hsplit := text_append_behind before start (c :: rest)
        have hpos := length_text_next_pos before start c rest
        have hstop := stop_next before start c rest
        generalize next before start (c :: rest) = token at hsplit hpos hstop ⊢
        -- What the token leaves of the text in front of the target is `left`.
        have hfrontSplit : front = token.text ++ left := by
          apply (List.append_left_inj target).mp
          rw [List.append_assoc, hleft, hsplit, htext]
        have hleftLast : ∀ d ∈ left.getLast?, d = '\n' := by
          intro d hd
          exact hfront d (by rw [hfrontSplit, List.getLast?_append, Option.mem_def.mp hd]; rfl)
        have hshorter : (behind before (c :: rest)).length < length := by
          have hlengths := congrArg List.length hsplit
          rw [List.length_append] at hlengths
          omega
        have hmem := ih _ hshorter hbehind hleft.symm hleftLast token.text.getLast? token.stop rfl
        have hbefore : front.getLast?.or before = left.getLast?.or token.text.getLast? := by
          have hsome := List.getLast?_eq_some_getLast (List.ne_nil_of_length_pos hpos)
          simp [hfrontSplit, List.getLast?_append, hsome]
        have hstart : start + front.length = token.stop + left.length := by
          rw [hfrontSplit, List.length_append, hstop, Nat.add_assoc]
        rw [hbefore, hstart]
        exact List.mem_cons_of_mem _ hmem

end Token

/-- A name does not reach over the end of a statement. -/
theorem Statement.dotted_span (text : List Char) : Name.dotted (span text) = Name.dotted text := by
  have hrest : BlankFirst (afterSpan text) := by
    intro c hc
    rw [head?_afterSpan text c hc]
    decide
  rw [← Name.dotted_append hrest (span text), span_append_afterSpan]

/-- A name behind a single space is read as it stands in the source. -/
theorem Statement.dotted_plain_span {name text : List Char} (hname : Name.IsDotted name)
    (hfront : name <+: text) :
    Name.dotted (plain (span (' ' :: text))) = Name.dotted text := by
  obtain ⟨first, others, rfl, hfirst, -⟩ := hname.exists_tail
  obtain ⟨rest, rfl⟩ := hfront
  have hword := Name.isWordChar_of_isNameStart hfirst
  have hblank := isBlank_of_isWordChar hword
  have hbreak : first ≠ '\n' := by
    rintro rfl
    exact absurd hblank (by decide)
  rw [List.cons_append]
  generalize htext : first :: (others ++ rest) = text
  have hhead : ∀ c ∈ (Comment.strip (span text)).head?, isBlank c = false := by
    rw [← htext, span, if_neg (by simp [hbreak]), Name.strip_cons_of_isWordChar hword]
    simpa using hblank
  calc
    Name.dotted (plain (span (' ' :: text))) =
        Name.dotted (collapse (Comment.strip (' ' :: span text))) := by simp [plain, span]
    _ = Name.dotted (collapse (Comment.strip (span text))) := by
      rw [Comment.strip_cons_of_ne (by decide) (by decide), collapse_cons_of_isBlank (by decide)]
    _ = Name.dotted (Comment.strip (span text)) := Name.dotted_collapse hhead
    _ = Name.dotted text := by rw [Name.dotted_strip, dotted_span]

namespace ImportStatement

/-- A name that stands behind the keyword and a single space is the name of the statement, even if
the statement ends within the text. -/
theorem toList_name_ofSpan_span {name text : List Char} (hname : Name.IsDotted name)
    (hfront : name <+: text) : (ofSpan (span (' ' :: text))).name.toList = Name.dotted text := by
  rw [toList_name_ofSpan, dotted_plain_span hname hfront]

end ImportStatement

/-- Every import in the first column outside of comments has a token of its own, also behind a
statement that ends inside of a block comment. If a dotted name follows the keyword and a space, the
token has the whole of it. -/
theorem Token.exists_import_token {content : List Char} {p : Nat}
    (hline : p = 0 ∨ content[p - 1]? = some '\n')
    (hkeyword : keywordAt content p importKeyword = true) (hplain : Comment.Plain content p) :
    ∃ statement,
      (∃ token ∈ Token.all content, token.start = p ∧ token.kind = .importStatement statement) ∧
        (content[p + 6]? = some ' ' →
          (∃ name, Name.IsDotted name ∧ name <+: content.drop (p + 7)) →
          Name.LongestDotted statement.name.toList (content.drop (p + 7))) := by
  obtain ⟨hbefore, c, rest, htarget, hc⟩ := startsWithKeyword_iff.mp hkeyword
  have hp : p < content.length := by
    by_contra hle
    rw [List.drop_eq_nil_of_le (by omega)] at htarget
    cases htarget
  have hlast : (content.take p).getLast? = charBefore content p := by
    rw [List.getLast?_take, charBefore]
    split
    · rfl
    · rw [List.getElem?_eq_getElem (by omega : p - 1 < content.length)]
      rfl
  have hfront : ∀ c ∈ (content.take p).getLast?, c = '\n' := by
    intro c hc
    rw [hlast, charBefore] at hc
    rcases hline with rfl | hbreak
    · simp at hc
    · split at hc
      · simp at hc
      · simpa [hbreak, eq_comm] using hc
  have hmem := Token.next_mem_ofText ⟨0, hplain⟩ (by rw [htarget]; rfl)
    (List.take_append_drop p content).symm hfront none 0
  rw [hlast, Option.or_none] at hmem
  have hrec := Token.recognise?_of_importKeyword hkeyword
  have hafter : content[p + 6]? = some c := by
    rw [← List.getElem?_drop, htarget]
    rfl
  have hbody : (content.drop p).drop 6 = c :: content.drop (p + 7) := by
    rw [← List.drop_drop, htarget]
    rfl
  refine ⟨.ofSpan (span ((content.drop p).drop 6)), ⟨_, hmem, ?_, ?_⟩, ?_⟩
  · rw [Token.next, hrec]
    simp [Token.covering]
    omega
  · rw [Token.next, hrec]
    rfl
  · rintro hspace ⟨name, hname, hstart⟩
    obtain rfl : c = ' ' := by simpa [hafter] using hspace
    rw [hbody, ImportStatement.toList_name_ofSpan_span hname hstart]
    exact Name.longestDotted_dotted hname hstart

/-- The first statement ends inside of a comment, and the import behind that comment is found. -/
theorem Token.exists_import_token_behind_comment :
    ∃ statement,
      (∃ token ∈ Token.all "import A \x7b-\nx \x7b- y -\x7d -\x7d\nimport B.C".toList,
        token.start = 25 ∧ token.kind = .importStatement statement) ∧
        Name.LongestDotted statement.name.toList "B.C".toList := by
  obtain ⟨statement, htoken, hname⟩ :=
    @Token.exists_import_token "import A \x7b-\nx \x7b- y -\x7d -\x7d\nimport B.C".toList 25
      (.inr (by decide)) (by decide +kernel) (by decide +kernel)
  refine ⟨statement, htoken, hname (by decide) ⟨['B'], ?_, by decide⟩⟩
  exact .word ⟨'B', [], rfl, by decide, by simp⟩

end ElmReach
