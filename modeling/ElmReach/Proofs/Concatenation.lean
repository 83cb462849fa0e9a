import ElmReach.Proofs.LineBreak
import ElmReach.Source.Summary
import Mathlib.Data.List.Basic
import Mathlib.Tactic.Common

/-!
# Reading line by line

A line that starts with a letter is read without regard to what stands in front of it. The tokens of
two texts with a line break between them are the tokens of the first text, a marker, and the tokens
of the second text, moved to where it stands. The first text must not end with a keyword, for which
the line break would count as the end, or inside of a block comment.
-/

namespace ElmReach

open Text Statement

/-- The comment at a distance from where it stands. Only its offsets change, and not its text. -/
def Comment.shift (distance : Nat) (comment : Comment) : Comment :=
  { comment with start := comment.start + distance, stop := comment.stop + distance }

namespace Token

/-- The token at a distance from where it stands. Its offsets change, and with them those of the
comment that it may hold. -/
def shift (distance : Nat) (token : Token) : Token :=
  { token with start := token.start + distance, stop := token.stop + distance }

/-- A comment that stands further behind is the comment of the token that stands further behind. -/
theorem comment?_shift (distance : Nat) (token : Token) :
    (token.shift distance).comment? = token.comment?.map (Comment.shift distance) := by
  obtain ⟨kind, start, stop, text⟩ := token
  cases kind <;> rfl

/-- A token does not depend on where its text starts; only its offsets do. -/
theorem next_shift (before : Option Char) (start distance : Nat) (text : List Char) :
    next before (start + distance) text = (next before start text).shift distance := by
  unfold next
  split <;> simp [covering, shift, Nat.add_right_comm]

/-- Moving a text moves its tokens, as no token depends on where its text starts. This is an
induction along the tokens. -/
theorem ofText_shift (before : Option Char) (start distance : Nat) (text : List Char) :
    ofText before (start + distance) text = (ofText before start text).map (shift distance) := by
  induction before, start, text using run_induction with
  | nil before start => simp [ofText]
  | cons before start c rest ih =>
    rw [ofText_cons, ofText_cons, List.map_cons, next_shift]
    congr 1

/-- Of the character in front of a text it matters only whether it belongs to a word. -/
theorem recognise?_congr_before {before other : Option Char}
    (h : before.any isWordChar = other.any isWordChar) (text : List Char) :
    recognise? before text = recognise? other text := by
  have hkeyword (keyword : List Char) :
      startsWithKeyword keyword before text = startsWithKeyword keyword other text := by
    rw [startsWithKeyword, startsWithKeyword, h]
  rw [recognise?, recognise?, hkeyword, hkeyword]

/-- What stands in front of a text matters to its tokens only by being a word character or not. -/
theorem ofText_congr_before {before other : Option Char}
    (h : before.any isWordChar = other.any isWordChar) (start : Nat) (text : List Char) :
    ofText before start text = ofText other start text := by
  cases text with
  | nil => rw [ofText, ofText]
  | cons c rest => rw [ofText, ofText, next, next, recognise?_congr_before h]

/-- At the start of a line a text is read like a text of its own. What stands on the lines in front
of it matters only if it goes on into this line. -/
theorem ofText_behind_break (start : Nat) (text : List Char) :
    ofText (some '\n') start text = (all text).map (shift start) := by
  have hbefore : (some '\n').any isWordChar = none.any isWordChar := by decide
  have hshift := ofText_shift none 0 start text
  rwa [Nat.zero_add, ofText_congr_before hbefore.symm] at hshift

/-- A block comment at the front of a text is closed if the last token of the text is not a block
comment that is left open. -/
theorem openAtEnd_eq_zero {before : Option Char} {start : Nat} {text : List Char}
    (hblock : Comment.opensBlock text = true)
    (hclosed : ∀ token ∈ (ofText before start text).getLast?,
      token.kind = .comment .block → Comment.openAtEnd 0 token.text = 0) :
    Comment.openAtEnd 0 text = 0 := by
  by_contra hopen
  obtain ⟨rest, rfl⟩ := Comment.opensBlock_iff.mp hblock
  have hbehind : behind before ('{' :: '-' :: rest) = [] := by
    rw [behind_of_opensBlock hblock, Comment.afterBlock_eq_nil hopen]
  have htext := text_append_behind before start ('{' :: '-' :: rest)
  rw [hbehind, List.append_nil] at htext
  rw [ofText_cons, hbehind, ofText, List.getLast?_singleton] at hclosed
  have hkind : (next before start ('{' :: '-' :: rest)).kind = .comment .block := rfl
  have hzero := hclosed _ rfl hkind
  rw [htext] at hzero
  exact hopen hzero

/-- The tokens of a text stay the same if a line that starts with a letter follows. -/
theorem ofText_append_break {first second : List Char} (hsecond : startsWithLetter second = true)
    (hmodule : ¬ moduleKeyword <:+ first) (himport : ¬ importKeyword <:+ first)
    (before : Option Char) (start : Nat)
    (hclosed : ∀ token ∈ (ofText before start first).getLast?,
      token.kind = .comment .block → Comment.openAtEnd 0 token.text = 0) :
    ofText before start (first ++ '\n' :: second) =
      ofText before start first ++
        lineBreak (start + first.length) ::
          ofText (some '\n') (start + first.length + 1) second := by
  induction before, start, first using run_induction with
  | nil before start =>
    rw [List.nil_append, ofText_break, ofText]
    rfl
  | cons before start c rest ih =>
    have hrec : recognise? before (c :: rest ++ '\n' :: second) = recognise? before (c :: rest) :=
      recognise?_append_break (List.cons_ne_nil c rest)
        (fun _ => ⟨fun heq => hmodule (heq ▸ List.suffix_rfl),
          fun heq => himport (heq ▸ List.suffix_rfl)⟩)
        (fun hblock => openAtEnd_eq_zero hblock hclosed)
        (fun _ => span_append_letter hsecond _)
    obtain ⟨hnext, hbehind⟩ := next_append (List.cons_ne_nil c rest) hrec start
    have hsplit := text_append_behind before start (c :: rest)
    have hstop := stop_next before start c rest
    have hsuffix : behind before (c :: rest) <:+ c :: rest := ⟨_, hsplit⟩
    rw [ofText_cons] at hclosed ⊢
    rw [List.cons_append] at hnext hbehind ⊢
    rw [ofText_cons, hnext, hbehind]
    have hrest := ih (fun h => hmodule (h.trans hsuffix)) (fun h => himport (h.trans hsuffix))
      (fun last hlast => hclosed last (List.mem_getLast?_cons hlast))
    generalize next before start (c :: rest) = token at hsplit hstop hrest
    have hlengths := congrArg List.length hsplit
    rw [List.length_append] at hlengths
    have hoffset : token.stop + (behind before (c :: rest)).length =
        start + (c :: rest).length := by omega
    rw [hrest, hoffset, List.cons_append]

/-- Two texts with a line break between them are read one behind the other, if the second one starts
with a letter and the first one ends neither with a keyword nor inside of a block comment. -/
theorem all_append_break {first second : List Char} (hsecond : startsWithLetter second = true)
    (hmodule : ¬ moduleKeyword <:+ first) (himport : ¬ importKeyword <:+ first)
    (hclosed : ∀ token ∈ (all first).getLast?,
      token.kind = .comment .block → Comment.openAtEnd 0 token.text = 0) :
    all (first ++ '\n' :: second) =
        all first ++ lineBreak first.length :: (all second).map (shift (first.length + 1)) ∧
      (Summary.ofContent (first ++ '\n' :: second)).comments =
        (Summary.ofContent first).comments ++
          (Summary.ofContent second).comments.map (Comment.shift (first.length + 1)) := by
  have htokens : all (first ++ '\n' :: second) =
      all first ++ lineBreak first.length :: (all second).map (shift (first.length + 1)) := by
    have happend := ofText_append_break hsecond hmodule himport none 0 hclosed
    rwa [Nat.zero_add, ofText_behind_break] at happend
  have hmarker : (lineBreak first.length).comment? = none := rfl
  refine ⟨htokens, ?_⟩
  simp only [Summary.ofContent, Summary.ofTokens]
  rw [htokens, List.filterMap_append, List.filterMap_cons_none hmarker, List.filterMap_map,
    List.map_filterMap]
  congr 2
  exact funext (comment?_shift _)

/-- The first text ends with a statement, which ends with a single dash. -/
theorem all_append_break_behind_dash :
    all ("\x7b- a -\x7d\nimport A\n -".toList ++ '\n' :: "b --\x7d".toList) =
        all "\x7b- a -\x7d\nimport A\n -".toList ++
          lineBreak 19 :: (all "b --\x7d".toList).map (shift 20) ∧
      (Summary.ofContent
          ("\x7b- a -\x7d\nimport A\n -".toList ++ '\n' :: "b --\x7d".toList)).comments =
        [⟨.block, 0, 7⟩, ⟨.line, 22, 25⟩] := by
  obtain ⟨htokens, hcomments⟩ :=
    @all_append_break "\x7b- a -\x7d\nimport A\n -".toList "b --\x7d".toList (by decide) (by decide)
      (by decide) (by decide +kernel)
  refine ⟨htokens, hcomments.trans ?_⟩
  decide +kernel

end Token

end ElmReach
