import ElmReach.Proofs.TokenRun
import Mathlib.Tactic.Common

/-!
# What a line break keeps apart

No delimiter of a comment and no keyword reaches over a line break, and a line comment ends at it.
So the front of a text is recognised in the same way whether or not another line follows, with
three exceptions: a keyword at the end of the text, a block comment that is not closed, and a
statement that goes on with the next line.
-/

namespace ElmReach

namespace Comment

/-- Number of block comments that are open where the reading of `afterBlock` ends, with `depth` of
them open in front of the text. It is zero if the reading ends behind a closer. -/
def openAtEnd (depth : Int) : List Char → Int
  | '{' :: '-' :: rest => openAtEnd (depth + 1) rest
  | '-' :: '}' :: rest => if depth = 1 then 0 else openAtEnd (depth - 1) rest
  | _ :: rest => openAtEnd depth rest
  | [] => depth

/-- A comment that is not closed runs to the end of the text. -/
theorem afterBlock_eq_nil {depth : Int} {text : List Char} (h : openAtEnd depth text ≠ 0) :
    afterBlock depth text = [] := by
  fun_induction openAtEnd depth text with
  | case1 depth rest ih => rw [afterBlock, ih h]
  | case2 rest => exact absurd rfl h
  | case3 depth rest hdepth ih => rw [afterBlock, if_neg hdepth, ih h]
  | case4 depth c rest hopen hclose ih => rw [afterBlock, ih h] <;> assumption
  | case5 depth => rw [afterBlock]

/-- A comment that is closed ends at the same place whatever follows the text. -/
theorem afterBlock_append {depth : Int} (hdepth : 1 ≤ depth) {text : List Char}
    (h : openAtEnd depth text = 0) (rest : List Char) :
    afterBlock depth (text ++ rest) = afterBlock depth text ++ rest := by
  fun_induction openAtEnd depth text with
  | case1 depth text ih => simp only [List.cons_append, afterBlock, ih (by omega) h]
  | case2 text => simp only [List.cons_append, afterBlock, if_true]
  | case3 depth text hne ih =>
    simp only [List.cons_append, afterBlock, if_neg hne, ih (by omega) h]
  | case4 depth c text hopen hclose ih =>
    -- The last character of the text cannot be the first one of a delimiter: comments are open
    -- in front of it, so they would be open at the end.
    obtain ⟨d, others, rfl⟩ : ∃ d others, text = d :: others := by
      cases text with
      | nil => simp only [openAtEnd] at h; omega
      | cons d others => exact ⟨d, others, rfl⟩
    rw [List.cons_append, afterBlock, afterBlock, ih hdepth h] <;> simp_all
  | case5 depth => omega

/-- A line break does not belong to a delimiter. So whether one stands at the end of a text does not
depend on what is behind a line break. -/
theorem exists_delimiter_append_break {text : List Char} (hne : text ≠ []) (rest : List Char)
    {a b : Char} (hb : b ≠ '\n') :
    (∃ others, text ++ '\n' :: rest = a :: b :: others) ↔ ∃ others, text = a :: b :: others := by
  match text with
  | [c] => simp [hb.symm]
  | c :: d :: others => simp

/-- A line comment opens with two characters on one line, so that what follows a line break does not
matter. -/
theorem opensLine_append_break {text : List Char} (hne : text ≠ []) (rest : List Char) :
    opensLine (text ++ '\n' :: rest) = opensLine text := by
  rw [Bool.eq_iff_iff, opensLine_iff, opensLine_iff]
  exact exists_delimiter_append_break hne rest (by decide)

/-- A block comment opens with two characters on one line, so that what follows a line break does
not matter. -/
theorem opensBlock_append_break {text : List Char} (hne : text ≠ []) (rest : List Char) :
    opensBlock (text ++ '\n' :: rest) = opensBlock text := by
  rw [Bool.eq_iff_iff, opensBlock_iff, opensBlock_iff]
  exact exists_delimiter_append_break hne rest (by decide)

/-- A block comment at the front of the text covers the same characters whatever follows it. -/
theorem afterBlock_append_of_opensBlock {text : List Char} (hblock : opensBlock text = true)
    (hclosed : openAtEnd 0 text = 0) (rest : List Char) :
    afterBlock 0 (text ++ rest) = afterBlock 0 text ++ rest := by
  obtain ⟨others, rfl⟩ := opensBlock_iff.mp hblock
  simp only [openAtEnd, Int.zero_add] at hclosed
  simpa [afterBlock] using afterBlock_append (Int.le_refl 1) hclosed rest

/-- What stands up to the first line break does not depend on what stands behind it. -/
theorem takeWhile_append_break (text rest : List Char) :
    (text ++ '\n' :: rest).takeWhile (· != '\n') = text.takeWhile (· != '\n') := by
  induction text with
  | nil => simp
  | cons c text ih =>
    rw [List.cons_append, List.takeWhile_cons, List.takeWhile_cons, ih]

end Comment

namespace Statement

open Text

/-- Whether a text starts with a letter does not depend on what stands behind a line break. -/
theorem startsWithLetter_append_break (text rest : List Char) :
    startsWithLetter (text ++ '\n' :: rest) = startsWithLetter text := by
  cases text with
  | nil => exact (by decide : isLetter '\n' = false)
  | cons c text => rfl

/-- A statement ends in front of a line that starts with a letter, if it has not ended before. -/
theorem span_append_letter {next : List Char} (hnext : startsWithLetter next = true)
    (text : List Char) : span (text ++ '\n' :: next) = span text := by
  induction text with
  | nil => simp [span, hnext]
  | cons c text ih => rw [List.cons_append, span, span, startsWithLetter_append_break, ih]

/-- A statement that ends inside of the text does so whatever follows the text. -/
theorem span_append_of_ne {text : List Char} (h : span text ≠ text) (rest : List Char) :
    span (text ++ rest) = span text := by
  induction text with
  | nil => exact absurd rfl h
  | cons c text ih =>
    cases text with
    | nil => exact absurd (by simp [span, startsWithLetter]) h
    | cons d others =>
      have hletter : startsWithLetter (d :: others ++ rest) = startsWithLetter (d :: others) := rfl
      rw [List.cons_append, span, hletter]
      by_cases hend : c = '\n' ∧ startsWithLetter (d :: others) = true
      · rw [if_pos hend, span, if_pos hend]
      · rw [span, if_neg hend] at h
        have hne : span (d :: others) ≠ d :: others := fun heq => h (by rw [heq])
        rw [if_neg hend, span, if_neg hend, ih hne]

/-- A statement reaches over a text in which no letter follows a line break. -/
theorem span_eq_self {text : List Char}
    (h : ∀ front rest, text = front ++ '\n' :: rest → startsWithLetter rest = false) :
    span text = text := by
  induction text with
  | nil => rfl
  | cons c rest ih =>
    have hrest := ih fun front others heq => h (c :: front) others (by rw [heq, List.cons_append])
    have hend : ¬ (c = '\n' ∧ startsWithLetter rest = true) := by
      rintro ⟨rfl, hletter⟩
      rw [h [] rest rfl] at hletter
      cases hletter
    rw [span, if_neg hend, hrest]

/-- A statement goes on over a line break if no letter follows it, up to where the text behind it
ends. -/
theorem span_append_break {text rest : List Char} (htext : span text = text)
    (hletter : startsWithLetter rest = false) (hrest : span rest = rest) :
    span (text ++ '\n' :: rest) = text ++ '\n' :: rest := by
  induction text with
  | nil => simp [span, hletter, hrest]
  | cons c text ih =>
    rw [span] at htext
    split at htext
    · cases htext
    · next hend =>
      rw [List.cons_append, span, startsWithLetter_append_break, if_neg hend,
        ih (List.cons.inj htext).2]

/-- A line break behind the text does not change whether the text starts with a keyword, unless the
text is the keyword and nothing else. -/
theorem startsWithKeyword_append_break {keyword text : List Char} {before : Option Char}
    (hkeyword : '\n' ∉ keyword) (hne : before.any isWordChar = false → text ≠ keyword)
    (rest : List Char) :
    startsWithKeyword keyword before (text ++ '\n' :: rest) =
      startsWithKeyword keyword before text := by
  rw [Bool.eq_iff_iff, startsWithKeyword_iff, startsWithKeyword_iff]
  refine and_congr_right fun hbefore => ⟨?_, ?_⟩
  · rintro ⟨c, others, heq, hc⟩
    rcases List.append_eq_append_iff.mp heq with ⟨more, hmore, hrest⟩ | ⟨more, hmore, hrest⟩
    · cases more with
      | nil => exact absurd (by simpa using hmore.symm) (hne hbefore)
      | cons d more =>
        obtain ⟨rfl, -⟩ := List.cons.inj hrest
        exact absurd (by simp [hmore]) hkeyword
    · cases more with
      | nil => exact absurd (by simpa using hmore) (hne hbefore)
      | cons d more =>
        obtain ⟨rfl, -⟩ := List.cons.inj hrest
        exact ⟨c, more, hmore, hc⟩
  · rintro ⟨c, others, rfl, hc⟩
    exact ⟨c, others ++ '\n' :: rest, by simp, hc⟩

end Statement

namespace Token

open Statement Text

/-- The same is recognised at the front of the text whether or not another line follows: the text is
no keyword, a block comment in front is closed, and a statement in front has ended. -/
theorem recognise?_append_break {before : Option Char} {text rest : List Char} (hne : text ≠ [])
    (hkeyword : before.any isWordChar = false → text ≠ moduleKeyword ∧ text ≠ importKeyword)
    (hclosed : Comment.opensBlock text = true → Comment.openAtEnd 0 text = 0)
    (hspan : startsWithKeyword moduleKeyword before text = true ∨
      startsWithKeyword importKeyword before text = true →
      span (text.drop 6 ++ '\n' :: rest) = span (text.drop 6)) :
    recognise? before (text ++ '\n' :: rest) = recognise? before text := by
  have hmodule := startsWithKeyword_append_break (by decide : '\n' ∉ moduleKeyword)
    (fun hbefore => (hkeyword hbefore).1) rest
  have himport := startsWithKeyword_append_break (by decide : '\n' ∉ importKeyword)
    (fun hbefore => (hkeyword hbefore).2) rest
  have hbody {keyword : List Char} (hsix : keyword.length = 6)
      (hstart : startsWithKeyword keyword before text = true) :
      (text ++ '\n' :: rest).drop 6 = text.drop 6 ++ '\n' :: rest := by
    obtain ⟨-, c, others, rfl, -⟩ := startsWithKeyword_iff.mp hstart
    exact List.drop_append_of_le_length (by simp [hsix])
  unfold recognise?
  rw [Comment.opensLine_append_break hne, Comment.opensBlock_append_break hne, hmodule, himport,
    Comment.takeWhile_append_break]
  split
  · rfl
  · split
    · next hblock =>
      rw [Comment.afterBlock_append_of_opensBlock hblock (hclosed hblock), List.length_append,
        List.length_append, Nat.add_sub_add_right]
    · split
      · next hstart =>
        simp only [hbody (rfl : moduleKeyword.length = 6) hstart, hspan (.inl hstart)]
      · split
        · next hstart =>
          simp only [hbody (rfl : importKeyword.length = 6) hstart, hspan (.inr hstart)]
        · rfl

/-- Where the same is recognised, the same token is read, and all that was added is left. -/
theorem next_append {before : Option Char} {text rest : List Char} (hne : text ≠ [])
    (h : recognise? before (text ++ rest) = recognise? before text) (start : Nat) :
    next before start (text ++ rest) = next before start text ∧
      behind before (text ++ rest) = behind before text ++ rest := by
  cases hrec : recognise? before text with
  | none =>
    have hpos := List.length_pos_iff.mpr hne
    rw [hrec] at h
    rw [behind_of_recognise?_none h, behind_of_recognise?_none hrec,
      List.drop_append_of_le_length hpos]
    simp only [next, h, hrec, covering, List.take_append_of_le_length hpos, and_self]
  | some found =>
    obtain ⟨kind, length⟩ := found
    have hle := recognise?_length_le hrec
    rw [hrec] at h
    rw [behind_of_recognise?_some h, behind_of_recognise?_some hrec,
      List.drop_append_of_le_length hle]
    simp only [next, h, hrec, covering, List.take_append_of_le_length hle, and_self]

/-- The marker at a line break. It is one character long, and its value is empty. -/
def lineBreak (start : Nat) : Token :=
  covering .marker start 1 ['\n']

/-- A line break in front of a text is a token of its own, and the tokens of the text follow it. -/
theorem ofText_break (before : Option Char) (start : Nat) (rest : List Char) :
    ofText before start ('\n' :: rest) =
      lineBreak start :: ofText (some '\n') (start + 1) rest := by
  have hrec : recognise? before ('\n' :: rest) = none := rfl
  rw [ofText_cons, behind_of_recognise?_none hrec, next, hrec]
  rfl

end Token

end ElmReach
