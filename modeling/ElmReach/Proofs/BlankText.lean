import ElmReach.Text.Blank
import ElmReach.Text.WordChar
import Mathlib.Data.List.Basic
import Mathlib.Data.List.TakeWhile
import Mathlib.Tactic.Common

/-!
# Blanks, words and collapsed texts

No word character is blank. A text is a word without blanks and a rest that is empty or starts with
a blank; collapsing keeps the word and puts a single space in front of the rest. Trimming takes the
blanks at both ends away and nothing else.
-/

namespace ElmReach.Text

/-- Whether a range of code points lies between the blanks beyond ASCII. -/
private def avoidsBlanks (range : CodeRange) : Bool :=
  range.2 < 0x85 || 0xA0 < range.1 && range.2 < 0x1680 || 0x1680 < range.1 && range.2 < 0x2000 ||
    0x205F < range.1 && range.2 < 0x3000 || 0x3000 < range.1

private theorem inRanges_of_isBlank {ranges : List CodeRange} (hranges : ranges.all avoidsBlanks)
    {c : Char} (hc : 128 ≤ c.toNat) (h : isBlank c = true) : inRanges ranges c = false := by
  simp only [inRanges, List.any_eq_false, Bool.and_eq_true, decide_eq_true_eq]
  rintro range hrange ⟨hfirst, hlast⟩
  have havoids := List.all_eq_true.mp hranges range hrange
  simp only [avoidsBlanks, Bool.or_eq_true, Bool.and_eq_true, decide_eq_true_eq] at havoids
  simp only [isBlank, Bool.or_eq_true, Bool.and_eq_true, decide_eq_true_eq, beq_iff_eq] at h
  omega

/-- A blank is no word character, so that a word ends in front of one. -/
theorem isWordChar_of_isBlank {c : Char} (h : isBlank c = true) : isWordChar c = false := by
  by_cases hc : c.toNat < 128
  · have hascii : ∀ n < 128, isBlank (Char.ofNat n) = true → isWordChar (Char.ofNat n) = false := by
      decide +kernel
    have hchar := hascii c.toNat hc
    rw [Char.ofNat_toNat] at hchar
    exact hchar h
  · have hletters : letterRanges.all avoidsBlanks := by decide +kernel
    have hnumerals : numeralRanges.all avoidsBlanks := by decide +kernel
    have hletter := inRanges_of_isBlank hletters (by omega) h
    have hnumeral := inRanges_of_isBlank hnumerals (by omega) h
    have hunderscore : c ≠ '_' := by
      rintro rfl
      simp at hc
    simp [isWordChar, isLetter, isNumeral, hc, hletter, hnumeral, hunderscore]

/-- Words are made of letters, digits and underscores, none of which is blank. So a blank always
ends a word. -/
theorem isBlank_of_isWordChar {c : Char} (h : isWordChar c = true) : isBlank c = false := by
  by_contra hblank
  rw [isWordChar_of_isBlank (by simpa using hblank)] at h
  cases h

/-- The text is empty or starts with a blank, so that a word in front of it ends there. -/
def BlankFirst (text : List Char) : Prop :=
  ∀ c ∈ text.head?, isBlank c = true

/-- Nothing behind a name is as good as a blank: the name ends there. -/
theorem blankFirst_nil : BlankFirst [] := by
  simp [BlankFirst]

/-- A text starts with a blank exactly if its first character is one; what follows does not
matter. -/
theorem blankFirst_cons {c : Char} {rest : List Char} :
    BlankFirst (c :: rest) ↔ isBlank c = true := by
  simp [BlankFirst]

/-- Blanks in front of the first word separate nothing, so they are passed over. -/
theorem words_cons_of_isBlank {c : Char} (hc : isBlank c = true) (rest : List Char) :
    words (c :: rest) = words rest := by
  cases rest <;> simp [words, hc]

/-- A text of blanks alone has no words, and it collapses to the empty text. -/
theorem words_eq_nil {text : List Char} (h : ∀ c ∈ text, isBlank c = true) : words text = [] := by
  induction text with
  | nil => rfl
  | cons c rest ih =>
    rw [words_cons_of_isBlank (h c List.mem_cons_self)]
    exact ih fun d hd => h d (List.mem_cons_of_mem c hd)

/-- The first word of a text is as long as possible. -/
theorem words_append {word rest : List Char} (hne : word ≠ [])
    (hword : ∀ c ∈ word, isBlank c = false) (hrest : BlankFirst rest) :
    words (word ++ rest) = word :: words rest := by
  induction word with
  | nil => exact absurd rfl hne
  | cons c word ih =>
    have hc : isBlank c = false := hword c List.mem_cons_self
    cases word with
    | nil =>
      cases rest with
      | nil => simp [words, hc]
      | cons b rest => simp [words, hc, blankFirst_cons.mp hrest]
    | cons d word =>
      have hd : isBlank d = false := hword d (by simp)
      have htail := ih (by simp) fun e he => hword e (List.mem_cons_of_mem c he)
      rw [List.cons_append] at htail
      rw [List.cons_append, List.cons_append, words, htail]
      simp [hc, hd, consFirst]

/-- Collapsing drops the blanks in front of a text instead of leaving one space for them. -/
theorem collapse_cons_of_isBlank {c : Char} (hc : isBlank c = true) (rest : List Char) :
    collapse (c :: rest) = collapse rest := by
  rw [collapse, words_cons_of_isBlank hc, collapse]

/-- Collapsing keeps the word at the front of a text, and what follows it still starts with a
blank. -/
theorem collapse_append {word rest : List Char} (hne : word ≠ [])
    (hword : ∀ c ∈ word, isBlank c = false) (hrest : BlankFirst rest) :
    collapse (word ++ rest) = word ++ if words rest = [] then [] else ' ' :: collapse rest := by
  rw [collapse, words_append hne hword hrest]
  cases hwords : words rest with
  | nil => simp
  | cons next others => simp [collapse, hwords, List.intercalate_cons_cons]

/-- A text is a word without blanks and a rest that starts with one. -/
theorem exists_append_blankFirst (text : List Char) :
    ∃ word rest, text = word ++ rest ∧ (∀ c ∈ word, isBlank c = false) ∧ BlankFirst rest := by
  refine ⟨text.takeWhile (!isBlank ·), text.dropWhile (!isBlank ·), ?_, ?_, ?_⟩
  · exact List.takeWhile_append_dropWhile.symm
  · intro c hc
    simpa using List.mem_takeWhile_imp hc
  · intro c hc
    have hhead := List.head?_dropWhile_not (!isBlank ·) text
    rw [hc] at hhead
    simpa using hhead

/-- No blank stands at either end of the text, so that trimming leaves it as it is. -/
structure Trimmed (text : List Char) : Prop where
  head : ∀ c ∈ text.head?, isBlank c = false
  last : ∀ c ∈ text.getLast?, isBlank c = false

/-- Two texts that do not end with a blank make one that does not. -/
theorem getLast?_append_not_isBlank {left right : List Char}
    (hleft : ∀ c ∈ left.getLast?, isBlank c = false)
    (hright : ∀ c ∈ right.getLast?, isBlank c = false) :
    ∀ c ∈ (left ++ right).getLast?, isBlank c = false := by
  intro c hc
  rw [List.getLast?_append, Option.mem_def, Option.or_eq_some_iff] at hc
  rcases hc with hc | ⟨-, hc⟩
  · exact hright c hc
  · exact hleft c hc

/-- Trimming the end takes away blanks only, and what it takes away stands at the very end. -/
theorem exists_append_trimEnd (text : List Char) :
    ∃ back, text = trimEnd text ++ back ∧ ∀ c ∈ back, isBlank c = true := by
  induction text with
  | nil => exact ⟨[], rfl, by simp⟩
  | cons c rest ih =>
    obtain ⟨back, hrest, hback⟩ := ih
    cases htrim : trimEnd rest with
    | nil =>
      rw [htrim, List.nil_append] at hrest
      by_cases hc : isBlank c = true
      · refine ⟨c :: rest, by simp [trimEnd, htrim, hc], ?_⟩
        rw [hrest]
        exact List.forall_mem_cons.mpr ⟨hc, hback⟩
      · exact ⟨rest, by simp [trimEnd, htrim, hc], hrest ▸ hback⟩
    | cons d kept =>
      rw [htrim] at hrest
      refine ⟨back, ?_, hback⟩
      rw [trimEnd, htrim, List.cons_append, ← hrest]

/-- What is left after trimming the end does not end with a blank. -/
theorem getLast?_trimEnd (text : List Char) : ∀ c ∈ (trimEnd text).getLast?, isBlank c = false := by
  induction text with
  | nil => simp [trimEnd]
  | cons c rest ih =>
    rw [trimEnd]
    cases htrim : trimEnd rest with
    | nil => by_cases hc : isBlank c = true <;> simp [hc]
    | cons d kept =>
      rw [htrim] at ih
      simpa [List.getLast?_cons_cons] using ih

/-- Trimming takes nothing but blanks away. What is left of a text stands between them. -/
theorem exists_append_trim (text : List Char) :
    ∃ front back, text = front ++ trim text ++ back ∧ (∀ c ∈ front, isBlank c = true) ∧
      ∀ c ∈ back, isBlank c = true := by
  obtain ⟨back, hback, hblanks⟩ := exists_append_trimEnd (text.dropWhile isBlank)
  refine ⟨text.takeWhile isBlank, back, ?_, fun c hc => List.mem_takeWhile_imp hc, hblanks⟩
  rw [List.append_assoc, trim, ← hback, List.takeWhile_append_dropWhile]

/-- A trimmed text neither starts nor ends with a blank. This is how the fields of statements and
the contents of files are known to be trimmed. -/
theorem trimmed_trim (text : List Char) : Trimmed (trim text) := by
  refine ⟨fun c hc => ?_, getLast?_trimEnd _⟩
  obtain ⟨back, hback, -⟩ := exists_append_trimEnd (text.dropWhile isBlank)
  have hhead : c ∈ (text.dropWhile isBlank).head? := by
    rw [hback, List.head?_append, show trimEnd (text.dropWhile isBlank) = trim text from rfl,
      Option.mem_def.mp hc]
    rfl
  have hnot := List.head?_dropWhile_not isBlank text
  rw [Option.mem_def.mp hhead] at hnot
  simpa using hnot

/-- Nothing is left of a text of blanks if its end is trimmed. -/
theorem trimEnd_eq_nil {text : List Char} (h : ∀ c ∈ text, isBlank c = true) :
    trimEnd text = [] := by
  induction text with
  | nil => rfl
  | cons c rest ih =>
    obtain ⟨hc, hrest⟩ := List.forall_mem_cons.mp h
    rw [trimEnd, ih hrest]
    exact if_pos hc

/-- If nothing is left after both ends are trimmed, nothing is left after the end alone is: a
character that is not blank would survive both. -/
theorem trimEnd_eq_nil_of_trim {text : List Char} (h : trim text = []) : trimEnd text = [] := by
  obtain ⟨front, back, hsplit, hfront, hback⟩ := exists_append_trim text
  rw [h, List.append_nil] at hsplit
  refine trimEnd_eq_nil fun c hc => ?_
  rw [hsplit] at hc
  exact (List.mem_append.mp hc).elim (hfront c) (hback c)

/-- What stands in front of a text that is not blank is kept by trimming, whatever it is. -/
theorem trimEnd_append_of_ne_nil {rest : List Char} (h : trimEnd rest ≠ []) (front : List Char) :
    trimEnd (front ++ rest) = front ++ trimEnd rest := by
  induction front with
  | nil => rfl
  | cons c front ih =>
    obtain ⟨d, kept, hkept⟩ :=
      List.exists_cons_of_ne_nil (List.append_ne_nil_of_right_ne_nil front h)
    rw [List.cons_append, trimEnd, ih, hkept, List.cons_append, hkept]

/-- Trimming leaves what stands in front of the last character that is not blank. -/
theorem trimEnd_append {text : List Char} (hne : text ≠ [])
    (hlast : ∀ c ∈ text.getLast?, isBlank c = false) (rest : List Char) :
    trimEnd (text ++ rest) = text ++ trimEnd rest := by
  induction text with
  | nil => exact absurd rfl hne
  | cons c text ih =>
    rw [List.cons_append, trimEnd]
    cases text with
    | nil =>
      have hc : isBlank c = false := hlast c rfl
      cases htrim : trimEnd rest <;> simp [htrim, hc]
    | cons d text =>
      rw [ih (by simp) (by simpa [List.getLast?_cons_cons] using hlast)]
      simp

/-- Trimming takes blanks away on both sides of a text and leaves the text as it is. -/
theorem Trimmed.trim_append {text : List Char} (h : Trimmed text) (hne : text ≠ [])
    (front back : List Char) :
    trim (front ++ (text ++ back)) = front.dropWhile isBlank ++ (text ++ trimEnd back) := by
  have hhead : (text ++ back).dropWhile isBlank = text ++ back := by
    obtain ⟨c, others, rfl⟩ := List.exists_cons_of_ne_nil hne
    rw [List.cons_append, List.dropWhile_cons, h.head c rfl]
    rfl
  have hfront : (front ++ (text ++ back)).dropWhile isBlank =
      front.dropWhile isBlank ++ text ++ back := by
    rw [List.dropWhile_append, hhead, List.append_assoc]
    split
    · next hempty => rw [List.isEmpty_iff.mp hempty, List.nil_append]
    · rfl
  have hlast : ∀ c ∈ (front.dropWhile isBlank ++ text).getLast?, isBlank c = false := by
    rw [List.getLast?_append_of_ne_nil _ hne]
    exact h.last
  rw [trim, hfront, trimEnd_append (List.append_ne_nil_of_right_ne_nil _ hne) hlast,
    List.append_assoc]

/-- Nothing is left of a text of blanks if both ends are trimmed. -/
theorem trim_eq_nil {text : List Char} (h : ∀ c ∈ text, isBlank c = true) : trim text = [] := by
  rw [trim, List.dropWhile_eq_nil_iff.mpr h]
  rfl

/-- A text between blanks is left when they are trimmed off. -/
theorem Trimmed.trim_between {text front back : List Char} (h : Trimmed text) (hne : text ≠ [])
    (hfront : ∀ c ∈ front, isBlank c = true) (hback : ∀ c ∈ back, isBlank c = true) :
    trim (front ++ (text ++ back)) = text := by
  rw [h.trim_append hne, List.dropWhile_eq_nil_iff.mpr hfront, trimEnd_eq_nil hback,
    List.nil_append, List.append_nil]

/-- Trimming changes nothing if there is nothing to trim. -/
theorem Trimmed.trim_eq {text : List Char} (h : Trimmed text) : trim text = text := by
  by_cases hne : text = []
  · rw [hne]
    rfl
  · have hbetween := @h.trim_between _ [] [] hne (by simp) (by simp)
    rwa [List.nil_append, List.append_nil] at hbetween

/-- The character in front of a text, read behind another one. -/
theorem getLast?_cons_or (c : Char) (text : List Char) (before : Option Char) :
    (c :: text).getLast?.or before = text.getLast?.or (some c) := by
  rw [List.getLast?_cons]
  cases text.getLast? <;> rfl

/-- A blank in front makes no difference to the trimmed text. -/
theorem trim_cons_of_isBlank {c : Char} (hc : isBlank c = true) (rest : List Char) :
    trim (c :: rest) = trim rest := by
  rw [trim, List.dropWhile_cons, if_pos hc, trim]

end ElmReach.Text
