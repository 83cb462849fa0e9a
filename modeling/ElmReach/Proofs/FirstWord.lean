import ElmReach.Proofs.DottedName
import ElmReach.Proofs.OutlineStatements
import Mathlib.Tactic.Common

/-!
# The first word of a declaration

A declaration that starts with a letter is told by its first word. Unless the word is one of the
five that the grammar reserves, the declaration is an annotation or the definition of a function,
and the word is the function's name.
-/

namespace ElmReach

open Text Statement Token

/-- The letters of ASCII are letters. -/
theorem Text.isLetter_of_isAsciiLetter {c : Char} (h : isAsciiLetter c = true) :
    isLetter c = true := by
  have hcode : c.toNat < 128 := Name.toNat_lt_of_isNameStart (by simp [isNameStart, h])
  rw [isLetter, if_pos hcode, h]

namespace Declaration

/-- The word characters at the front of the text. By them a declaration is told to be a type, a
port, an effect or a function. -/
def firstWord (text : List Char) : List Char :=
  text.takeWhile isWordChar

/-- A word in front of what ends a word is the first word of the text. -/
theorem firstWord_append {word rest : List Char} (hword : ∀ c ∈ word, isWordChar c = true)
    (hrest : atWordEnd rest = true) : firstWord (word ++ rest) = word := by
  rw [firstWord, List.takeWhile_append_of_pos hword]
  cases rest with
  | nil => simp
  | cons c others =>
    have hc : isWordChar c = false := by simpa [atWordEnd] using hrest
    simp [hc]

/-- The words of the grammar that cannot be the name of a function, because a declaration that
starts with one of them is something else. -/
def reservedWords : List (List Char) :=
  [typeWord, moduleKeyword, importKeyword, portWord, effectWord]

/-- The reserved words are made of word characters. -/
theorem isWordChar_of_mem_reservedWords {word : List Char} (h : word ∈ reservedWords) :
    ∀ c ∈ word, isWordChar c = true := by
  have hall : reservedWords.all fun word => word.all isWordChar := by decide
  exact List.all_eq_true.mp (List.all_eq_true.mp hall word h)

/-- A text that starts with a keyword has it as its first word. -/
theorem firstWord_of_startsWithKeyword {keyword text : List Char} {before : Option Char}
    (hkeyword : keyword ∈ reservedWords) (h : startsWithKeyword keyword before text = true) :
    firstWord text = keyword := by
  obtain ⟨-, c, rest, rfl, hc⟩ := startsWithKeyword_iff.mp h
  apply firstWord_append (isWordChar_of_mem_reservedWords hkeyword)
  have hword : isWordChar c = false := by
    simp only [endsKeyword, Bool.or_eq_true, beq_iff_eq] at hc
    rcases hc with (rfl | rfl) | rfl <;> decide
  simp [atWordEnd, hword]

/-- What is read behind a reserved word shows that the word is the first one of the text. -/
theorem firstWord_of_afterWord? {word text rest : List Char} (hword : word ∈ reservedWords)
    (h : afterWord? word text = some rest) : firstWord text = word := by
  unfold afterWord? at h
  split at h
  · next hstarts =>
    obtain ⟨hfront, hend⟩ := Bool.and_eq_true_iff.mp hstarts
    obtain ⟨others, rfl⟩ := List.isPrefixOf_iff_prefix.mp hfront
    rw [List.drop_left] at hend
    exact firstWord_append (isWordChar_of_mem_reservedWords hword) hend
  · cases h

/-- What is read behind a reserved word and blanks shows that the word is the first one of the
text. -/
theorem firstWord_of_afterBlanks? {word text rest : List Char} (hword : word ∈ reservedWords)
    (h : afterBlanks? word text = some rest) : firstWord text = word := by
  unfold afterBlanks? at h
  split at h
  · next hstarts =>
    obtain ⟨hfront, hblank⟩ := Bool.and_eq_true_iff.mp hstarts
    obtain ⟨others, rfl⟩ := List.isPrefixOf_iff_prefix.mp hfront
    rw [List.drop_left] at hblank
    apply firstWord_append (isWordChar_of_mem_reservedWords hword)
    cases others with
    | nil => cases hblank
    | cons c more =>
      have hc : isWordChar c = false := isWordChar_of_isBlank hblank
      simp [atWordEnd, hc]
  · cases h

section FirstWord

variable {text : List Char}

/-- A text that starts with a letter and with no keyword is no statement. -/
theorem recognise?_eq_none (hletter : startsWithLetter text = true)
    (hmodule : firstWord text ≠ moduleKeyword) (himport : firstWord text ≠ importKeyword)
    (before : Option Char) : recognise? before text = none := by
  have hline : Comment.opensLine text = false := by
    by_contra hopens
    obtain ⟨rest, rfl⟩ := Comment.opensLine_iff.mp (by simpa using hopens)
    exact absurd hletter (by decide : ¬ isLetter '-' = true)
  have hblock : Comment.opensBlock text = false := by
    by_contra hopens
    obtain ⟨rest, rfl⟩ := Comment.opensBlock_iff.mp (by simpa using hopens)
    exact absurd hletter (by decide : ¬ isLetter '{' = true)
  have hkeyword {keyword : List Char} (hreserved : keyword ∈ reservedWords)
      (hne : firstWord text ≠ keyword) : startsWithKeyword keyword before text = false := by
    by_contra hstarts
    exact hne (firstWord_of_startsWithKeyword hreserved (by simpa using hstarts))
  simp [recognise?, hline, hblock, hkeyword (by decide) hmodule, hkeyword (by decide) himport]

/-- A declaration that starts neither with the word of a port nor with that of an effect is an
ordinary one. -/
theorem classify_eq_ordinary (hport : firstWord text ≠ portWord)
    (heffect : firstWord text ≠ effectWord) : classify text = ordinary text := by
  have hnone {word : List Char} (hreserved : word ∈ reservedWords)
      (hne : firstWord text ≠ word) : afterBlanks? word text = none := by
    cases hafter : afterBlanks? word text with
    | none => rfl
    | some rest => exact absurd (firstWord_of_afterBlanks? hreserved hafter) hne
  have hspecial : specialModule? text = none := by
    rw [specialModule?, hnone (by decide) hport, hnone (by decide) heffect]
    rfl
  rw [classify, hspecial]

/-- A text with another first word defines no type. -/
theorem isType_eq_false (h : firstWord text ≠ typeWord) : isType text = false := by
  rw [isType]
  cases hafter : afterWord? typeWord text with
  | none => rfl
  | some rest => exact absurd (firstWord_of_afterWord? (by decide) hafter) h

/-- A text with another first word defines no type alias. -/
theorem isTypeAlias_eq_false (h : firstWord text ≠ typeWord) : isTypeAlias text = false := by
  rw [isTypeAlias]
  cases hafter : afterBlanks? typeWord text with
  | none => rfl
  | some rest => exact absurd (firstWord_of_afterBlanks? (by decide) hafter) h

end FirstWord

/-- A name of a function that starts with a small letter and is no reserved word. A definition with
such a name is found as a function. -/
structure IsFunctionName (name : List Char) : Prop where
  letters : ∃ c rest, name = c :: rest ∧ 'a' ≤ c ∧ c ≤ 'z' ∧ ∀ d ∈ rest, isWordChar d = true
  notReserved : name ∉ reservedWords

section FunctionName

variable {name rest : List Char}

/-- The names of functions are made of word characters. -/
theorem IsFunctionName.isWordChar_of_mem (h : IsFunctionName name) :
    ∀ c ∈ name, isWordChar c = true := by
  obtain ⟨c, others, rfl, hlow, hhigh, hothers⟩ := h.letters
  have hc : isWordChar c = true := by
    apply Name.isWordChar_of_isNameStart
    simp [isNameStart, isAsciiLetter, hlow, hhigh]
  exact List.forall_mem_cons.mpr ⟨hc, hothers⟩

/-- The name of a function starts with a letter, so a declaration can start with it. -/
theorem IsFunctionName.startsWithLetter (h : IsFunctionName name) (rest : List Char) :
    Statement.startsWithLetter (name ++ rest) = true := by
  obtain ⟨c, others, rfl, hlow, hhigh, -⟩ := h.letters
  exact isLetter_of_isAsciiLetter (by simp [isAsciiLetter, hlow, hhigh])

/-- A function's name in front of what ends a word is the first word of the text. -/
theorem IsFunctionName.firstWord_append (h : IsFunctionName name) (hrest : atWordEnd rest = true) :
    firstWord (name ++ rest) = name :=
  Declaration.firstWord_append h.isWordChar_of_mem hrest

/-- The name is read up to where the word ends. What is behind it says whether it is a definition or
an annotation. -/
theorem IsFunctionName.functionName?_append (h : IsFunctionName name)
    (hrest : atWordEnd rest = true) : functionName? (name ++ rest) = some (name, rest) := by
  have hword := h.firstWord_append hrest
  obtain ⟨c, others, rfl, hlow, hhigh, hothers⟩ := h.letters
  have hstart : isFunctionStart c = true := by simp [isFunctionStart, hlow, hhigh]
  have hc : isWordChar c = true := h.isWordChar_of_mem c List.mem_cons_self
  rw [firstWord, List.cons_append, List.takeWhile_cons_of_pos hc] at hword
  have htake : (others ++ rest).takeWhile isWordChar = others := (List.cons.inj hword).2
  have hdrop : (others ++ rest).dropWhile isWordChar = rest := by
    have hsplit := List.takeWhile_append_dropWhile (p := isWordChar) (l := others ++ rest)
    rw [htake] at hsplit
    exact List.append_cancel_left hsplit
  rw [List.cons_append, functionName?, if_pos hstart, htake, hdrop]

/-- A text that starts with the name of a function is an ordinary declaration, whatever stands in
front of it, and it declares no type. -/
theorem IsFunctionName.found_eq_ordinary (h : IsFunctionName name) (hrest : atWordEnd rest = true)
    (before : Option Char) :
    (recognise? before (name ++ rest)).getD (classify (name ++ rest)) =
      ordinary (name ++ rest) := by
  have hword := h.firstWord_append hrest
  have hne {word : List Char} (hword' : word ∈ reservedWords) :
      firstWord (name ++ rest) ≠ word := by
    rintro rfl
    rw [hword] at hword'
    exact h.notReserved hword'
  rw [recognise?_eq_none (h.startsWithLetter rest) (hne (by decide)) (hne (by decide)),
    Option.getD_none, classify_eq_ordinary (hne (by decide)) (hne (by decide))]

end FunctionName

end Declaration

end ElmReach
