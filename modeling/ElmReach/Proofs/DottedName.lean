import ElmReach.Proofs.BlankText
import ElmReach.Proofs.CommentScan
import ElmReach.Source.Name
import Mathlib.Tactic.Common

/-!
# Dotted names

The grammar of words and dotted names, and the proof that reading takes the longest dotted name at
the front of a text. What is read depends on the text up to its first blank only, and neither
stripping comments nor collapsing blanks changes it. A name in front of a blank is read as a whole.
-/

namespace ElmReach.Name

open Text

/-- A word is a name start and any number of word characters. Module names are made of such
words. -/
def IsWord (text : List Char) : Prop :=
  ∃ first rest, text = first :: rest ∧ isNameStart first = true ∧ ∀ c ∈ rest, isWordChar c = true

/-- A dotted name is a sequence of words with single dots between them. It neither starts nor ends
with a dot. -/
inductive IsDotted : List Char → Prop where
  | word {text : List Char} (hword : IsWord text) : IsDotted text
  | dot {text rest : List Char} (hword : IsWord text) (hrest : IsDotted rest) :
    IsDotted (text ++ '.' :: rest)

/-- A text is the longest dotted name at the front of another one: it stands there, and no longer
dotted name does. -/
structure LongestDotted (name text : List Char) : Prop where
  isDotted : IsDotted name
  front : name <+: text
  /-- No longer dotted name stands there. -/
  longest : ∀ other, IsDotted other → other <+: text → other.length ≤ name.length

/-- The dotted name that is read at the front of a text. It is empty if the text starts with
none. -/
def dotted (text : List Char) : List Char :=
  text.take (dottedLength text)

/-- What is read behind the first character of a dotted name. -/
def dottedTail (text : List Char) : List Char :=
  text.take (tailLength text)

/-- A name starts with a letter of ASCII, so that its first character is neither a blank nor a
delimiter. -/
theorem toNat_lt_of_isNameStart {c : Char} (h : isNameStart c = true) : c.toNat < 128 := by
  simp only [isNameStart, isAsciiLetter, Bool.or_eq_true, Bool.and_eq_true, decide_eq_true_eq,
    beq_iff_eq] at h
  rcases h with (⟨-, hle⟩ | ⟨-, hle⟩) | rfl
  · exact Nat.lt_of_le_of_lt (UInt32.le_iff_toNat_le.mp (Char.le_def.mp hle)) (by decide)
  · exact Nat.lt_of_le_of_lt (UInt32.le_iff_toNat_le.mp (Char.le_def.mp hle)) (by decide)
  · decide

/-- The character with which a name starts is a word character. -/
theorem isWordChar_of_isNameStart {c : Char} (h : isNameStart c = true) : isWordChar c = true := by
  have hascii : isLetter c = isAsciiLetter c := by
    rw [isLetter, if_pos (toNat_lt_of_isNameStart h)]
  simp only [isNameStart, Bool.or_eq_true] at h
  rcases h with hletter | hunderscore
  · simp [isWordChar, hascii, hletter]
  · simp [isWordChar, hunderscore]

/-- A blank starts no name. So nothing is read where the text of a name starts with one. -/
theorem isNameStart_of_isBlank {c : Char} (h : isBlank c = true) : isNameStart c = false := by
  by_contra hstart
  have hword := isWordChar_of_isNameStart (by simpa using hstart)
  rw [isWordChar_of_isBlank h] at hword
  cases hword

/-- Nothing starts with a name if nothing is there. The name that is read is empty then. -/
@[simp] theorem dotted_nil : dotted [] = [] := rfl

/-- A text starts with a dotted name if its first character can start one. -/
theorem dotted_cons (c : Char) (rest : List Char) :
    dotted (c :: rest) = if isNameStart c then c :: dottedTail rest else [] := by
  by_cases hc : isNameStart c = true <;> simp [dotted, dottedTail, dottedLength, hc, Nat.add_comm 1]

/-- Behind a name at the end of the text stands nothing more of it. -/
@[simp] theorem dottedTail_nil : dottedTail [] = [] := rfl

/-- Behind a dot, a dotted name goes on if the next character can start a name. -/
theorem dottedTail_dot (c : Char) (rest : List Char) :
    dottedTail ('.' :: c :: rest) = if isNameStart c then '.' :: c :: dottedTail rest else [] := by
  by_cases hc : isNameStart c = true <;> simp [dottedTail, tailLength, hc, Nat.add_comm 2]

/-- A dot at the end of the text does not belong to a name. -/
theorem dottedTail_cons {c : Char} {rest : List Char} (h : c = '.' → rest = []) :
    dottedTail (c :: rest) = if isWordChar c then c :: dottedTail rest else [] := by
  have hlength : tailLength (c :: rest) = if isWordChar c then 1 + tailLength rest else 0 := by
    rw [tailLength]
    rintro d others rfl rfl
    cases h rfl
  by_cases hc : isWordChar c = true <;> simp [dottedTail, hlength, hc, Nat.add_comm 1]

/-- A dot in front of anything but a name start does not belong to a name. -/
theorem dottedTail_lone_dot {rest : List Char} (h : ∀ c ∈ rest.head?, isNameStart c = false) :
    dottedTail ('.' :: rest) = [] := by
  cases rest with
  | nil => rfl
  | cons c rest => simp [dottedTail_dot, h c rfl]

/-- What can follow the first character of a dotted name: word characters, and dots with a name
start behind each of them. -/
inductive IsTail : List Char → Prop where
  | nil : IsTail []
  | char {c : Char} {rest : List Char} (hc : isWordChar c = true) (hrest : IsTail rest) :
    IsTail (c :: rest)
  | dot {c : Char} {rest : List Char} (hc : isNameStart c = true) (hrest : IsTail rest) :
    IsTail ('.' :: c :: rest)

/-- Word characters in front of the end of a dotted name are a part of it. -/
theorem IsTail.append {word rest : List Char} (hword : ∀ c ∈ word, isWordChar c = true)
    (hrest : IsTail rest) : IsTail (word ++ rest) := by
  induction word with
  | nil => exact hrest
  | cons c word ih =>
    exact .char (hword c List.mem_cons_self) (ih fun d hd => hword d (List.mem_cons_of_mem c hd))

/-- A dotted name is a first character that can start a name, and a tail. -/
theorem IsDotted.exists_tail {text : List Char} (h : IsDotted text) :
    ∃ first rest, text = first :: rest ∧ isNameStart first = true ∧ IsTail rest := by
  induction h with
  | word hword =>
    obtain ⟨first, rest, rfl, hfirst, hchars⟩ := hword
    exact ⟨first, rest, rfl, hfirst, by simpa using IsTail.nil.append hchars⟩
  | dot hword _ ih =>
    obtain ⟨first, rest, rfl, hfirst, hchars⟩ := hword
    obtain ⟨c, others, rfl, hc, hothers⟩ := ih
    exact ⟨first, _, rfl, hfirst, IsTail.append hchars (.dot hc hothers)⟩

/-- A dotted name is not empty. An empty result of reading says that there is no name. -/
theorem IsDotted.ne_nil {text : List Char} (h : IsDotted text) : text ≠ [] := by
  obtain ⟨first, rest, rfl, -, -⟩ := h.exists_tail
  exact List.cons_ne_nil first rest

/-- A word followed by a tail is a dotted name. A tail is empty, or a dot with a word and a tail
behind it. -/
theorem IsTail.isDotted {rest : List Char} (hrest : IsTail rest) {word : List Char}
    (hword : IsWord word) : IsDotted (word ++ rest) := by
  induction hrest generalizing word with
  | nil => simpa using IsDotted.word hword
  | @char c rest hc _ ih =>
    obtain ⟨first, chars, rfl, hfirst, hchars⟩ := hword
    have hlonger : IsWord (first :: chars ++ [c]) := by
      refine ⟨first, chars ++ [c], rfl, hfirst, fun d hd => ?_⟩
      rcases List.mem_append.mp hd with hd | hd
      · exact hchars d hd
      · rw [List.mem_singleton.mp hd]
        exact hc
    simpa using ih hlonger
  | @dot c rest hc _ ih => exact .dot hword (ih ⟨c, [], rfl, hc, by simp⟩)

/-- What is read behind the first character of a name is a tail. -/
theorem isTail_dottedTail (text : List Char) : IsTail (dottedTail text) := by
  fun_induction tailLength text with
  | case1 c rest hc ih =>
    rw [dottedTail_dot, if_pos hc]
    exact .dot hc ih
  | case2 c rest hc =>
    rw [dottedTail_dot, if_neg hc]
    exact .nil
  | case3 c rest hdot hc ih =>
    rw [dottedTail_cons, if_pos hc]
    · exact .char hc ih
    · rintro rfl
      exact absurd hc (by decide)
  | case4 c rest hdot hc =>
    rw [dottedTail, tailLength, if_neg hc]
    · exact .nil
    · exact hdot
  | case5 => exact .nil

/-- Reading goes on as long as a name can be continued. -/
theorem IsTail.prefix_dottedTail {rest text : List Char} (h : IsTail rest)
    (hfront : rest <+: text) : rest <+: dottedTail text := by
  induction h generalizing text with
  | nil => exact List.nil_prefix
  | @char c rest hc _ ih =>
    obtain ⟨others, rfl⟩ := hfront
    have hdot : c = '.' → rest ++ others = [] := by
      rintro rfl
      exact absurd hc (by decide)
    rw [List.cons_append, dottedTail_cons hdot, if_pos hc]
    exact List.cons_prefix_cons.mpr ⟨rfl, ih (List.prefix_append rest others)⟩
  | @dot c rest hc _ ih =>
    obtain ⟨others, rfl⟩ := hfront
    rw [List.cons_append, List.cons_append, dottedTail_dot, if_pos hc]
    have htail := ih (List.prefix_append rest others)
    exact List.cons_prefix_cons.mpr ⟨rfl, List.cons_prefix_cons.mpr ⟨rfl, htail⟩⟩

/-- Reading takes the longest dotted name, if there is one at all. What is read is dotted, and it
can be continued by nothing. -/
theorem longestDotted_dotted {text other : List Char} (hother : IsDotted other)
    (hfront : other <+: text) : LongestDotted (dotted text) text := by
  have hread (name : List Char) (hname : IsDotted name) (hname' : name <+: text) :
      name <+: dotted text := by
    obtain ⟨first, rest, rfl, hfirst, hrest⟩ := hname.exists_tail
    obtain ⟨others, rfl⟩ := hname'
    rw [List.cons_append, dotted_cons, if_pos hfirst]
    exact List.cons_prefix_cons.mpr ⟨rfl, hrest.prefix_dottedTail (List.prefix_append rest others)⟩
  refine ⟨?_, List.take_prefix _ _, fun name hname hname' => (hread name hname hname').length_le⟩
  obtain ⟨first, rest, rfl, hfirst, -⟩ := hother.exists_tail
  obtain ⟨others, rfl⟩ := hfront
  rw [List.cons_append, dotted_cons, if_pos hfirst]
  exact (isTail_dottedTail _).isDotted ⟨first, [], rfl, hfirst, by simp⟩

/-- A blank ends a dotted name at once, even if a dot follows behind it. -/
theorem dottedTail_of_blankFirst {text : List Char} (h : BlankFirst text) :
    dottedTail text = [] := by
  cases text with
  | nil => rfl
  | cons c rest =>
    have hc := blankFirst_cons.mp h
    have hdot : c = '.' → rest = [] := by
      rintro rfl
      exact absurd hc (by decide)
    simp [dottedTail_cons hdot, isWordChar_of_isBlank hc]

/-- What stands behind a blank is not looked at when a dotted name is read. -/
theorem dottedTail_append {rest : List Char} (hrest : BlankFirst rest) (text : List Char) :
    dottedTail (text ++ rest) = dottedTail text := by
  fun_induction tailLength text with
  | case1 c text hc ih =>
    rw [List.cons_append, List.cons_append, dottedTail_dot, dottedTail_dot, ih]
  | case2 c text hc => simp [dottedTail_dot, hc]
  | case3 c text hdot hc ih =>
    have hne : c ≠ '.' := by
      rintro rfl
      exact absurd hc (by decide)
    rw [List.cons_append, dottedTail_cons fun h => absurd h hne,
      dottedTail_cons fun h => absurd h hne, ih]
  | case4 c text hdot hc =>
    by_cases hne : c = '.'
    · have htext : text = [] := by
        cases text with
        | nil => rfl
        | cons d others => exact absurd rfl (hdot d others hne)
      subst hne htext
      rw [List.singleton_append,
        dottedTail_lone_dot fun d hd => isNameStart_of_isBlank (hrest d hd)]
      rfl
    · rw [List.cons_append, dottedTail_cons fun h => absurd h hne,
        dottedTail_cons fun h => absurd h hne, if_neg hc, if_neg hc]
  | case5 => simpa using dottedTail_of_blankFirst hrest

/-- A blank ends a dotted name: in front of a blank, the whole name is read and no more. -/
theorem dotted_append {rest : List Char} (hrest : BlankFirst rest) (text : List Char) :
    dotted (text ++ rest) = dotted text := by
  cases text with
  | nil =>
    cases rest with
    | nil => rfl
    | cons c rest => simp [dotted_cons, isNameStart_of_isBlank (blankFirst_cons.mp hrest)]
  | cons c text => rw [List.cons_append, dotted_cons, dotted_cons, dottedTail_append hrest]

/-- Collapsing does not change the name at the front of a text. -/
theorem dotted_collapse {text : List Char} (h : ∀ c ∈ text.head?, isBlank c = false) :
    dotted (collapse text) = dotted text := by
  obtain ⟨word, rest, rfl, hword, hrest⟩ := exists_append_blankFirst text
  cases word with
  | nil =>
    cases rest with
    | nil => rfl
    | cons c rest => simpa using (h c rfl).symm.trans (blankFirst_cons.mp hrest)
  | cons c word =>
    rw [collapse_append (by simp) hword hrest, dotted_append hrest]
    apply dotted_append
    split
    · exact blankFirst_nil
    · exact blankFirst_cons.mpr (by decide)

/-- A text that starts with a comment starts with a blank, if with anything, when it is stripped. -/
theorem blankFirst_strip {text : List Char}
    (h : Comment.opensLine text = true ∨ Comment.opensBlock text = true) :
    BlankFirst (Comment.strip text) := by
  rcases h with hline | hblock
  · obtain ⟨rest, rfl⟩ := Comment.opensLine_iff.mp hline
    rw [Comment.strip]
    cases hafter : Comment.afterLine rest with
    | nil => simpa [Comment.strip] using blankFirst_nil
    | cons c next =>
      have hc : c = '\n' := Comment.head?_afterLine rest c (by simp [hafter])
      rw [hc, Comment.strip_cons_of_ne (by decide) (by decide)]
      exact blankFirst_cons.mpr (by decide)
  · obtain ⟨rest, rfl⟩ := Comment.opensBlock_iff.mp hblock
    rw [Comment.strip]
    exact blankFirst_cons.mpr (by decide)

/-- Stripping comments keeps a word character, since no delimiter of a comment contains one. -/
theorem strip_cons_of_isWordChar {c : Char} (hc : isWordChar c = true) (rest : List Char) :
    Comment.strip (c :: rest) = c :: Comment.strip rest := by
  apply Comment.strip_cons_of_ne
  · rintro rfl
    exact absurd hc (by decide)
  · rintro rfl
    exact absurd hc (by decide)

/-- The first character of a stripped text is that of the text, or a blank that a comment leaves. -/
theorem head?_strip (text : List Char) :
    ∀ c ∈ (Comment.strip text).head?, isBlank c = true ∨ text.head? = some c := by
  intro c hc
  by_cases hopens : Comment.opensLine text = true ∨ Comment.opensBlock text = true
  · exact .inl (blankFirst_strip hopens c hc)
  · simp only [not_or, Bool.not_eq_true] at hopens
    cases text with
    | nil => simp [Comment.strip] at hc
    | cons d rest =>
      rw [Comment.strip_cons hopens.1 hopens.2] at hc
      exact .inr hc

/-- Stripping turns a character that starts no name into nothing that starts one. -/
theorem head?_strip_cons {c : Char} (hc : isNameStart c = false) (rest : List Char) :
    ∀ d ∈ (Comment.strip (c :: rest)).head?, isNameStart d = false := by
  intro d hd
  rcases head?_strip (c :: rest) d hd with hblank | hhead
  · exact isNameStart_of_isBlank hblank
  · rwa [← Option.some.inj hhead]

/-- Stripping does not change how a name goes on: a comment ends it, and so does the blank that the
comment leaves. -/
theorem dottedTail_strip (text : List Char) :
    dottedTail (Comment.strip text) = dottedTail text := by
  fun_induction tailLength text with
  | case1 c text hc ih =>
    rw [Comment.strip_cons_of_ne (by decide) (by decide),
      strip_cons_of_isWordChar (isWordChar_of_isNameStart hc), dottedTail_dot, dottedTail_dot, ih]
  | case2 c text hc =>
    rw [Comment.strip_cons_of_ne (by decide) (by decide), dottedTail_dot, if_neg hc]
    exact dottedTail_lone_dot (head?_strip_cons (by simpa using hc) text)
  | case3 c text hdot hc ih =>
    have hne : c ≠ '.' := by
      rintro rfl
      exact absurd hc (by decide)
    rw [strip_cons_of_isWordChar hc, dottedTail_cons fun h => absurd h hne,
      dottedTail_cons fun h => absurd h hne, ih]
  | case4 c text hdot hc =>
    have hempty : dottedTail (c :: text) = [] := by
      rw [dottedTail, tailLength, if_neg hc]
      · rfl
      · exact hdot
    rw [hempty]
    by_cases hopens : Comment.opensLine (c :: text) = true ∨ Comment.opensBlock (c :: text) = true
    · exact dottedTail_of_blankFirst (blankFirst_strip hopens)
    · simp only [not_or, Bool.not_eq_true] at hopens
      rw [Comment.strip_cons hopens.1 hopens.2]
      cases text with
      | nil => rw [Comment.strip, hempty]
      | cons d text =>
        have hne : c ≠ '.' := fun h => hdot d text h rfl
        rw [dottedTail_cons fun h => absurd h hne, if_neg hc]
  | case5 => rw [Comment.strip]

/-- Stripping does not change the name at the front of a text: a comment behind it leaves a blank,
which ends the name as the comment does. -/
theorem dotted_strip (text : List Char) : dotted (Comment.strip text) = dotted text := by
  cases text with
  | nil => rw [Comment.strip]
  | cons c rest =>
    by_cases hc : isNameStart c = true
    · rw [strip_cons_of_isWordChar (isWordChar_of_isNameStart hc), dotted_cons, dotted_cons,
        dottedTail_strip]
    · rw [dotted_cons, if_neg hc]
      have hhead := head?_strip_cons (by simpa using hc) rest
      cases hstrip : Comment.strip (c :: rest) with
      | nil => rfl
      | cons d others =>
        rw [hstrip] at hhead
        simp [dotted_cons, hhead d rfl]

/-- What is read is a dotted name, unless it is empty. -/
theorem isDotted_dotted {text : List Char} (h : dotted text ≠ []) : IsDotted (dotted text) := by
  cases text with
  | nil => exact absurd rfl h
  | cons c rest =>
    rw [dotted_cons] at h ⊢
    split
    · next hc => exact (isTail_dottedTail rest).isDotted ⟨c, [], rfl, hc, by simp⟩
    · next hc => exact absurd (if_neg hc) h

/-- A name that is read and not empty is a dotted name. -/
theorem isDotted_of_toList_eq {name : String} {text : List Char} (h : name.toList = dotted text)
    (hname : name ≠ "") : IsDotted name.toList := by
  rw [h]
  apply isDotted_dotted
  rwa [← h, ne_eq, String.toList_eq_nil_iff]

/-- A dotted name is read as a whole, if nothing stands behind it. -/
theorem IsDotted.dotted_eq {name : List Char} (h : IsDotted name) : dotted name = name := by
  have hlongest := longestDotted_dotted h List.prefix_rfl
  exact hlongest.front.eq_of_length_le (hlongest.longest name h List.prefix_rfl)

/-- The characters of a dotted name are word characters and dots. -/
theorem IsDotted.isWordChar_or_dot {name : List Char} (h : IsDotted name) :
    ∀ c ∈ name, isWordChar c = true ∨ c = '.' := by
  have hword {word : List Char} (hword : IsWord word) : ∀ c ∈ word, isWordChar c = true := by
    obtain ⟨first, rest, rfl, hfirst, hrest⟩ := hword
    exact List.forall_mem_cons.mpr ⟨isWordChar_of_isNameStart hfirst, hrest⟩
  induction h with
  | word h => exact fun c hc => .inl (hword h c hc)
  | dot h _ ih =>
    intro c hc
    rcases List.mem_append.mp hc with hc | hc
    · exact .inl (hword h c hc)
    · rcases List.mem_cons.mp hc with rfl | hc
      · exact .inr rfl
      · exact ih c hc

/-- A dotted name consists of word characters and dots, none of which is blank. -/
theorem IsDotted.not_isBlank {name : List Char} (h : IsDotted name) :
    ∀ c ∈ name, isBlank c = false := by
  intro c hc
  rcases h.isWordChar_or_dot c hc with hword | rfl
  · exact isBlank_of_isWordChar hword
  · decide

/-- A dotted name holds no character that opens a comment. -/
theorem IsDotted.ne_of_mem {name : List Char} (h : IsDotted name) :
    ∀ c ∈ name, c ≠ '-' ∧ c ≠ '{' := by
  intro c hc
  rcases h.isWordChar_or_dot c hc with hword | rfl
  · constructor <;> rintro rfl <;> exact absurd hword (by decide)
  · decide

/-- A name that is followed by a blank, if by anything, ends where reading stops. -/
theorem drop_dottedLength {name rest : List Char} (hname : IsDotted name)
    (hrest : BlankFirst rest) :
    (name ++ rest).drop (dottedLength (name ++ rest)) = rest := by
  have hread : dotted (name ++ rest) = name := by rw [dotted_append hrest, hname.dotted_eq]
  have hsplit := List.take_append_drop (dottedLength (name ++ rest)) (name ++ rest)
  rw [← dotted, hread] at hsplit
  exact List.append_cancel_left hsplit

/-- A word that is read and not empty is a word. Reading takes a letter and the word characters
behind it. -/
theorem isWord_take_wordLength {text : List Char} (h : wordLength text ≠ 0) :
    IsWord (text.take (wordLength text)) := by
  cases text with
  | nil => exact absurd rfl h
  | cons c rest =>
    by_cases hc : isNameStart c = true
    · refine ⟨c, rest.takeWhile isWordChar, ?_, hc, fun d hd => List.mem_takeWhile_imp hd⟩
      have htake := @List.take_left _ (rest.takeWhile isWordChar) (rest.dropWhile isWordChar)
      rw [List.takeWhile_append_dropWhile] at htake
      rw [wordLength, if_pos hc, Nat.add_comm, List.take_succ_cons, htake]
    · exact absurd (by rw [wordLength, if_neg hc]) h

/-- A word that is followed by a blank, if by anything, is read as a whole. -/
theorem wordLength_append {word rest : List Char} (hword : IsWord word) (hrest : BlankFirst rest) :
    wordLength (word ++ rest) = word.length := by
  obtain ⟨first, others, rfl, hfirst, hothers⟩ := hword
  have hstop : rest.takeWhile isWordChar = [] := by
    cases rest with
    | nil => rfl
    | cons c rest => simp [isWordChar_of_isBlank (blankFirst_cons.mp hrest)]
  rw [List.cons_append, wordLength, if_pos hfirst, List.takeWhile_append_of_pos hothers, hstop,
    List.append_nil, List.length_cons, Nat.add_comm]

end ElmReach.Name
