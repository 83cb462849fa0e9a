import ElmReach.Proofs.DottedName
import ElmReach.Source.Statement
import Mathlib.Data.List.Chain
import Mathlib.Tactic.Common

/-!
# Plain texts

The text of a statement is read without its comments and with single spaces between its words.
Taking out the comments leaves a text in which no comment opens, and such a text is left as it is:
it is the normal form of stripping. With single spaces between its words it is tidy: its blanks are
spaces, no two of them stand side by side, and no comment opens in it. A tidy text without blanks at
its ends is its own plain text, so reading it again loses nothing.
-/

namespace ElmReach.Comment

open Text

/-- A character opens no comment together with the one in front of it. -/
def Apart (a b : Char) : Prop :=
  b = '-' → a ≠ '-' ∧ a ≠ '{'

/-- Whether two characters open no comment can be decided by comparing them. -/
instance : DecidableRel Apart :=
  fun a b => inferInstanceAs (Decidable (b = '-' → a ≠ '-' ∧ a ≠ '{'))

/-- No comment opens in a stripped text: no dash stands behind a dash or a brace. What stood around
a comment is kept apart by the space in its place, or by a line break. -/
theorem isChain_strip (text : List Char) : (strip text).IsChain Apart := by
  fun_induction strip text with
  | case1 rest ih => exact ih
  | case2 rest ih => exact ih.cons fun b _ _ => ⟨by decide, by decide⟩
  | case3 c rest hline hblock ih =>
    refine ih.cons fun b hb hdash => ?_
    obtain rfl := hdash
    -- No comment leaves a dash at the front, so this one stood behind `c` in the text.
    rcases Name.head?_strip rest '-' hb with hblank | hhead
    · exact absurd hblank (by decide)
    · obtain ⟨others, rfl⟩ := List.head?_eq_some_iff.mp hhead
      exact ⟨fun hc => hline others hc rfl, fun hc => hblock others hc rfl⟩
  | case4 => exact .nil

/-- A text in which no comment opens is copied, if none opens where the rest starts. -/
theorem strip_append {text rest : List Char} (h : text.IsChain Apart)
    (hrest : ∀ a ∈ text.getLast?, ∀ b ∈ rest.head?, Apart a b) :
    strip (text ++ rest) = text ++ strip rest := by
  induction text with
  | nil => rfl
  | cons c text ih =>
    obtain ⟨hfirst, htext⟩ := List.isChain_cons.mp h
    have hnext : ∀ b ∈ (text ++ rest).head?, Apart c b := by
      cases text with
      | nil => exact hrest c rfl
      | cons d text => exact hfirst
    obtain ⟨hline, hblock⟩ : opensLine (c :: (text ++ rest)) = false ∧
        opensBlock (c :: (text ++ rest)) = false := by
      refine not_opens_cons (fun others hc heq => ?_) fun others hc heq => ?_
      · exact (hnext '-' (by rw [heq]; rfl) rfl).1 hc
      · exact (hnext '-' (by rw [heq]; rfl) rfl).2 hc
    have hlast (a : Char) (ha : a ∈ text.getLast?) := hrest a (List.mem_getLast?_cons ha)
    rw [List.cons_append, strip_cons hline hblock, ih htext hlast, List.cons_append]

/-- A text in which no comment opens is not changed by stripping. -/
theorem strip_eq_self {text : List Char} (h : text.IsChain Apart) : strip text = text := by
  have happend := @strip_append text [] h (by simp)
  rwa [strip, List.append_nil] at happend

/-- No comment opens anywhere in the text: neither of the two delimiters that open one is a part
of it. -/
structure OpensNone (text : List Char) : Prop where
  /-- No line comment opens in the text. -/
  line : ¬ ['-', '-'] <:+: text
  /-- No block comment opens in the text. -/
  block : ¬ ['{', '-'] <:+: text

/-- Both delimiters end with a dash, so it is enough to look in front of each dash of a text. -/
theorem isChain_apart_iff {text : List Char} : text.IsChain Apart ↔ OpensNone text := by
  refine ⟨fun hapart => ⟨fun hline => ?_, fun hblock => ?_⟩, fun hnone => ?_⟩
  · have hpair : ['-', '-'].IsChain Apart := List.IsChain.infix hapart hline
    exact absurd hpair (by decide)
  · have hpair : ['{', '-'].IsChain Apart := List.IsChain.infix hapart hblock
    exact absurd hpair (by decide)
  · rw [List.isChain_iff_forall_rel_of_append_cons_cons]
    rintro a b front rest rfl rfl
    constructor
    · rintro rfl
      exact hnone.line ⟨front, rest, by simp⟩
    · rintro rfl
      exact hnone.block ⟨front, rest, by simp⟩

/-- The texts in which no comment opens are the normal forms of stripping. Each text is brought into
this form: taking a comment out never puts a delimiter together from what stood around it. So a
second run takes nothing more out, and the texts that are not changed are those in which no comment
opens. -/
theorem strip_normalizes (text : List Char) :
    OpensNone (strip text) ∧ strip (strip text) = strip text ∧
      (strip text = text ↔ OpensNone text) := by
  have hnone : OpensNone (strip text) := isChain_apart_iff.mp (isChain_strip text)
  refine ⟨hnone, strip_eq_self (isChain_strip text), fun hself => ?_, fun htext => ?_⟩
  · rwa [hself] at hnone
  · exact strip_eq_self (isChain_apart_iff.mpr htext)

/-- The brace and the dash on the two sides of a comment stay apart. -/
example : strip "\x7b\x7b- -\x7d-".toList = "\x7b -".toList := by decide +kernel

/-- No comment opens in a name, as it is made of word characters and dots. -/
theorem isChain_of_isDotted {name : List Char} (h : Name.IsDotted name) : name.IsChain Apart :=
  List.Pairwise.isChain (List.pairwise_of_forall_mem_list fun a ha _ _ _ => h.ne_of_mem a ha)

/-- A name is copied, whatever follows it, because none of its characters opens a comment. -/
theorem strip_name_append {name : List Char} (h : Name.IsDotted name) (rest : List Char) :
    strip (name ++ rest) = name ++ strip rest :=
  strip_append (isChain_of_isDotted h) fun a ha _ _ _ =>
    h.ne_of_mem a (List.mem_of_mem_getLast? ha)

end ElmReach.Comment

namespace ElmReach.Text

/-- The second character can stand behind the first one in a tidy text: they are not both blank, and
they open no comment. -/
def Fits (a b : Char) : Prop :=
  (isBlank a = true → isBlank b = false) ∧ Comment.Apart a b

/-- Whether a character can stand behind another one in a tidy text can be decided by comparing
them. -/
instance : DecidableRel Fits :=
  fun a b =>
    inferInstanceAs (Decidable ((isBlank a = true → isBlank b = false) ∧ Comment.Apart a b))

/-- Two texts can stand side by side in a tidy text. -/
def Joins (left right : List Char) : Prop :=
  ∀ a ∈ left.getLast?, ∀ b ∈ right.head?, Fits a b

/-- Every blank of the text is a space on its own, and no comment opens in the text. -/
structure Tidy (text : List Char) : Prop where
  spaces : ∀ c ∈ text, isBlank c = true → c = ' '
  fits : text.IsChain Fits

/-- Behind a character that is not blank, any one can stand but a dash. -/
theorem fits_of_not_isBlank {a b : Char} (ha : isBlank a = false) (hb : b ≠ '-') : Fits a b :=
  ⟨fun h => absurd h (by simp [ha]), fun h => absurd h hb⟩

/-- In front of a character that is neither blank nor a dash, any one can stand. -/
theorem fits_of_ne_dash {a b : Char} (hb : isBlank b = false) (hdash : b ≠ '-') : Fits a b :=
  ⟨fun _ => hb, fun h => absurd h hdash⟩

/-- A space can stand in front of any character that is not blank. -/
theorem fits_space {b : Char} (hb : isBlank b = false) : Fits ' ' b :=
  ⟨fun _ => hb, fun _ => by decide⟩

/-- A text is tidy if its blanks are spaces and each character fits behind the one in front of it.
This is a condition that can be computed. -/
theorem tidy_iff {text : List Char} :
    Tidy text ↔ (text.all fun c => !isBlank c || c == ' ') = true ∧ text.IsChain Fits := by
  have hspaces : (text.all fun c => !isBlank c || c == ' ') = true ↔
      ∀ c ∈ text, isBlank c = true → c = ' ' := by
    simp [or_iff_not_imp_left]
  rw [hspaces]
  exact ⟨fun h => ⟨h.spaces, h.fits⟩, fun h => ⟨h.1, h.2⟩⟩

/-- Whether a text is tidy can be decided in one pass. -/
instance (text : List Char) : Decidable (Tidy text) :=
  decidable_of_iff' _ tidy_iff

/-- Tidy texts that can stand side by side are a tidy text together. -/
theorem Tidy.append {left right : List Char} (hleft : Tidy left) (hright : Tidy right)
    (hjoins : Joins left right) : Tidy (left ++ right) := by
  refine ⟨fun c hc => ?_, hleft.fits.append hright.fits hjoins⟩
  rcases List.mem_append.mp hc with hc | hc
  · exact hleft.spaces c hc
  · exact hright.spaces c hc

/-- A piece of a tidy text is tidy. -/
theorem Tidy.of_isInfix {piece text : List Char} (h : Tidy text) (hpiece : piece <:+: text) :
    Tidy piece :=
  ⟨fun c hc => h.spaces c (hpiece.subset hc), List.IsChain.infix h.fits hpiece⟩

/-- A text without blanks is tidy if no comment opens in it. -/
theorem tidy_of_not_isBlank {text : List Char} (hblanks : ∀ c ∈ text, isBlank c = false)
    (hapart : text.IsChain Comment.Apart) : Tidy text := by
  refine ⟨fun c hc hblank => ?_, hapart.imp_of_mem_imp fun a b _ hb h => ⟨fun _ => hblanks b hb, h⟩⟩
  rw [hblanks c hc] at hblank
  cases hblank

/-- Tidy texts with a tidy separator between them are tidy if the separator fits between any two of
them. -/
theorem tidy_intercalate {separator : List Char} {texts : List (List Char)}
    (hseparator : Tidy separator) (hne : separator ≠ [])
    (htexts : ∀ text ∈ texts, text ≠ [] ∧ Tidy text)
    (hjoins : ∀ text ∈ texts, Joins text separator ∧ Joins separator text) :
    Tidy (separator.intercalate texts) := by
  induction texts with
  | nil => exact ⟨by simp, .nil⟩
  | cons text texts ih =>
    obtain ⟨-, htext⟩ := htexts text List.mem_cons_self
    obtain ⟨hbehind, -⟩ := hjoins text List.mem_cons_self
    cases texts with
    | nil => simpa using htext
    | cons next texts =>
      have hrest := ih (fun other hother => htexts other (List.mem_cons_of_mem text hother))
        fun other hother => hjoins other (List.mem_cons_of_mem text hother)
      obtain ⟨hnext, -⟩ := htexts next (by simp)
      obtain ⟨-, hfront⟩ := hjoins next (by simp)
      have hhead : (separator.intercalate (next :: texts)).head? = next.head? := by
        cases texts with
        | nil => simp
        | cons third texts =>
          rw [List.intercalate_cons_cons, List.append_assoc, List.head?_append_of_ne_nil _ hnext]
      rw [List.intercalate_cons_cons, List.append_assoc]
      refine htext.append (hseparator.append hrest fun a ha b hb => ?_) fun a ha b hb => ?_
      · rw [hhead] at hb
        exact hfront a ha b hb
      · rw [List.head?_append_of_ne_nil _ hne] at hb
        exact hbehind a ha b hb

/-- The words of a text are pieces of it without blanks. -/
theorem isInfix_of_mem_words {text word : List Char} (h : word ∈ words text) :
    word ≠ [] ∧ (∀ c ∈ word, isBlank c = false) ∧ word <:+: text := by
  induction hlength : text.length using Nat.strongRecOn generalizing text with
  | _ length ih =>
    obtain ⟨first, rest, rfl, hfirst, hrest⟩ := exists_append_blankFirst text
    cases rest with
    | nil =>
      by_cases hne : first = []
      · simp [hne, words] at h
      · rw [words_append hne hfirst hrest] at h
        obtain rfl : word = first := by simpa [words] using h
        exact ⟨hne, hfirst, by simp⟩
    | cons b rest =>
      have hb := blankFirst_cons.mp hrest
      have hinner (hword : word ∈ words rest) :
          word ≠ [] ∧ (∀ c ∈ word, isBlank c = false) ∧ word <:+: first ++ b :: rest := by
        have hshorter : rest.length < length := by
          rw [← hlength, List.length_append, List.length_cons]
          omega
        obtain ⟨hne, hblanks, hpiece⟩ := ih rest.length hshorter hword rfl
        refine ⟨hne, hblanks, hpiece.trans ?_⟩
        exact ((List.suffix_cons b rest).trans (List.suffix_append first _)).isInfix
      by_cases hne : first = []
      · rw [hne, List.nil_append, words_cons_of_isBlank hb] at h
        exact hinner h
      · rw [words_append hne hfirst hrest, words_cons_of_isBlank hb] at h
        rcases List.mem_cons.mp h with rfl | hword
        · exact ⟨hne, hfirst, (List.prefix_append _ _).isInfix⟩
        · exact hinner hword

/-- Collapsing a text in which no comment opens makes it tidy. -/
theorem tidy_collapse {text : List Char} (h : text.IsChain Comment.Apart) :
    Tidy (collapse text) := by
  refine tidy_intercalate (by decide) (by simp) (fun word hword => ?_) fun word hword => ?_
  · obtain ⟨hne, hblanks, hpiece⟩ := isInfix_of_mem_words hword
    have hapart : word.IsChain Comment.Apart := List.IsChain.infix h hpiece
    exact ⟨hne, tidy_of_not_isBlank hblanks hapart⟩
  · obtain ⟨-, hblanks, -⟩ := isInfix_of_mem_words hword
    constructor
    · rintro a ha b ⟨rfl⟩
      exact fits_of_not_isBlank (hblanks a (List.mem_of_mem_getLast? ha)) (by decide)
    · rintro a ⟨rfl⟩ b hb
      exact fits_space (hblanks b (List.mem_of_mem_head? hb))

/-- A tidy text without blanks at its ends is its own collapsed text. -/
theorem Tidy.collapse_eq {text : List Char} (h : Tidy text) (hends : Trimmed text) :
    collapse text = text := by
  induction hlength : text.length using Nat.strongRecOn generalizing text with
  | _ length ih =>
    obtain ⟨word, rest, rfl, hword, hrest⟩ := exists_append_blankFirst text
    cases rest with
    | nil =>
      by_cases hne : word = []
      · rw [hne]
        rfl
      · rw [collapse_append hne hword hrest]
        simp [words]
    | cons b rest =>
      have hb := blankFirst_cons.mp hrest
      obtain rfl : b = ' ' := h.spaces b (by simp) hb
      have hne : word ≠ [] := by
        rintro rfl
        exact absurd (hends.head ' ' rfl) (by decide)
      have htidy : Tidy rest := h.of_isInfix
        ((List.suffix_cons ' ' rest).trans (List.suffix_append word _)).isInfix
      have hfits := (List.isChain_cons.mp h.fits.right_of_append).1
      have hrestNe : rest ≠ [] := by
        rintro rfl
        exact absurd (hends.last ' ' (by simp)) (by decide)
      have htrimmed : Trimmed rest := by
        refine ⟨fun c hc => (hfits c hc).1 (by decide), fun c hc => hends.last c ?_⟩
        obtain ⟨d, others, rfl⟩ := List.exists_cons_of_ne_nil hrestNe
        simpa [List.getLast?_append, List.getLast?_cons_cons] using hc
      have hshorter : rest.length < length := by
        rw [← hlength, List.length_append, List.length_cons]
        omega
      have hcollapse := ih rest.length hshorter htidy htrimmed rfl
      have hwords : words rest ≠ [] := by
        intro hnil
        rw [collapse, hnil] at hcollapse
        exact hrestNe hcollapse.symm
      rw [collapse_append hne hword hrest, words_cons_of_isBlank hb, if_neg hwords,
        collapse_cons_of_isBlank hb, hcollapse]

end ElmReach.Text

namespace ElmReach.Statement

open Text

/-- Stripping comments and collapsing blanks leaves a tidy text. This is why doing it again changes
nothing. -/
theorem tidy_plain (span : List Char) : Tidy (plain span) :=
  tidy_collapse (Comment.isChain_strip span)

/-- A tidy text without blanks at its ends is its own plain text, also behind a space. -/
theorem plain_cons_of_tidy {text : List Char} (h : Tidy text) (hends : Trimmed text) :
    plain (' ' :: text) = text := by
  have hapart : text.IsChain Comment.Apart := h.fits.imp fun _ _ hfits => hfits.2
  rw [plain, Comment.strip_cons_of_ne (by decide) (by decide), Comment.strip_eq_self hapart,
    collapse_cons_of_isBlank (by decide), h.collapse_eq hends]

end ElmReach.Statement

namespace ElmReach

open Statement

/-- The name of a module statement is the dotted name at the front of its plain text. -/
theorem ModuleStatement.toList_name_ofSpan (span : List Char) :
    (ofSpan span).name.toList = Name.dotted (plain span) := by
  simp [ofSpan, Name.dotted]

/-- The name of an import is the dotted name at the front of its plain text. -/
theorem ImportStatement.toList_name_ofSpan (span : List Char) :
    (ofSpan span).name.toList = Name.dotted (plain span) := by
  unfold ofSpan
  dsimp only
  split
  · next hlength => simp [Name.dotted, hlength]
  · split <;> simp [Name.dotted]

end ElmReach
