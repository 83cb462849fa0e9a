import ElmReach.Proofs.PlainText
import ElmReach.Proofs.TokenRun
import Mathlib.Tactic.Common

/-!
# Names as they stand in the source

The name of a statement is read from its plain text, which is not a piece of the source: comments
are gone and blanks are collapsed. The name is a piece of it all the same. It is the longest dotted
name at the first character of the statement that is neither blank nor inside of a comment, so no
two pieces are glued together and none is cut short.
-/

namespace ElmReach

open Text

namespace Comment

/-- The character at an offset of the text is the first one outside of all comments that is not
blank. -/
structure FirstCode (text : List Char) (offset : Nat) : Prop where
  plain : Plain text offset
  notBlank : ¬ BlankFirst (text.drop offset)
  /-- What is copied in front of it is blank. -/
  blanks : ∀ earlier < offset, Plain text earlier → BlankFirst (text.drop earlier)

/-- If there is any such character, there is a first one. -/
theorem exists_firstCode {text : List Char} {offset : Nat} (hplain : Plain text offset)
    (hcode : ¬ BlankFirst (text.drop offset)) : ∃ first, FirstCode text first := by
  induction offset using Nat.strongRecOn with
  | _ offset ih =>
    by_cases hblanks : ∀ earlier < offset, Plain text earlier → BlankFirst (text.drop earlier)
    · exact ⟨offset, hplain, hcode, hblanks⟩
    · push Not at hblanks
      obtain ⟨earlier, hlt, hearlier, hearlierCode⟩ := hblanks
      exact ih earlier hlt hearlier hearlierCode

/-- A text that ends another one is what is left of it behind some offset. -/
theorem drop_of_suffix {target text : List Char} (h : target <:+ text) :
    text.drop (text.length - target.length) = target :=
  (List.suffix_iff_eq_drop.mp h).symm

/-- What the scan copies is the text from some offset on. -/
theorem plain_of_mem_pieces {target text : List Char} (h : some target ∈ pieces text) :
    Plain text (text.length - target.length) := by
  rw [Plain, drop_of_suffix (suffix_of_mem_pieces h)]
  exact h

/-- No comment opens where the scan copies a character. -/
theorem not_opens_of_mem_pieces {target text : List Char} (h : some target ∈ pieces text) :
    opensLine target = false ∧ opensBlock target = false := by
  fun_induction pieces text with
  | case1 rest ih => exact ih h
  | case2 rest ih => exact ih (by simpa using h)
  | case3 c rest hline hblock ih =>
    rcases List.mem_cons.mp h with heq | htail
    · obtain rfl := Option.some.inj heq
      exact not_opens_cons hline hblock
    · exact ih htail
  | case4 => simp at h

/-- Words start behind what the scan leaves blank. Until then, the text has the same words from each
place on that the scan copies. -/
theorem words_strip_of_mem_pieces {target text : List Char} (h : some target ∈ pieces text)
    (hblanks : ∀ other, some other ∈ pieces text → target.length < other.length →
      BlankFirst other) : words (strip text) = words (strip target) := by
  fun_induction pieces text with
  | case1 rest ih =>
    rw [strip]
    exact ih h hblanks
  | case2 rest ih =>
    rw [strip, words_cons_of_isBlank (by decide)]
    exact ih (by simpa using h) fun other hother => hblanks other (List.mem_cons_of_mem none hother)
  | case3 c rest hline hblock ih =>
    rcases List.mem_cons.mp h with heq | htail
    · rw [Option.some.inj heq]
    · have hlength := (suffix_of_mem_pieces htail).length_le
      have hc : isBlank c = true :=
        blankFirst_cons.mp (hblanks (c :: rest) List.mem_cons_self (Nat.lt_succ_of_le hlength))
      obtain ⟨hopensLine, hopensBlock⟩ := not_opens_cons hline hblock
      rw [strip_cons hopensLine hopensBlock, words_cons_of_isBlank hc]
      exact ih htail fun other hother => hblanks other (List.mem_cons_of_mem _ hother)
  | case4 => simp at h

/-- From its first character outside of comments on, a text has the same words as from its front. -/
theorem FirstCode.words_strip {text : List Char} {offset : Nat} (h : FirstCode text offset) :
    words (strip text) = words (strip (text.drop offset)) := by
  refine words_strip_of_mem_pieces h.plain fun other hother hlength => ?_
  have hsuffix := suffix_of_mem_pieces hother
  have hle := hsuffix.length_le
  rw [List.length_drop] at hlength
  have hblank := h.blanks (text.length - other.length) (by omega) (plain_of_mem_pieces hother)
  rwa [drop_of_suffix hsuffix] at hblank

/-- Without such a character no word is left, so that the name of the statement is empty. -/
theorem words_strip_eq_nil {text : List Char} (h : ∀ offset, ¬ FirstCode text offset) :
    words (strip text) = [] := by
  apply words_eq_nil
  rw [strip_eq_map_pieces]
  intro c hc
  obtain ⟨piece, hpiece, rfl⟩ := List.mem_map.mp hc
  match piece with
  | none => decide
  | some [] => decide
  | some (d :: rest) =>
    by_contra hcode
    have hsuffix := suffix_of_mem_pieces hpiece
    obtain ⟨first, hfirst⟩ := exists_firstCode (plain_of_mem_pieces hpiece) (by
      rwa [drop_of_suffix hsuffix, blankFirst_cons])
    exact h first hfirst

end Comment

namespace Name

/-- The name is the longest dotted name at the front of the text, or empty if there is none. -/
def StandsFirst (name text : List Char) : Prop :=
  LongestDotted name text ∨ name = [] ∧ ∀ other, IsDotted other → ¬ other <+: text

/-- The name that parsing takes from the front of a text is the longest dotted one there. -/
theorem standsFirst_dotted (text : List Char) : StandsFirst (dotted text) text := by
  by_cases hname : ∃ name, IsDotted name ∧ name <+: text
  · obtain ⟨name, hname, hfront⟩ := hname
    exact .inl (longestDotted_dotted hname hfront)
  · push Not at hname
    refine .inr ⟨?_, hname⟩
    by_contra hne
    exact hname _ (isDotted_dotted hne) (List.take_prefix _ _)

end Name

namespace Statement

/-- The name stands in the text of a statement: at the first character that is neither blank nor
inside of a comment, and it is empty if there is no such character. -/
def NameIn (name body : List Char) : Prop :=
  (∃ offset, Comment.FirstCode body offset ∧ Name.StandsFirst name (body.drop offset)) ∨
    name = [] ∧ ∀ offset, ¬ Comment.FirstCode body offset

/-- Neither stripping comments nor collapsing blanks changes the name in front. -/
theorem dotted_plain_of_firstCode {body : List Char} {offset : Nat}
    (h : Comment.FirstCode body offset) :
    Name.dotted (plain body) = Name.dotted (body.drop offset) := by
  obtain ⟨hline, hblock⟩ := Comment.not_opens_of_mem_pieces h.plain
  have hcode := h.notBlank
  have hwords := h.words_strip
  generalize body.drop offset = target at hline hblock hcode hwords ⊢
  have hhead : ∀ c ∈ (Comment.strip target).head?, isBlank c = false := by
    cases target with
    | nil => exact absurd blankFirst_nil hcode
    | cons c rest =>
      rw [Comment.strip_cons hline hblock]
      rintro _ ⟨rfl⟩
      simpa [blankFirst_cons] using hcode
  calc
    Name.dotted (plain body) = Name.dotted (collapse (Comment.strip target)) := by
      rw [plain, collapse, hwords, collapse]
    _ = Name.dotted (Comment.strip target) := Name.dotted_collapse hhead
    _ = Name.dotted target := Name.dotted_strip target

/-- The name that both parsers take from a statement's body is the one that stands in it. -/
theorem nameIn_dotted_plain (body : List Char) : NameIn (Name.dotted (plain body)) body := by
  by_cases hcode : ∃ offset, Comment.FirstCode body offset
  · obtain ⟨offset, hfirst⟩ := hcode
    refine .inl ⟨offset, hfirst, ?_⟩
    rw [dotted_plain_of_firstCode hfirst]
    exact Name.standsFirst_dotted _
  · push Not at hcode
    refine .inr ⟨?_, hcode⟩
    rw [plain, collapse, Comment.words_strip_eq_nil hcode]
    rfl

/-- The text between an offset and the end of the statement there. -/
theorem take_endOffset (content : List Char) (offset : Nat) :
    (content.drop offset).take (endOffset content offset - offset) =
      span (content.drop offset) := by
  rcases Nat.le_total offset content.length with hle | hle
  · have hlength : endOffset content offset - offset = (span (content.drop offset)).length := by
      rw [endOffset, Nat.min_eq_left hle]
      omega
    have hspan := span_append_afterSpan (content.drop offset)
    calc
      _ = (span (content.drop offset) ++ afterSpan (content.drop offset)).take
          (span (content.drop offset)).length := by rw [hspan, hlength]
      _ = span (content.drop offset) := List.take_left
  · rw [List.drop_eq_nil_of_le hle]
    simp [span]

/-- There are no phantom names: the names of a module statement and of an import stand in the source
as they are read, at the front of the code between the keyword and the end of the statement. -/
theorem nameIn_parse (content : List Char) (offset : Nat) :
    NameIn (ModuleStatement.parse content offset).1.name.toList
        ((content.drop offset).take (endOffset content offset - offset)) ∧
      NameIn (ImportStatement.parse content offset).1.name.toList
        ((content.drop offset).take (endOffset content offset - offset)) := by
  rw [take_endOffset]
  refine ⟨?_, ?_⟩
  · rw [ModuleStatement.parse, ModuleStatement.toList_name_ofSpan]
    exact nameIn_dotted_plain _
  · rw [ImportStatement.parse, ImportStatement.toList_name_ofSpan]
    exact nameIn_dotted_plain _

example : (ImportStatement.parse "import \x7b- A -\x7d\tFoo.\x7b- . -\x7dBar".toList 6).1.name =
    "Foo" := by decide +kernel

end Statement

end ElmReach
