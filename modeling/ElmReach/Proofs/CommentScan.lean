import ElmReach.Source.Comment
import Mathlib.Tactic.Common

/-!
# The scan for comments

Stripping reads a text piece by piece: a comment is skipped as a whole, and any other character is
copied. The pieces are made explicit here, so that an offset can be said to lie outside of all
comments. A reader that has lost track of how many block comments are open still has the rest of
the text in common with this scan. `Ahead` is what such a reader can keep as an invariant.
-/

namespace ElmReach.Comment

/-- A line comment opens with two dashes. What follows them does not matter. -/
theorem opensLine_iff {text : List Char} :
    opensLine text = true ↔ ∃ rest, text = '-' :: '-' :: rest := by
  unfold opensLine
  split
  · simp
  · next hline => simpa using hline

/-- A block comment opens with a brace and a dash. What follows them does not matter. -/
theorem opensBlock_iff {text : List Char} :
    opensBlock text = true ↔ ∃ rest, text = '{' :: '-' :: rest := by
  unfold opensBlock
  split
  · simp
  · next hblock => simpa using hblock

/-- Where neither delimiter stands, no comment opens. -/
theorem not_opens_cons {c : Char} {rest : List Char}
    (hline : ∀ others, c = '-' → rest = '-' :: others → False)
    (hblock : ∀ others, c = '{' → rest = '-' :: others → False) :
    opensLine (c :: rest) = false ∧ opensBlock (c :: rest) = false := by
  constructor
  · rw [Bool.eq_false_iff, ne_eq, opensLine_iff]
    rintro ⟨others, heq⟩
    exact hline others (List.cons.inj heq).1 (List.cons.inj heq).2
  · rw [Bool.eq_false_iff, ne_eq, opensBlock_iff]
    rintro ⟨others, heq⟩
    exact hblock others (List.cons.inj heq).1 (List.cons.inj heq).2

/-- Where no comment opens, stripping copies a character. -/
theorem strip_cons {c : Char} {rest : List Char} (hline : opensLine (c :: rest) = false)
    (hblock : opensBlock (c :: rest) = false) : strip (c :: rest) = c :: strip rest := by
  rw [strip]
  · rintro next rfl rfl
    simp [opensLine] at hline
  · rintro next rfl rfl
    simp [opensBlock] at hblock

/-- A character that starts no delimiter is copied, and stripping goes on behind it. -/
theorem strip_cons_of_ne {c : Char} (hdash : c ≠ '-') (hbrace : c ≠ '{') (rest : List Char) :
    strip (c :: rest) = c :: strip rest := by
  apply strip_cons
  · simp [opensLine, hdash]
  · simp [opensBlock, hbrace]

/-- A line comment ends in front of a line break, or at the end of the text. -/
theorem head?_afterLine (text : List Char) : ∀ c ∈ (afterLine text).head?, c = '\n' := by
  intro c hc
  have hhead := List.head?_dropWhile_not (· != '\n') text
  rw [← afterLine, Option.mem_def.mp hc] at hhead
  simpa using hhead

/-- What the scan for comments finds, in order: `none` for a block comment, and for each character
outside of comments the text from that character on. -/
def pieces : List Char → List (Option (List Char))
  | '-' :: '-' :: rest => pieces (afterLine rest)
  | '{' :: '-' :: rest => none :: pieces (afterBlock 1 rest)
  | c :: rest => some (c :: rest) :: pieces rest
  | [] => []
termination_by text => text.length
decreasing_by
  · have := length_afterLine_le rest
    simp only [List.length_cons]
    omega
  · have := length_afterBlock_le 1 rest
    simp only [List.length_cons]
    omega
  · simp

/-- The character that stripping leaves for a piece: the first one of what is copied, and a space
for a block comment. -/
def leftBy : Option (List Char) → Char
  | some (c :: _) => c
  | _ => ' '

/-- Stripping copies what the scan finds outside of comments. So all that is said of the pieces is
also said of the stripped text. -/
theorem strip_eq_map_pieces (text : List Char) : strip text = (pieces text).map leftBy := by
  fun_induction pieces text with
  | case1 rest ih => rw [strip, ih]
  | case2 rest ih => rw [strip, ih]; rfl
  | case3 c rest hline hblock ih => rw [strip, ih]; rfl; all_goals assumption
  | case4 => simp [strip]

/-- The character at an offset of the content lies outside of all comments, that is, stripping
copies it. -/
def Plain (content : List Char) (offset : Nat) : Prop :=
  some (content.drop offset) ∈ pieces content

/-- Whether a character lies outside of all comments is decided by going through what the scan
copies. -/
instance (content : List Char) (offset : Nat) : Decidable (Plain content offset) :=
  inferInstanceAs (Decidable (some (content.drop offset) ∈ pieces content))

/-- What stands behind a line comment is an end of the text. -/
theorem afterLine_suffix (text : List Char) : afterLine text <:+ text :=
  List.dropWhile_suffix _

/-- What stands behind a block comment is an end of the text, however many comments are open in
front of it. -/
theorem afterBlock_suffix (depth : Int) (text : List Char) : afterBlock depth text <:+ text := by
  fun_induction afterBlock depth text with
  | case1 depth rest ih => exact ih.trans (List.suffix_append ['{', '-'] rest)
  | case2 rest => exact List.suffix_append ['-', '}'] rest
  | case3 depth rest hdepth ih => exact ih.trans (List.suffix_append ['-', '}'] rest)
  | case4 depth c rest hopen hclose ih => exact ih.trans (List.suffix_cons c rest)
  | case5 => exact List.suffix_rfl

/-- What the scan copies is a part of the text: each piece is what is left of the text from some
character on. -/
theorem suffix_of_mem_pieces {target text : List Char} (h : some target ∈ pieces text) :
    target <:+ text := by
  fun_induction pieces text with
  | case1 rest ih =>
    exact (ih h).trans ((afterLine_suffix rest).trans (List.suffix_append ['-', '-'] rest))
  | case2 rest ih =>
    have htail : some target ∈ pieces (afterBlock 1 rest) := by simpa using h
    exact (ih htail).trans ((afterBlock_suffix 1 rest).trans (List.suffix_append ['{', '-'] rest))
  | case3 c rest hline hblock ih =>
    rcases List.mem_cons.mp h with heq | htail
    · obtain rfl := Option.some.inj heq
      exact List.suffix_rfl
    · exact (ih htail).trans (List.suffix_cons c rest)
  | case4 => simp at h

/-- Comments nest: leaving all of them is leaving the inner ones and then the outer ones. -/
theorem afterBlock_add {outer inner : Int} (houter : 1 ≤ outer) (hinner : 1 ≤ inner)
    (text : List Char) :
    afterBlock (outer + inner) text = afterBlock outer (afterBlock inner text) := by
  fun_induction afterBlock inner text with
  | case1 inner rest ih =>
    have hopen : outer + inner + 1 = outer + (inner + 1) := by omega
    rw [afterBlock, hopen, ih (by omega)]
  | case2 rest =>
    have hclose : outer + 1 - 1 = outer := by omega
    rw [afterBlock, if_neg (by omega), hclose]
  | case3 inner rest hinner1 ih =>
    have hclose : outer + inner - 1 = outer + (inner - 1) := by omega
    rw [afterBlock, if_neg (by omega), hclose, ih (by omega)]
  | case4 inner c rest hopen hclose ih => rw [afterBlock, ih hinner] <;> assumption
  | case5 => simp [afterBlock]

/-- Where the scan goes on copying if it has `depth` block comments open in front of the text. -/
def leave (depth : Nat) (text : List Char) : List Char :=
  if depth = 0 then text else afterBlock depth text

/-- With no block comment open, the scan goes on with the text itself. -/
@[simp] theorem leave_zero (text : List Char) : leave 0 text = text := rfl

/-- With block comments open, the scan goes on behind the closer of the outermost one. -/
@[simp] theorem leave_succ (depth : Nat) (text : List Char) :
    leave (depth + 1) text = afterBlock (depth + 1) text := by
  simp [leave]

/-- The scan comes to copy `target`, if some number of block comments is open in front of the
text. -/
def Ahead (target text : List Char) : Prop :=
  ∃ depth, some target ∈ pieces (leave depth text)

/-- What the scan comes to copy is an end of the text in front of which it stands. -/
theorem Ahead.suffix {target text : List Char} (h : Ahead target text) : target <:+ text := by
  obtain ⟨depth, hmem⟩ := h
  have htarget := suffix_of_mem_pieces hmem
  cases depth with
  | zero => exact htarget
  | succ depth =>
    rw [leave_succ] at htarget
    exact htarget.trans (afterBlock_suffix _ _)

/-- A block comment that opens in front of what the scan copies also closes in front of it,
whether or not the scan is inside of another comment. -/
theorem Ahead.of_opensBlock {target rest : List Char} (h : Ahead target ('{' :: '-' :: rest)) :
    Ahead target (afterBlock 1 rest) := by
  obtain ⟨depth, hmem⟩ := h
  cases depth with
  | zero => exact ⟨0, by simpa [pieces] using hmem⟩
  | succ depth =>
    have hdepth : (1 : Int) ≤ depth + 1 := by omega
    refine ⟨depth + 1, ?_⟩
    rw [leave_succ, afterBlock, afterBlock_add hdepth (Int.le_refl 1)] at hmem
    simpa using hmem

/-- How the scan goes on from a character in front of what it comes to copy: it copies or passes
over the character, it reads a delimiter of a block comment, or it skips a line comment. -/
theorem Ahead.cases {target : List Char} {c : Char} {rest : List Char}
    (h : Ahead target (c :: rest)) :
    target = c :: rest ∨ Ahead target rest ∨
      (∃ next, c = '{' ∧ rest = '-' :: next ∧ Ahead target next) ∨
      (∃ next, c = '-' ∧ rest = '}' :: next ∧ Ahead target next) ∨
      ∃ next, c = '-' ∧ rest = '-' :: next ∧ Ahead target (afterLine next) := by
  obtain ⟨depth, hmem⟩ := h
  cases depth with
  | zero =>
    rw [leave_zero] at hmem
    unfold pieces at hmem
    split at hmem
    · next next heq =>
      obtain ⟨rfl, rfl⟩ := List.cons.inj heq
      exact .inr (.inr (.inr (.inr ⟨next, rfl, rfl, 0, hmem⟩)))
    · next next heq =>
      obtain ⟨rfl, rfl⟩ := List.cons.inj heq
      exact .inr (.inr (.inl ⟨next, rfl, rfl, 1, by simpa using hmem⟩))
    · next d next hline hblock heq =>
      obtain ⟨rfl, rfl⟩ := List.cons.inj heq
      rcases List.mem_cons.mp hmem with hhere | htail
      · exact .inl (Option.some.inj hhere)
      · exact .inr (.inl ⟨0, htail⟩)
    · next heq => cases heq
  | succ depth =>
    rw [leave_succ] at hmem
    unfold afterBlock at hmem
    split at hmem
    · next next heq =>
      obtain ⟨rfl, rfl⟩ := List.cons.inj heq
      refine .inr (.inr (.inl ⟨next, rfl, rfl, depth + 2, ?_⟩))
      simpa [Int.add_assoc] using hmem
    · next next heq =>
      obtain ⟨rfl, rfl⟩ := List.cons.inj heq
      refine .inr (.inr (.inr (.inl ⟨next, rfl, rfl, depth, ?_⟩)))
      cases depth with
      | zero => simpa using hmem
      | succ depth =>
        rw [if_neg (by omega)] at hmem
        simpa using hmem
    · next d next hopen hclose heq =>
      obtain ⟨rfl, rfl⟩ := List.cons.inj heq
      exact .inr (.inl ⟨depth + 1, by simpa using hmem⟩)
    · next heq => cases heq

/-- A character that starts no delimiter can be put in front, inside and outside of comments. -/
theorem Ahead.cons {target rest : List Char} {c : Char} (h : Ahead target rest)
    (hbrace : c ≠ '{') (hdash : c ≠ '-') : Ahead target (c :: rest) := by
  obtain ⟨depth, hmem⟩ := h
  refine ⟨depth, ?_⟩
  cases depth with
  | zero =>
    rw [leave_zero] at hmem ⊢
    rw [pieces] <;> simp_all
  | succ depth =>
    rw [leave_succ] at hmem ⊢
    rw [afterBlock] <;> simp_all

/-- A character at which no comment opens can be passed over. If it is the first one of a closing
delimiter, the second one is passed over as plain text. -/
theorem Ahead.tail {target rest : List Char} {c : Char} (h : Ahead target (c :: rest))
    (hne : target ≠ c :: rest) (hline : opensLine (c :: rest) = false)
    (hblock : opensBlock (c :: rest) = false) : Ahead target rest := by
  rcases h.cases with heq | hrest | ⟨next, rfl, rfl, _⟩ | ⟨next, rfl, rfl, hnext⟩ |
    ⟨next, rfl, rfl, _⟩
  · exact absurd heq hne
  · exact hrest
  · simp [opensBlock] at hblock
  · exact hnext.cons (by decide) (by decide)
  · simp [opensLine] at hline

/-- Going on from the text to `next` passes over no line break. So the lines that are still to be
read are the same. -/
structure KeepsBreaks (text next : List Char) : Prop where
  /-- What is still to be read is a part of the text. -/
  suffix : next <:+ text
  /-- Each line break of the text is still to be read. -/
  breaks : ∀ line, line.head? = some '\n' → line <:+ text → line <:+ next

/-- Staying at a text passes over no line break, as it passes over nothing. -/
theorem KeepsBreaks.refl (text : List Char) : KeepsBreaks text text :=
  ⟨List.suffix_rfl, fun _ _ hsuffix => hsuffix⟩

/-- A character other than a line break can be passed over. -/
theorem KeepsBreaks.cons {c : Char} {rest next : List Char} (hc : c ≠ '\n')
    (h : KeepsBreaks rest next) : KeepsBreaks (c :: rest) next := by
  refine ⟨h.suffix.trans (List.suffix_cons c rest), fun line hline hsuffix => ?_⟩
  rcases List.suffix_cons_iff.mp hsuffix with rfl | hrest
  · exact absurd (by simpa using hline) hc
  · exact h.breaks line hline hrest

/-- A text without line breaks can be passed over, as a line comment is. -/
theorem keepsBreaks_append {front : List Char} (hfront : '\n' ∉ front) (rest : List Char) :
    KeepsBreaks (front ++ rest) rest := by
  induction front with
  | nil => exact .refl rest
  | cons c front ih =>
    simp only [List.mem_cons, not_or] at hfront
    exact (ih hfront.2).cons (Ne.symm hfront.1)

/-- Going on behind a line comment passes over no line break: the comment ends in front of the next
one. -/
theorem keepsBreaks_afterLine (text : List Char) : KeepsBreaks text (afterLine text) := by
  induction text with
  | nil => exact .refl []
  | cons c rest ih =>
    by_cases hc : c = '\n'
    · simpa [afterLine, hc] using KeepsBreaks.refl ('\n' :: rest)
    · simpa [afterLine, hc] using ih.cons hc

/-- The scan never passes over a line break without looking at it: a delimiter of two characters
holds none, and a line comment ends in front of one. -/
theorem Ahead.step {target : List Char} {c : Char} {rest : List Char}
    (h : Ahead target (c :: rest)) (hne : target ≠ c :: rest) :
    ∃ next, Ahead target next ∧ KeepsBreaks rest next := by
  rcases h.cases with heq | hrest | ⟨next, rfl, rfl, hnext⟩ | ⟨next, rfl, rfl, hnext⟩ |
    ⟨next, rfl, rfl, hnext⟩
  · exact absurd heq hne
  · exact ⟨rest, hrest, .refl rest⟩
  · exact ⟨next, hnext, (KeepsBreaks.refl next).cons (by decide)⟩
  · exact ⟨next, hnext, (KeepsBreaks.refl next).cons (by decide)⟩
  · exact ⟨afterLine next, hnext, (keepsBreaks_afterLine next).cons (by decide)⟩

/-- What is ahead of the scan is ahead of it at every line break in between. -/
theorem Ahead.at_break {target line text : List Char} (h : Ahead target text)
    (hline : line.head? = some '\n') (htext : line <:+ text) (htarget : target <:+ line) :
    Ahead target line := by
  induction hlength : text.length using Nat.strongRecOn generalizing text with
  | _ length ih =>
    by_cases heq : line = text
    · rwa [heq]
    · cases text with
      | nil => exact absurd (List.suffix_nil.mp htext) heq
      | cons c rest =>
        have hrest : line <:+ rest := (List.suffix_cons_iff.mp htext).resolve_left heq
        have hne : target ≠ c :: rest := by
          rintro rfl
          have htargetLength := htarget.length_le
          have hrestLength := hrest.length_le
          simp only [List.length_cons] at htargetLength
          omega
        obtain ⟨next, hahead, hkeeps⟩ := h.step hne
        have hnext := hkeeps.suffix.length_le
        simp only [List.length_cons] at hlength
        exact ih next.length (by omega) hahead (hkeeps.breaks line hline hrest) rfl

end ElmReach.Comment
