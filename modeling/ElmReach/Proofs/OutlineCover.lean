import ElmReach.Proofs.OutlineStatements
import Mathlib.Tactic.Common

/-!
# The outline covers a text

The outline of a text leaves out blanks and nothing else. With a marker for each blank that is left
out, the declarations cover the text without gaps, as its tokens do. So they stand apart and in
order, and every other character lies in exactly one of them.
-/

namespace ElmReach

open Text Statement Token

/-- A statement takes no more than the whole text. -/
theorem Statement.length_span_le (text : List Char) : (span text).length ≤ text.length := by
  have hsplit := congrArg List.length (span_append_afterSpan text)
  rw [List.length_append] at hsplit
  omega

namespace Token

variable {start : Nat} {text : List Char} {tokens : List Token}

/-- The tokens that tile a text end within it. -/
theorem Tiles.stop_le (h : Tiles start text tokens) :
    ∀ token ∈ tokens, token.stop ≤ start + text.length := by
  induction h with
  | nil => simp
  | @cons start text rest token tokens hstart hstop hne htext hrest ih =>
    have hlength := congrArg List.length htext
    rw [List.length_append] at hlength
    refine List.forall_mem_cons.mpr ⟨by omega, ?_⟩
    intro other hother
    have hle := ih other hother
    omega

/-- Of two tokens that tile a text, the later one starts where the earlier one has ended, or behind
that. -/
theorem Tiles.pairwise_stop_le (h : Tiles start text tokens) :
    tokens.Pairwise fun token later => token.stop ≤ later.start := by
  induction h with
  | nil => exact .nil
  | cons hstart hstop hne htext hrest ih => exact List.pairwise_cons.mpr ⟨hrest.start_le, ih⟩

end Token

namespace Declaration

/-- A definition lies in the text behind its annotation. -/
theorem definitionLength_le (name rest : List Char) :
    definitionLength name rest ≤ rest.length := by
  cases rest with
  | nil => exact Nat.zero_le _
  | cons c body =>
    have hspan := length_span_le body
    rw [definitionLength, List.length_cons]
    split <;> omega

/-- An ordinary declaration is no longer than the text. -/
theorem ordinary_length_le (text : List Char) : (ordinary text).2 ≤ text.length := by
  have hspan := length_span_le text
  unfold ordinary
  dsimp only
  split
  · exact hspan
  · split
    · exact hspan
    · split
      · next name _ =>
        have hdefinition := definitionLength_le name (text.drop (span text).length)
        rw [List.length_drop] at hdefinition
        dsimp only
        omega
      · split <;> exact hspan

/-- A declaration is no longer than the text, whatever it is found to be. -/
theorem classify_length_le (text : List Char) : (classify text).2 ≤ text.length := by
  unfold classify
  split
  · next rest hspecial =>
    split
    · next hstarts =>
      obtain ⟨word, blanks, rfl, -, -, -⟩ := exists_blanks_of_specialModule? hspecial
      obtain ⟨-, c, others, rfl, -⟩ := startsWithKeyword_iff.mp hstarts
      have hspan := length_span_le ((moduleKeyword ++ c :: others).drop 6)
      have hsix : moduleKeyword.length = 6 := rfl
      simp only [List.length_append, List.length_drop, List.length_cons] at hspan ⊢
      omega
    · exact ordinary_length_le text
  · exact ordinary_length_le text

/-- An ordinary declaration is none of the tokens for blanks. -/
theorem ordinary_kind_ne_marker (text : List Char) : (ordinary text).1 ≠ .marker := by
  unfold ordinary
  dsimp only
  split
  · simp
  · split
    · simp
    · split
      · simp
      · split <;> simp

/-- A declaration is none of the tokens for blanks. -/
theorem classify_kind_ne_marker (text : List Char) : (classify text).1 ≠ .marker := by
  unfold classify
  split
  · split
    · simp
    · exact ordinary_kind_ne_marker text
  · exact ordinary_kind_ne_marker text

/-- One declaration is no marker, and it ends where its text ends. -/
theorem next_spec (before : Option Char) (start : Nat) (text : List Char) :
    (next before start text).kind ≠ .marker ∧ (next before start text).start = start ∧
      (next before start text).stop = start + (next before start text).text.length ∧
      (next before start text).text <+: text := by
  have hfound : ((recognise? before text).getD (classify text)).1 ≠ .marker ∧
      ((recognise? before text).getD (classify text)).2 ≤ text.length := by
    cases hrec : recognise? before text with
    | none => exact ⟨classify_kind_ne_marker text, classify_length_le text⟩
    | some found =>
      refine ⟨?_, recognise?_length_le hrec⟩
      rcases recognise?_kind hrec with ⟨form, hkind⟩ | ⟨statement, hkind⟩ | ⟨statement, hkind⟩ <;>
        simp [hkind]
  obtain ⟨hkind, hlength⟩ := hfound
  refine ⟨hkind, rfl, ?_, List.take_prefix _ _⟩
  simp only [next, covering, List.length_take]
  omega

/-- The token is a marker for a blank, or it is a declaration that does not start with a blank. -/
def MarksBlanks (token : Token) : Prop :=
  ∃ c rest, token.text = c :: rest ∧
    (token.kind = .marker ∧ isBlank c = true ∧ rest = [] ∨
      token.kind ≠ .marker ∧ isBlank c = false)

/-- With markers for the blanks that it leaves out, the outline covers the text. The induction goes
along the declarations and the blanks between them. -/
theorem exists_tiles_ofText (before : Option Char) (start : Nat) (text : List Char) :
    ∃ tiles, Tiles start text tiles ∧ (∀ token ∈ tiles, MarksBlanks token) ∧
      ofText before start text = tiles.filter (·.kind ≠ .marker) := by
  fun_induction ofText before start text with
  | case1 before start => exact ⟨[], .nil start, by simp, rfl⟩
  | case2 before start c rest hblank ih =>
    obtain ⟨tiles, htiles, hskips, heq⟩ := ih
    refine ⟨covering .marker start 1 [c] :: tiles, ?_, ?_, ?_⟩
    · exact .cons rfl rfl (List.cons_ne_nil c []) rfl htiles
    · exact List.forall_mem_cons.mpr ⟨⟨c, [], rfl, .inl ⟨rfl, hblank, rfl⟩⟩, hskips⟩
    · rw [heq, List.filter_cons_of_neg (by simp [covering])]
  | case3 before start c rest hblank token ih =>
    obtain ⟨tiles, htiles, hskips, heq⟩ := ih
    obtain ⟨hkind, hstart, hstop, others, htext⟩ := next_spec before start (c :: rest)
    have hpos := length_text_next_pos before start rest hblank
    obtain ⟨d, more, hcons⟩ := List.exists_cons_of_length_pos hpos
    have hd : d = c := by
      rw [hcons] at htext
      exact (List.cons.inj htext).1
    have hbehind : (c :: rest).drop token.text.length = others := by
      rw [← htext]
      exact List.drop_left
    rw [hbehind] at htiles
    refine ⟨token :: tiles, ?_, ?_, ?_⟩
    · exact .cons hstart hstop (List.ne_nil_of_length_pos hpos) htext htiles
    · refine List.forall_mem_cons.mpr ⟨⟨d, more, hcons, .inr ⟨hkind, ?_⟩⟩, hskips⟩
      rw [hd]
      simpa using hblank
    · rw [heq, List.filter_cons_of_pos (by simpa using hkind)]

/-- The tokens stand apart and in order, they have the text of the content, and all of the content
but blanks lies in them. -/
structure Outlines (content : List Char) (tokens : List Token) : Prop where
  start_lt_stop : ∀ token ∈ tokens, token.start < token.stop
  stop_le : ∀ token ∈ tokens, token.stop ≤ content.length
  apart : tokens.Pairwise fun token later => token.stop ≤ later.start
  value : ∀ token ∈ tokens,
    token.value = (content.drop token.start).take (token.stop - token.start)
  first : ∀ token ∈ tokens, ∃ c rest, token.value = c :: rest ∧ isBlank c = false
  outside : ∀ offset c, content[offset]? = some c →
    (∀ token ∈ tokens, ¬ token.Holds offset) → isBlank c = true
  unique : ∀ offset c, content[offset]? = some c → isBlank c = false →
    ∃! token, token ∈ tokens ∧ token.Holds offset

section Tiles

variable {content : List Char} {tiles : List Token}

/-- The character at the offset of a marker is the blank that it is for. -/
theorem isBlank_of_holds (htiles : Tiles 0 content tiles) {token : Token} (htoken : token ∈ tiles)
    (hskips : MarksBlanks token) (hmarker : token.kind = .marker) {offset : Nat}
    (hholds : token.Holds offset) {c : Char} (hc : content[offset]? = some c) :
    isBlank c = true := by
  obtain ⟨d, rest, htext, ⟨-, hblank, rfl⟩ | ⟨hkind, -⟩⟩ := hskips
  · have hslice := htiles.text_eq token htoken
    rw [htext, Nat.sub_zero] at hslice
    have hlength := congrArg List.length hslice
    simp only [List.length_cons, List.length_nil, List.length_take, List.length_drop] at hlength
    have hstop := htiles.stop_le token htoken
    have hoffset : offset = token.start := by
      have hle := hholds.1
      have hlt := hholds.2
      omega
    have hhead := congrArg List.head? hslice
    rw [List.head?_take, if_neg (by omega), List.head?_drop, ← hoffset, hc] at hhead
    rw [← Option.some.inj hhead]
    exact hblank
  · exact absurd hmarker hkind

/-- What a covering leaves beside its blanks is an outline: without its markers, the declarations
still stand in order and apart. -/
theorem outlines_filter (htiles : Tiles 0 content tiles)
    (hskips : ∀ token ∈ tiles, MarksBlanks token) :
    Outlines content (tiles.filter (·.kind ≠ .marker)) := by
  have hmem {token : Token} :
      token ∈ tiles.filter (·.kind ≠ .marker) ↔ token ∈ tiles ∧ token.kind ≠ .marker := by
    simp
  have hvalue {token : Token} (hkind : token.kind ≠ .marker) : token.value = token.text :=
    if_neg hkind
  have hfind {offset : Nat} {c : Char} (hc : content[offset]? = some c) :
      ∃ token ∈ tiles, token.Holds offset := by
    have hlt := (List.getElem?_eq_some_iff.mp hc).1
    exact htiles.exists_holds (Nat.zero_le offset) (by omega)
  refine ⟨?_, ?_, ?_, ?_, ?_, ?_, ?_⟩
  · intro token htoken
    exact htiles.start_lt_stop token (hmem.mp htoken).1
  · intro token htoken
    have hle := htiles.stop_le token (hmem.mp htoken).1
    omega
  · exact htiles.pairwise_stop_le.filter _
  · intro token htoken
    have htext := htiles.text_eq token (hmem.mp htoken).1
    rwa [Nat.sub_zero, ← hvalue (hmem.mp htoken).2] at htext
  · intro token htoken
    obtain ⟨hmember, hkind⟩ := hmem.mp htoken
    obtain ⟨c, rest, htext, ⟨hmarker, -⟩ | ⟨-, hblank⟩⟩ := hskips token hmember
    · exact absurd hmarker hkind
    · exact ⟨c, rest, (hvalue hkind).trans htext, hblank⟩
  · intro offset c hc houtside
    obtain ⟨token, htoken, hholds⟩ := hfind hc
    by_cases hmarker : token.kind = .marker
    · exact isBlank_of_holds htiles htoken (hskips token htoken) hmarker hholds hc
    · exact absurd hholds (houtside token (hmem.mpr ⟨htoken, hmarker⟩))
  · intro offset c hc hblank
    obtain ⟨token, htoken, hholds⟩ := hfind hc
    have hkind : token.kind ≠ .marker := by
      intro hmarker
      have htrue := isBlank_of_holds htiles htoken (hskips token htoken) hmarker hholds hc
      rw [hblank] at htrue
      cases htrue
    refine ⟨token, ⟨hmem.mpr ⟨htoken, hkind⟩, hholds⟩, ?_⟩
    rintro other ⟨hother, hholds'⟩
    exact htiles.eq_of_holds (hmem.mp hother).1 htoken hholds' hholds

end Tiles

/-- The outline of a content holds each of its characters but blanks exactly once. Its declarations
stand apart and in order, they have the text of the content between their offsets, and none of them
is empty or starts with a blank. -/
theorem all_outlines (content : List Char) : Outlines content (all content) := by
  obtain ⟨tiles, htiles, hskips, heq⟩ := exists_tiles_ofText none 0 content
  rw [all, heq]
  exact outlines_filter htiles hskips

end Declaration

end ElmReach
