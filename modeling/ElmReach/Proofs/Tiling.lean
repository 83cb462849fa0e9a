import ElmReach.Proofs.TokenRun
import ElmReach.Source.Summary
import Mathlib.Data.List.Chain
import Mathlib.Tactic.Common

/-!
# Tokens cover a text

A text is read without loss: its tokens stand one behind the other, from the first character to the
last one. Each of them is the token at its own offset. So every offset lies in exactly one token,
and the line breaks and blanks that are collected are those outside of comments and statements.
-/

namespace ElmReach

open Statement

namespace Token

/-- The token covers the character at the offset, from its start up to its stop. -/
def Holds (token : Token) (offset : Nat) : Prop :=
  token.start ≤ offset ∧ offset < token.stop

/-- The tokens cover the text, which stands at offset `start`, one behind the other. -/
inductive Tiles : Nat → List Char → List Token → Prop where
  | nil (start : Nat) : Tiles start [] []
  | cons {start : Nat} {text rest : List Char} {token : Token} {tokens : List Token}
    (hstart : token.start = start) (hstop : token.stop = start + token.text.length)
    (hne : token.text ≠ []) (htext : token.text ++ rest = text)
    (hrest : Tiles token.stop rest tokens) : Tiles start text (token :: tokens)

/-- A token starts where it is asked for. -/
theorem start_next (before : Option Char) (start : Nat) (text : List Char) :
    (next before start text).start = start := by
  unfold next
  split <;> rfl

/-- The tokens of a text tile it. This is the induction on which all statements about the tokens of
a content rest: the first token covers what stands in front of the text behind it. -/
theorem tiles_ofText (before : Option Char) (start : Nat) (text : List Char) :
    Tiles start text (ofText before start text) := by
  induction before, start, text using run_induction with
  | nil before start =>
    rw [ofText]
    exact .nil start
  | cons before start c rest hrest =>
    rw [ofText_cons]
    exact .cons (start_next before start _) (stop_next before start c rest)
      (List.ne_nil_of_length_pos (length_text_next_pos before start c rest))
      (text_append_behind before start _) hrest

section Tiles

variable {start : Nat} {text : List Char} {tokens : List Token}

/-- There are no tokens exactly if there is no text. -/
theorem Tiles.eq_nil_iff (h : Tiles start text tokens) : tokens = [] ↔ text = [] := by
  cases h with
  | nil => simp
  | @cons _ _ rest token tokens hstart hstop hne htext hrest =>
    have hcovered : token.text ++ rest ≠ [] := List.append_ne_nil_of_left_ne_nil hne rest
    rw [htext] at hcovered
    simp [hcovered]

/-- The first token starts where the text does. -/
theorem Tiles.start_head? (h : Tiles start text tokens) :
    ∀ token ∈ tokens.head?, token.start = start := by
  cases h with
  | nil => simp
  | cons hstart hstop hne htext hrest => simpa using hstart

/-- Each token starts where the one in front of it stops. -/
theorem Tiles.isChain (h : Tiles start text tokens) :
    tokens.IsChain fun token next => next.start = token.stop := by
  induction h with
  | nil => exact .nil
  | cons hstart hstop hne htext hrest ih =>
    exact List.isChain_cons.mpr ⟨hrest.start_head?, ih⟩

/-- The last token stops where the text does. -/
theorem Tiles.stop_getLast? (h : Tiles start text tokens) :
    ∀ token ∈ tokens.getLast?, token.stop = start + text.length := by
  induction h with
  | nil => simp
  | @cons start text rest token tokens hstart hstop hne htext hrest ih =>
    have hlength := congrArg List.length htext
    rw [List.length_append] at hlength
    intro last hlast
    cases tokens with
    | nil =>
      obtain rfl : token = last := by simpa using hlast
      have hempty : rest = [] := hrest.eq_nil_iff.mp rfl
      rw [hempty, List.length_nil] at hlength
      omega
    | cons second tokens =>
      rw [List.getLast?_cons_cons] at hlast
      have hstopLast := ih last hlast
      omega

/-- No token starts in front of the text. -/
theorem Tiles.start_le (h : Tiles start text tokens) : ∀ token ∈ tokens, start ≤ token.start := by
  induction h with
  | nil => simp
  | cons hstart hstop hne htext hrest ih =>
    refine List.forall_mem_cons.mpr ⟨by omega, fun other hother => ?_⟩
    have hle := ih other hother
    omega

/-- No token is empty. -/
theorem Tiles.start_lt_stop (h : Tiles start text tokens) :
    ∀ token ∈ tokens, token.start < token.stop := by
  induction h with
  | nil => simp
  | cons hstart hstop hne htext hrest ih =>
    have hpos := List.length_pos_iff.mpr hne
    exact List.forall_mem_cons.mpr ⟨by omega, ih⟩

/-- The tokens start at increasing offsets. -/
theorem Tiles.pairwise (h : Tiles start text tokens) :
    tokens.Pairwise fun token other => token.start < other.start := by
  induction h with
  | nil => exact .nil
  | cons hstart hstop hne htext hrest ih =>
    have hpos := List.length_pos_iff.mpr hne
    refine List.pairwise_cons.mpr ⟨fun other hother => ?_, ih⟩
    have hle := hrest.start_le other hother
    omega

/-- A token has the text between its offsets, counted from where the tokens start. -/
theorem Tiles.text_eq (h : Tiles start text tokens) :
    ∀ token ∈ tokens,
      token.text = (text.drop (token.start - start)).take (token.stop - token.start) := by
  induction h with
  | nil => simp
  | @cons start text rest token tokens hstart hstop hne htext hrest ih =>
    refine List.forall_mem_cons.mpr ⟨?_, fun other hother => ?_⟩
    · have hlength : token.stop - token.start = token.text.length := by omega
      rw [hstart, Nat.sub_self, List.drop_zero, ← hstart, hlength, ← htext, List.take_left]
    · have hle := hrest.start_le other hother
      have hoffset : other.start - start = token.text.length + (other.start - token.stop) := by
        omega
      rw [ih other hother, hoffset, ← htext, ← List.drop_drop, List.drop_left]

/-- Each character of the text is covered by one of the tokens that tile it. -/
theorem Tiles.exists_holds (h : Tiles start text tokens) {offset : Nat} (hle : start ≤ offset)
    (hlt : offset < start + text.length) : ∃ token ∈ tokens, token.Holds offset := by
  induction h with
  | nil => simp only [List.length_nil] at hlt; omega
  | @cons start text rest token tokens hstart hstop hne htext hrest ih =>
    have hlength := congrArg List.length htext
    rw [List.length_append] at hlength
    by_cases hfirst : offset < token.stop
    · exact ⟨token, List.mem_cons_self, by omega, hfirst⟩
    · obtain ⟨other, hother, hholds⟩ := ih (by omega) (by omega)
      exact ⟨other, List.mem_cons_of_mem token hother, hholds⟩

/-- No character is covered twice: two tokens that cover the same offset are the same token. -/
theorem Tiles.eq_of_holds (h : Tiles start text tokens) {token other : Token}
    (htoken : token ∈ tokens) (hother : other ∈ tokens) {offset : Nat} (hholds : token.Holds offset)
    (hholds' : other.Holds offset) : token = other := by
  induction h with
  | nil => simp at htoken
  | @cons start text rest first tokens hstart hstop hne htext hrest ih =>
    have hfirst {later : Token} (hlater : later ∈ tokens) (hheld : first.Holds offset)
        (hlaterHeld : later.Holds offset) : False := by
      have hle := hrest.start_le later hlater
      have hbelow := hheld.2
      have habove := hlaterHeld.1
      omega
    rcases List.mem_cons.mp htoken with heq | hlater <;>
      rcases List.mem_cons.mp hother with heq' | hlater'
    · rw [heq, heq']
    · exact (hfirst hlater' (heq ▸ hholds) hholds').elim
    · exact (hfirst hlater (heq' ▸ hholds') hholds).elim
    · exact ih hlater hlater'

end Tiles

/-- The tokens of a content tile it, from its front on. -/
theorem tiles_all (content : List Char) : Tiles 0 content (all content) :=
  tiles_ofText none 0 content

/-- The character in front of the text behind a front is the last one of the front. -/
theorem charBefore_append (front text : List Char) :
    charBefore (front ++ text) front.length = front.getLast? := by
  unfold charBefore
  split
  · next hempty => rw [List.length_eq_zero_iff.mp hempty, List.getLast?_nil]
  · rw [List.getElem?_append_left (by omega), List.getLast?_eq_getElem?]

/-- Looking for a token behind a front is looking for it at the start of the rest, with the last
character of the front in front of it. -/
theorem atOffset_append (front text : List Char) :
    atOffset (front ++ text) front.length = next front.getLast? front.length text := by
  rw [atOffset, charBefore_append, List.drop_left]

/-- The run over a text takes the token at the offset that it has come to. -/
theorem eq_atOffset_of_mem_ofText {front text : List Char} {token : Token}
    (h : token ∈ ofText front.getLast? front.length text) :
    token = atOffset (front ++ text) token.start ∧ token.start < (front ++ text).length := by
  induction hbefore : front.getLast?, hstart : front.length, text using run_induction
    generalizing front with
  | nil before start =>
    rw [ofText] at h
    cases h
  | cons before start c rest ih =>
    rw [hbefore, hstart, ofText_cons] at h
    rcases List.mem_cons.mp h with rfl | hrest
    · rw [start_next, ← hstart, atOffset_append, hbefore]
      exact ⟨rfl, by simp⟩
    · have hpos := length_text_next_pos before start c rest
      have hsplit := text_append_behind before start (c :: rest)
      have hstop := stop_next before start c rest
      generalize next before start (c :: rest) = first at ih hrest hpos hsplit hstop
      have hlast : (front ++ first.text).getLast? = first.text.getLast? :=
        List.getLast?_append_of_ne_nil front (List.ne_nil_of_length_pos hpos)
      have hlength : (front ++ first.text).length = first.stop := by
        rw [List.length_append, hstart, hstop]
      have htail := ih (by rwa [hlast, hlength]) hlast hlength
      rwa [List.append_assoc, hsplit] at htail

/-- Each token of a content is the one at its own offset, so that reading can start anywhere and
finds the same tokens. -/
theorem eq_atOffset_of_mem_all {content : List Char} {token : Token} (h : token ∈ all content) :
    token = atOffset content token.start ∧ token.start < content.length :=
  @eq_atOffset_of_mem_ofText [] content token h

/-- What is recognised is a comment or a statement, and no marker. A marker is what is left where
nothing is recognised. -/
theorem recognise?_kind {before : Option Char} {text : List Char} {kind : TokenKind} {length : Nat}
    (h : recognise? before text = some (kind, length)) :
    (∃ form, kind = .comment form) ∨ (∃ statement, kind = .moduleStatement statement) ∨
      ∃ statement, kind = .importStatement statement := by
  unfold recognise? at h
  split at h
  · exact .inl ⟨_, (Prod.mk.inj (Option.some.inj h)).1.symm⟩
  · split at h
    · exact .inl ⟨_, (Prod.mk.inj (Option.some.inj h)).1.symm⟩
    · split at h
      · exact .inr (.inl ⟨_, (Prod.mk.inj (Option.some.inj h)).1.symm⟩)
      · split at h
        · exact .inr (.inr ⟨_, (Prod.mk.inj (Option.some.inj h)).1.symm⟩)
        · cases h

/-- The token is neither a comment nor a statement. Line breaks and blanks are collected from such
tokens only. -/
def Neutral (token : Token) : Prop :=
  token.comment? = none ∧ token.moduleStatement? = none ∧ token.importStatement? = none

/-- A token is a marker of a single offset, or it is a comment or a statement. -/
theorem next_cases (before : Option Char) (start : Nat) (text : List Char) :
    ((next before start text).kind = .marker ∧ (next before start text).Neutral ∧
        (next before start text).stop = start + 1) ∨
      ((next before start text).kind ≠ .marker ∧ ¬ (next before start text).Neutral ∧
        start < (next before start text).stop) := by
  cases hrec : recognise? before text with
  | none =>
    left
    simp [next, hrec, covering, Neutral, comment?, moduleStatement?, importStatement?]
  | some found =>
    obtain ⟨kind, length⟩ := found
    right
    have hpos := recognise?_length_pos hrec
    rcases recognise?_kind hrec with ⟨form, rfl⟩ | ⟨statement, rfl⟩ | ⟨statement, rfl⟩ <;>
      simpa [next, hrec, covering, Neutral, comment?, moduleStatement?, importStatement?] using hpos

/-- A token stops behind the offset it is asked for, also where the content has ended. So a lexer
always gets on. -/
theorem start_lt_stop_atOffset (content : List Char) (offset : Nat) :
    offset < (atOffset content offset).stop := by
  rcases next_cases (charBefore content offset) offset (content.drop offset) with
    ⟨-, -, hstop⟩ | ⟨-, -, hlt⟩
  · rw [atOffset, hstop]
    exact Nat.lt_succ_self offset
  · exact hlt

/-- A token of a content is a marker of a single offset, or it is a comment or a statement. -/
theorem cases_of_mem_all {content : List Char} {token : Token} (h : token ∈ all content) :
    (token.kind = .marker ∧ token.Neutral ∧ token.stop = token.start + 1) ∨
      (token.kind ≠ .marker ∧ ¬ token.Neutral) := by
  obtain ⟨heq, -⟩ := eq_atOffset_of_mem_all h
  have hcases := next_cases (charBefore content token.start) token.start
    (content.drop token.start)
  rw [← atOffset, ← heq] at hcases
  rcases hcases with hmarker | ⟨hkind, hneutral, -⟩
  · exact .inl hmarker
  · exact .inr ⟨hkind, hneutral⟩

/-- The tokens cover the content without gaps or overlaps, and they have its text. -/
structure Lossless (content : List Char) (tokens : List Token) : Prop where
  eq_nil_iff : tokens = [] ↔ content = []
  first : ∀ token ∈ tokens.head?, token.start = 0
  last : ∀ token ∈ tokens.getLast?, token.stop = content.length
  adjacent : tokens.IsChain fun token next => next.start = token.stop
  start_lt_stop : ∀ token ∈ tokens, token.start < token.stop
  value : ∀ token ∈ tokens, token.kind ≠ .marker →
    token.value = (content.drop token.start).take (token.stop - token.start)
  marker : ∀ token ∈ tokens, token.kind = .marker →
    token.stop = token.start + 1 ∧ token.value = []

/-- The tokens of a content cover it, and their values are its text. The value of a marker is empty,
and its length is one. -/
theorem lossless_all (content : List Char) : Lossless content (all content) where
  eq_nil_iff := (tiles_all content).eq_nil_iff
  first := (tiles_all content).start_head?
  last := by simpa using (tiles_all content).stop_getLast?
  adjacent := (tiles_all content).isChain
  start_lt_stop := (tiles_all content).start_lt_stop
  value := by
    intro token htoken hkind
    have htext := (tiles_all content).text_eq token htoken
    rwa [Nat.sub_zero, ← show token.value = token.text from if_neg hkind] at htext
  marker := by
    intro token htoken hkind
    rcases cases_of_mem_all htoken with ⟨-, -, hstop⟩ | ⟨hne, -⟩
    · exact ⟨hstop, if_pos hkind⟩
    · exact absurd hkind hne

/-- The text of a marker is the character at its offset. -/
theorem text_eq_singleton {content : List Char} {token : Token} (htoken : token ∈ all content)
    (hkind : token.kind = .marker) : ∃ c, content[token.start]? = some c ∧ token.text = [c] := by
  obtain ⟨hstop, -⟩ := (lossless_all content).marker token htoken hkind
  obtain ⟨-, hlt⟩ := eq_atOffset_of_mem_all htoken
  have hlength : token.stop - token.start = 1 := by omega
  refine ⟨content[token.start], List.getElem?_eq_getElem hlt, ?_⟩
  rw [(tiles_all content).text_eq token htoken, Nat.sub_zero, hlength,
    List.drop_eq_getElem_cons hlt, List.take_succ_cons, List.take_zero]

/-- The offsets are, in order, those of the characters which satisfy `test` and lie in no comment
and in no statement of the content. -/
structure ListsOutside (content : List Char) (test : Char → Bool) (offsets : List Nat) : Prop where
  increasing : offsets.Pairwise (· < ·)
  mem_iff : ∀ offset, offset ∈ offsets ↔
    (∃ c, content[offset]? = some c ∧ test c = true) ∧
      ∀ token ∈ all content, token.Holds offset → token.Neutral

/-- The markers of a kind list the characters that they stand for, if these are outside of comments
and statements. -/
theorem listsOutside_marks (content : List Char) (test : Char → Bool) :
    ListsOutside content test (((all content).filter (marks test)).map start) where
  increasing := by
    have hsorted := (tiles_all content).pairwise.filter (marks test)
    exact List.pairwise_map.mpr hsorted
  mem_iff := by
    intro offset
    simp only [List.mem_map, List.mem_filter, marks, Bool.and_eq_true, decide_eq_true_eq]
    constructor
    · rintro ⟨token, ⟨htoken, hkind, htest⟩, rfl⟩
      obtain ⟨c, hc, htext⟩ := text_eq_singleton htoken hkind
      have hlt := (lossless_all content).start_lt_stop token htoken
      refine ⟨⟨c, hc, by simpa [htext] using htest⟩, fun other hother hholds => ?_⟩
      obtain rfl := (tiles_all content).eq_of_holds htoken hother ⟨Nat.le_refl _, hlt⟩ hholds
      rcases cases_of_mem_all htoken with ⟨-, hneutral, -⟩ | ⟨hne, -⟩
      · exact hneutral
      · exact absurd hkind hne
    · rintro ⟨⟨c, hc, htest⟩, houtside⟩
      have hlt : offset < content.length := (List.getElem?_eq_some_iff.mp hc).1
      obtain ⟨token, htoken, hholds⟩ :=
        (tiles_all content).exists_holds (Nat.zero_le offset) (by omega)
      rcases cases_of_mem_all htoken with ⟨hkind, -, hstop⟩ | ⟨-, hneutral⟩
      · obtain ⟨d, hd, htext⟩ := text_eq_singleton htoken hkind
        have hstart : token.start = offset := by
          have hle := hholds.1
          have hbelow := hholds.2
          omega
        obtain rfl : d = c := by
          rw [hstart, hc] at hd
          exact (Option.some.inj hd).symm
        exact ⟨token, ⟨htoken, hkind, by simpa [htext] using htest⟩, hstart⟩
      · exact absurd (houtside token htoken hholds) hneutral

/-- Reading is lossless. The tokens cover the content, each of them is the one at its own offset,
the line breaks and blanks outside of comments and statements are collected, and from any offset
reading moves on. -/
theorem all_lossless_and_progress (content : List Char) :
    Lossless content (all content) ∧
      (∀ token ∈ all content, token = atOffset content token.start) ∧
      ListsOutside content (· == '\n') (Summary.ofContent content).newlines ∧
      ListsOutside content (fun c => c == ' ' || c == '\t') (Summary.ofContent content).spaces ∧
      ∀ offset, offset < (atOffset content offset).stop := by
  refine ⟨lossless_all content, fun token htoken => (eq_atOffset_of_mem_all htoken).1, ?_, ?_, ?_⟩
  · exact listsOutside_marks content _
  · exact listsOutside_marks content _
  · exact start_lt_stop_atOffset content

end Token

end ElmReach
