import ElmReach.Proofs.CommentScan
import ElmReach.Source.Token
import Mathlib.Tactic.Common

/-!
# What follows a token

A statement ends in front of a line break that a letter follows, or at the end of the text. The
text behind a token is what follows its comment, what follows its statement, or all but one
character. The run over a text takes the token at every offset at which such a rest starts.
-/

namespace ElmReach

namespace Statement

open Text

/-- The text behind a statement: nothing, or what starts with the line break that ends it. -/
def afterSpan (text : List Char) : List Char :=
  text.drop (span text).length

/-- Behind a statement without a text there is nothing. -/
@[simp] theorem afterSpan_nil : afterSpan [] = [] := rfl

/-- A statement ends in front of a line break with a letter behind it. In front of any other
character, it goes on. -/
theorem afterSpan_cons (c : Char) (rest : List Char) :
    afterSpan (c :: rest) =
      if c = '\n' ∧ startsWithLetter rest = true then c :: rest else afterSpan rest := by
  by_cases hend : c = '\n' ∧ startsWithLetter rest = true
  · simp [afterSpan, span, hend]
  · simp [afterSpan, span, if_neg hend]

/-- What a statement takes of a text, and what is behind it, make up the text. -/
theorem span_append_afterSpan (text : List Char) : span text ++ afterSpan text = text := by
  induction text with
  | nil => rfl
  | cons c rest ih =>
    by_cases hend : c = '\n' ∧ startsWithLetter rest = true
    · rw [afterSpan_cons, span, if_pos hend, if_pos hend]
      rfl
    · rw [afterSpan_cons, span, if_neg hend, if_neg hend, List.cons_append, ih]

/-- A statement ends in front of a line break, or at the end of the text. -/
theorem head?_afterSpan (text : List Char) : ∀ c ∈ (afterSpan text).head?, c = '\n' := by
  induction text with
  | nil => simp
  | cons c rest ih =>
    rw [afterSpan_cons]
    split
    · next hend => simpa using hend.1
    · exact ih

/-- A statement does not reach over a line break that a letter follows. -/
theorem suffix_afterSpan {target text : List Char} (htarget : startsWithLetter target = true)
    (h : '\n' :: target <:+ text) : '\n' :: target <:+ afterSpan text := by
  induction text with
  | nil => exact h
  | cons c rest ih =>
    rw [afterSpan_cons]
    split
    · exact h
    · next hend =>
      rcases List.suffix_cons_iff.mp h with heq | hrest
      · obtain ⟨rfl, rfl⟩ := List.cons.inj heq
        exact absurd ⟨rfl, htarget⟩ hend
      · exact ih hrest

/-- A keyword counts if no word character stands in front of it and one of the characters that may
follow a keyword stands behind it. -/
theorem startsWithKeyword_iff {keyword text : List Char} {before : Option Char} :
    startsWithKeyword keyword before text = true ↔
      before.any isWordChar = false ∧
        ∃ c rest, text = keyword ++ c :: rest ∧ endsKeyword c = true := by
  simp only [startsWithKeyword, Bool.and_eq_true, Bool.not_eq_true', List.isPrefixOf_iff_prefix]
  constructor
  · rintro ⟨⟨⟨rest, rfl⟩, hbefore⟩, hafter⟩
    rw [List.drop_left] at hafter
    cases rest with
    | nil => simp at hafter
    | cons c rest => exact ⟨hbefore, c, rest, rfl, by simpa using hafter⟩
  · rintro ⟨hbefore, c, rest, rfl, hc⟩
    exact ⟨⟨List.prefix_append _ _, hbefore⟩, by simpa using hc⟩

end Statement

namespace Token

open Statement

/-- The text behind a token. It does not depend on where the token starts. -/
def behind (before : Option Char) (text : List Char) : List Char :=
  text.drop (next before 0 text).text.length

/-- Where a token starts does not change what it covers. -/
theorem text_next (before : Option Char) (start : Nat) (text : List Char) :
    (next before start text).text = (next before 0 text).text := by
  unfold next
  split <;> rfl

private theorem drop_length_take (length : Nat) (text : List Char) :
    text.drop (text.take length).length = text.drop length := by
  rw [List.length_take]
  rcases Nat.le_total length text.length with hle | hle
  · rw [Nat.min_eq_left hle]
  · rw [Nat.min_eq_right hle, List.drop_length, List.drop_eq_nil_of_le hle]

/-- Behind a token that is recognised is the text without the token's length. -/
theorem behind_of_recognise?_some {before : Option Char} {text : List Char} {kind : TokenKind}
    {length : Nat} (h : recognise? before text = some (kind, length)) :
    behind before text = text.drop length := by
  simp only [behind, next, h, covering, drop_length_take]

/-- Where no token is recognised, one character is taken. -/
theorem behind_of_recognise?_none {before : Option Char} {text : List Char}
    (h : recognise? before text = none) : behind before text = text.drop 1 := by
  simp only [behind, next, h, covering, drop_length_take]

/-- A token's text, and what is behind it, make up the text. -/
theorem text_append_behind (before : Option Char) (start : Nat) (text : List Char) :
    (next before start text).text ++ behind before text = text := by
  cases hrec : recognise? before text with
  | none => rw [behind_of_recognise?_none hrec]; simp [next, hrec, covering, -List.drop_one]
  | some found => simp [behind_of_recognise?_some hrec, next, hrec, covering]

/-- The tokens of a text are the first one and those of the text behind it. -/
theorem ofText_cons (before : Option Char) (start : Nat) (c : Char) (rest : List Char) :
    ofText before start (c :: rest) =
      next before start (c :: rest) ::
        ofText (next before start (c :: rest)).text.getLast? (next before start (c :: rest)).stop
          (behind before (c :: rest)) := by
  rw [ofText, behind, text_next]

/-- Behind a line comment is what stripping comments goes on with. -/
theorem behind_of_opensLine {text : List Char} (h : Comment.opensLine text = true)
    (before : Option Char) : behind before text = Comment.afterLine text := by
  have hrec : recognise? before text =
      some (.comment .line, (text.takeWhile (· != '\n')).length) := by
    rw [recognise?, if_pos h]
  have hsplit := List.takeWhile_append_dropWhile (p := (· != '\n')) (l := text)
  calc
    behind before text = text.drop (text.takeWhile (· != '\n')).length :=
      behind_of_recognise?_some hrec
    _ = (text.takeWhile (· != '\n') ++ text.dropWhile (· != '\n')).drop
        (text.takeWhile (· != '\n')).length := by rw [hsplit]
    _ = Comment.afterLine text := List.drop_left

/-- Behind a block comment is what stripping comments goes on with. -/
theorem behind_of_opensBlock {text : List Char} (h : Comment.opensBlock text = true)
    (before : Option Char) : behind before text = Comment.afterBlock 0 text := by
  have hline : ¬ Comment.opensLine text = true := by
    obtain ⟨rest, rfl⟩ := Comment.opensBlock_iff.mp h
    simp [Comment.opensLine]
  have hrec : recognise? before text =
      some (.comment .block, text.length - (Comment.afterBlock 0 text).length) := by
    rw [recognise?, if_neg hline, if_pos h]
  rw [behind_of_recognise?_some hrec]
  exact (List.suffix_iff_eq_drop.mp (Comment.afterBlock_suffix 0 text)).symm

/-- The keyword of a module statement is recognised together with what the statement takes of the
text behind it. Both keywords have six characters. -/
theorem recognise?_of_moduleKeyword {text : List Char} {before : Option Char}
    (h : startsWithKeyword moduleKeyword before text = true) :
    recognise? before text =
      some (.moduleStatement (.ofSpan (span (text.drop 6))), 6 + (span (text.drop 6)).length) := by
  obtain ⟨-, c, rest, htext, -⟩ := startsWithKeyword_iff.mp h
  have hline : Comment.opensLine text = false := by rw [htext]; rfl
  have hblock : Comment.opensBlock text = false := by rw [htext]; rfl
  simp [recognise?, hline, hblock, h]

/-- The keyword of an import statement is recognised together with what the statement takes of the
text behind it. -/
theorem recognise?_of_importKeyword {text : List Char} {before : Option Char}
    (h : startsWithKeyword importKeyword before text = true) :
    recognise? before text =
      some (.importStatement (.ofSpan (span (text.drop 6))), 6 + (span (text.drop 6)).length) := by
  obtain ⟨-, c, rest, htext, -⟩ := startsWithKeyword_iff.mp h
  have hline : Comment.opensLine text = false := by rw [htext]; rfl
  have hblock : Comment.opensBlock text = false := by rw [htext]; rfl
  have hmodule : startsWithKeyword moduleKeyword before text = false := by rw [htext]; rfl
  simp [recognise?, hline, hblock, hmodule, h]

/-- Behind a keyword is what is behind the statement that it starts. -/
theorem behind_of_startsWithKeyword {text : List Char} {before : Option Char}
    (h : startsWithKeyword moduleKeyword before text = true ∨
      startsWithKeyword importKeyword before text = true) :
    behind before text = afterSpan (text.drop 6) := by
  rcases h with hmodule | himport
  · rw [behind_of_recognise?_some (recognise?_of_moduleKeyword hmodule), afterSpan, List.drop_drop]
  · rw [behind_of_recognise?_some (recognise?_of_importKeyword himport), afterSpan, List.drop_drop]

/-- What is recognised lies in the text. It is no longer than what is left of it. -/
theorem recognise?_length_le {before : Option Char} {text : List Char} {kind : TokenKind}
    {length : Nat} (h : recognise? before text = some (kind, length)) : length ≤ text.length := by
  have hbody {keyword : List Char} (hkeyword : startsWithKeyword keyword before text = true)
      (hsix : keyword.length = 6) : 6 + (span (text.drop 6)).length ≤ text.length := by
    obtain ⟨-, c, rest, rfl, -⟩ := startsWithKeyword_iff.mp hkeyword
    have hspan := congrArg List.length
      (span_append_afterSpan ((keyword ++ c :: rest).drop 6))
    simp only [List.length_append, List.length_drop, List.length_cons] at hspan ⊢
    omega
  unfold recognise? at h
  split at h
  · obtain ⟨-, rfl⟩ := Prod.mk.inj (Option.some.inj h)
    exact (List.takeWhile_prefix _).length_le
  · split at h
    · obtain ⟨-, rfl⟩ := Prod.mk.inj (Option.some.inj h)
      exact Nat.sub_le _ _
    · split at h
      · next hmodule =>
        obtain ⟨-, rfl⟩ := Prod.mk.inj (Option.some.inj h)
        exact hbody hmodule rfl
      · split at h
        · next himport =>
          obtain ⟨-, rfl⟩ := Prod.mk.inj (Option.some.inj h)
          exact hbody himport rfl
        · cases h

/-- A token ends where its text ends: its stop is its start and the length of its text. -/
theorem stop_next (before : Option Char) (start : Nat) (c : Char) (rest : List Char) :
    (next before start (c :: rest)).stop =
      start + (next before start (c :: rest)).text.length := by
  cases hrec : recognise? before (c :: rest) with
  | none => simp [next, hrec, covering]
  | some found =>
    have hlength := recognise?_length_le hrec
    simp only [next, hrec, covering, List.length_take]
    omega

/-- Where neither a comment nor a statement starts, a token covers one character. -/
theorem behind_of_not {text : List Char} {before : Option Char}
    (hline : Comment.opensLine text = false) (hblock : Comment.opensBlock text = false)
    (hmodule : startsWithKeyword moduleKeyword before text = false)
    (himport : startsWithKeyword importKeyword before text = false) :
    behind before text = text.drop 1 := by
  apply behind_of_recognise?_none
  simp [recognise?, hline, hblock, hmodule, himport]

end Token

/-- Whether a token of this kind is a module or import statement. -/
def TokenKind.isStatement : TokenKind → Bool
  | .moduleStatement _ => true
  | .importStatement _ => true
  | _ => false

namespace Statement

/-- The keywords of the two statements, which are equally long. -/
def keywords : List (List Char) := [moduleKeyword, importKeyword]

/-- The statement with this keyword and with this text behind it. There are two keywords, so any
other than that of a module is that of an import. -/
def kindOf (keyword body : List Char) : TokenKind :=
  if keyword = moduleKeyword then .moduleStatement (.ofSpan body)
  else .importStatement (.ofSpan body)

/-- Both keywords have six characters, so that a statement's body always starts there. -/
theorem length_of_mem_keywords {keyword : List Char} (h : keyword ∈ keywords) :
    keyword.length = 6 := by
  revert keyword
  decide

/-- A token with one of the keywords is a statement. -/
theorem isStatement_kindOf (keyword body : List Char) :
    (kindOf keyword body).isStatement = true := by
  unfold kindOf
  split <;> rfl

end Statement

namespace Token

open Statement Text

/-- What is left behind a token is shorter than the text. -/
theorem length_behind_lt (before : Option Char) (c : Char) (rest : List Char) :
    (behind before (c :: rest)).length < (c :: rest).length := by
  have hpos := length_text_next_pos before 0 c rest
  have hsplit := congrArg List.length (text_append_behind before 0 (c :: rest))
  rw [List.length_append] at hsplit
  omega

/-- Induction along the run over a text: what holds behind a token has to hold with the token in
front. -/
@[elab_as_elim]
theorem run_induction {motive : Option Char → Nat → List Char → Prop}
    (nil : ∀ before start, motive before start [])
    (cons : ∀ before start c rest,
      motive (next before start (c :: rest)).text.getLast? (next before start (c :: rest)).stop
        (behind before (c :: rest)) →
      motive before start (c :: rest))
    (before : Option Char) (start : Nat) (text : List Char) : motive before start text := by
  induction hlength : text.length using Nat.strongRecOn generalizing before start text with
  | _ length ih =>
    cases text with
    | nil => exact nil before start
    | cons c rest =>
      have hshorter := length_behind_lt before c rest
      exact cons before start c rest (ih _ (by omega) _ _ _ rfl)

/-- A text that is not empty has a first token, and the tokens of the text behind it. -/
theorem ofText_of_ne_nil {text : List Char} (h : text ≠ []) (before : Option Char) (start : Nat) :
    ofText before start text =
      next before start text ::
        ofText (next before start text).text.getLast? (next before start text).stop
          (behind before text) := by
  obtain ⟨c, rest, rfl⟩ := List.exists_cons_of_ne_nil h
  exact ofText_cons before start c rest

/-- A keyword and the text behind it, up to where the statement ends, are recognised. -/
theorem recognise?_keyword_append {keyword rest : List Char} {before : Option Char}
    (hkeyword : keyword ∈ keywords) (hbefore : before.any isWordChar = false)
    (hrest : rest.head?.any endsKeyword = true) :
    recognise? before (keyword ++ rest) =
      some (kindOf keyword (span rest), (keyword ++ span rest).length) := by
  obtain ⟨c, others, rfl⟩ : ∃ c others, rest = c :: others := by
    apply List.exists_cons_of_ne_nil
    rintro rfl
    cases hrest
  have hc : endsKeyword c = true := hrest
  have hstarts : startsWithKeyword keyword before (keyword ++ c :: others) = true :=
    startsWithKeyword_iff.mpr ⟨hbefore, c, others, rfl, hc⟩
  rw [List.length_append, length_of_mem_keywords hkeyword]
  simp only [keywords, List.mem_cons, List.not_mem_nil, or_false] at hkeyword
  rcases hkeyword with rfl | rfl
  · exact recognise?_of_moduleKeyword hstarts
  · exact recognise?_of_importKeyword hstarts

/-- Behind a keyword that starts a word, and is ended as one, is what is behind the statement. -/
theorem behind_keyword_append {keyword rest : List Char} {before : Option Char}
    (hkeyword : keyword ∈ keywords) (hbefore : before.any isWordChar = false)
    (hrest : rest.head?.any endsKeyword = true) :
    behind before (keyword ++ rest) = afterSpan rest := by
  rw [behind_of_recognise?_some (recognise?_keyword_append hkeyword hbefore hrest),
    List.length_append, ← List.drop_drop, List.drop_left, afterSpan]

/-- A keyword that starts a word, and is ended as one, makes the statement of its kind. -/
theorem kind_next_keyword_append {keyword rest : List Char} {before : Option Char}
    (hkeyword : keyword ∈ keywords) (hbefore : before.any isWordChar = false)
    (hrest : rest.head?.any endsKeyword = true) (start : Nat) :
    (next before start (keyword ++ rest)).kind = kindOf keyword (span rest) := by
  rw [next, recognise?_keyword_append hkeyword hbefore hrest]
  rfl

/-- The statements among the tokens, with the offsets behind them. Comments and markers are left
out. -/
def statements (tokens : List Token) : List (TokenKind × Nat) :=
  (tokens.filter (·.kind.isStatement)).map fun token => (token.kind, token.stop)

/-- The statements among some tokens are those of the first one and of the others. -/
theorem statements_cons (token : Token) (tokens : List Token) :
    statements (token :: tokens) = statements [token] ++ statements tokens := by
  simp [statements, ← List.map_append, ← List.filter_append]

/-- A token that is a statement is listed with the offset of its end. -/
theorem statements_cons_of_pos {token : Token} (h : token.kind.isStatement = true)
    (tokens : List Token) :
    statements (token :: tokens) = (token.kind, token.stop) :: statements tokens := by
  simp [statements, h]

/-- A token that is no statement is not listed. -/
theorem statements_cons_of_neg {token : Token} (h : token.kind.isStatement = false)
    (tokens : List Token) : statements (token :: tokens) = statements tokens := by
  simp [statements, h]

end Token

end ElmReach
