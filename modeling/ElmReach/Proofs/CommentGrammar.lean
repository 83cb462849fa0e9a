import ElmReach.Proofs.CommentScan

/-!
# The grammar of block comments

A block comment is an opening delimiter, some items and a closing delimiter. An item is a block
comment or a character at which no delimiter stands. The reader keeps no such structure, it only
counts how many comments are open: it passes over items without a change of the count, and if it
never comes to the closer of a comment, then there is none.
-/

namespace ElmReach.Comment

/-- The delimiter that opens a block comment. It also opens a comment within a comment. -/
def opener : List Char := ['{', '-']

/-- The delimiter that closes a block comment. It closes the innermost one that is open. -/
def closer : List Char := ['-', '}']

/-- A delimiter stands at an offset of the content, that is, both of its characters do. -/
def StandsAt (delimiter content : List Char) (offset : Nat) : Prop :=
  delimiter <+: content.drop offset

/-- Whether a delimiter stands at an offset is decided by comparing characters. -/
instance (delimiter content : List Char) (offset : Nat) :
    Decidable (StandsAt delimiter content offset) :=
  inferInstanceAs (Decidable (delimiter <+: content.drop offset))

mutual

/-- A block comment leads from one offset of the content to another: an opener, items, and a
closer. -/
inductive BlockAt (content : List Char) : Nat → Nat → Prop where
  | mk {start close : Nat} (hopen : StandsAt opener content start)
    (hitems : ItemsAt content (start + 2) close) (hclose : StandsAt closer content close) :
    BlockAt content start (close + 2)

/-- Items lead from one offset of the content to another: block comments, and characters at which no
delimiter stands. -/
inductive ItemsAt (content : List Char) : Nat → Nat → Prop where
  | nil (offset : Nat) : ItemsAt content offset offset
  | block {start middle stop : Nat} (hblock : BlockAt content start middle)
    (hitems : ItemsAt content middle stop) : ItemsAt content start stop
  | char {start stop : Nat} (hchar : start < content.length)
    (hopen : ¬ StandsAt opener content start) (hclose : ¬ StandsAt closer content start)
    (hitems : ItemsAt content (start + 1) stop) : ItemsAt content start stop

end

variable {content : List Char} {depth : Int} {start stop offset : Nat}

/-- What stands behind a delimiter of two characters. -/
theorem drop_of_standsAt {a b : Char} (h : StandsAt [a, b] content offset) :
    content.drop offset = a :: b :: content.drop (offset + 2) := by
  obtain ⟨rest, hrest⟩ := h
  have hbehind : content.drop (offset + 2) = rest := by
    rw [← List.drop_drop, ← hrest]
    rfl
  rw [hbehind, ← hrest]
  rfl

/-- At an opener, one more comment is open behind it. -/
theorem afterBlock_of_opener (h : StandsAt opener content offset) :
    afterBlock depth (content.drop offset) =
      afterBlock (depth + 1) (content.drop (offset + 2)) := by
  rw [drop_of_standsAt h, afterBlock]

/-- At a closer, one comment less is open behind it, and the end of the outermost one ends the
scan. -/
theorem afterBlock_of_closer (h : StandsAt closer content offset) :
    afterBlock depth (content.drop offset) =
      if depth = 1 then content.drop (offset + 2)
      else afterBlock (depth - 1) (content.drop (offset + 2)) := by
  rw [drop_of_standsAt h, afterBlock]

/-- At any other character, as many comments are open behind it as in front of it. -/
theorem afterBlock_of_char (hchar : offset < content.length)
    (hopen : ¬ StandsAt opener content offset) (hclose : ¬ StandsAt closer content offset) :
    afterBlock depth (content.drop offset) = afterBlock depth (content.drop (offset + 1)) := by
  unfold StandsAt at hopen hclose
  rw [List.drop_eq_getElem_cons hchar] at hopen hclose ⊢
  rw [afterBlock]
  · rintro rest hbrace hrest
    exact hopen ⟨rest, by rw [hbrace, hrest]; rfl⟩
  · rintro rest hdash hrest
    exact hclose ⟨rest, by rw [hdash, hrest]; rfl⟩

mutual

/-- A comment is not empty: it has an opener and a closer. -/
theorem BlockAt.lt {start stop : Nat} : BlockAt content start stop → start < stop
  | .mk _ hitems _ => by
    have hle := hitems.le
    omega

/-- What stands between an opener and its closer runs forward. -/
theorem ItemsAt.le {start stop : Nat} : ItemsAt content start stop → start ≤ stop
  | .nil _ => Nat.le_refl _
  | .block hblock hitems => Nat.le_trans (Nat.le_of_lt hblock.lt) hitems.le
  | .char _ _ _ hitems => Nat.le_of_succ_le hitems.le

end

mutual

/-- Inside of a comment, a whole block comment is passed over: it closes as many comments as it
opens. -/
theorem BlockAt.afterBlock_eq {start stop : Nat} {depth : Int} (hdepth : 1 ≤ depth) :
    BlockAt content start stop →
      afterBlock depth (content.drop start) = afterBlock depth (content.drop stop)
  | .mk hopen hitems hclose => by
    have hinner : 1 ≤ depth + 1 := by omega
    rw [afterBlock_of_opener hopen, hitems.afterBlock_eq hinner, afterBlock_of_closer hclose,
      if_neg (by omega), Int.add_sub_cancel]

/-- Inside of a comment, items are passed over: the number of open comments behind them is the same
as in front. This is the induction on the grammar. -/
theorem ItemsAt.afterBlock_eq {start stop : Nat} {depth : Int} (hdepth : 1 ≤ depth) :
    ItemsAt content start stop →
      afterBlock depth (content.drop start) = afterBlock depth (content.drop stop)
  | .nil _ => rfl
  | .block hblock hitems => (hblock.afterBlock_eq hdepth).trans (hitems.afterBlock_eq hdepth)
  | .char hchar hopen hclose hitems =>
    (afterBlock_of_char hchar hopen hclose).trans (hitems.afterBlock_eq hdepth)

end

/-- A delimiter has two characters, both of which stand in the text. -/
theorem le_length_of_standsAt {a b : Char} (h : StandsAt [a, b] content offset) :
    offset + 2 ≤ content.length := by
  have hlength := congrArg List.length (drop_of_standsAt h)
  simp only [List.length_drop, List.length_cons] at hlength
  omega

/-- A reader that comes from outside goes on behind the block comment. -/
theorem BlockAt.afterBlock_zero (h : BlockAt content start stop) :
    afterBlock 0 (content.drop start) = content.drop stop := by
  obtain ⟨hopen, hitems, hclose⟩ := h
  rw [afterBlock_of_opener hopen, Int.zero_add, hitems.afterBlock_eq (Int.le_refl 1),
    afterBlock_of_closer hclose, if_pos rfl]

/-- A comment of the grammar starts with an opener, so that the scan takes it for a block
comment. -/
theorem BlockAt.opens (h : BlockAt content start stop) : StandsAt opener content start := by
  obtain ⟨hopen, -, -⟩ := h
  exact hopen

/-- A comment of the grammar ends in the text, since its closer stands there. -/
theorem BlockAt.le_length (h : BlockAt content start stop) : stop ≤ content.length := by
  obtain ⟨-, -, hclose⟩ := h
  exact le_length_of_standsAt hclose

/-- A reader that comes from outside leaves a block comment at its end, at the closer of its own
opener and at no earlier one. -/
theorem BlockAt.blockEnd_eq (h : BlockAt content start stop) : blockEnd content start = stop := by
  have hle := h.le_length
  rw [blockEnd, h.afterBlock_zero, List.length_drop]
  omega

/-- A delimiter within a text stands there whatever text follows. -/
theorem standsAt_append {a b : Char} (h : offset + 2 ≤ content.length) (rest : List Char) :
    StandsAt [a, b] (content ++ rest) offset ↔ StandsAt [a, b] content offset := by
  unfold StandsAt
  rw [List.drop_append_of_le_length (by omega)]
  refine ⟨fun hstands => ?_, fun hstands => hstands.trans (List.prefix_append _ rest)⟩
  refine List.prefix_of_prefix_length_le hstands (List.prefix_append _ rest) ?_
  rw [List.length_drop, List.length_cons, List.length_singleton]
  omega

mutual

/-- A block comment is one whatever follows it, because the grammar looks only at what stands in
front of its end. -/
theorem BlockAt.append {start stop : Nat} (rest : List Char) :
    BlockAt content start stop → BlockAt (content ++ rest) start stop
  | .mk hopen hitems hclose =>
    have hle := le_length_of_standsAt hclose
    .mk ((standsAt_append (le_length_of_standsAt hopen) rest).mpr hopen) (hitems.append rest hle)
      ((standsAt_append hle rest).mpr hclose)

/-- Items in front of a delimiter are items whatever follows it. -/
theorem ItemsAt.append {start stop : Nat} (rest : List Char) :
    ItemsAt content start stop → stop + 2 ≤ content.length → ItemsAt (content ++ rest) start stop
  | .nil _, _ => .nil _
  | .block hblock hitems, hle => .block (hblock.append rest) (hitems.append rest hle)
  | .char hchar hopen hclose hitems, hle => by
    have hnext := hitems.le
    refine .char ?_ ?_ ?_ (hitems.append rest hle)
    · rw [List.length_append]
      omega
    · rwa [opener, standsAt_append (by omega)]
    · rwa [closer, standsAt_append (by omega)]

end

/-- From every offset, items lead to a closer, or a reader inside of a comment comes to the end of
the content. -/
theorem exists_closer_or_afterBlock_eq_nil (content : List Char) (offset : Nat) :
    (∃ close, ItemsAt content offset close ∧ StandsAt closer content close) ∨
      ∀ depth : Int, 1 ≤ depth → afterBlock depth (content.drop offset) = [] := by
  -- The induction is on what is left of the content: behind an opener it is used twice, for the
  -- inner comment and for what follows it.
  induction hleft : content.length - offset using Nat.strongRecOn generalizing offset with
  | _ left ih =>
    by_cases hend : content.length ≤ offset
    · refine .inr fun depth _ => ?_
      rw [List.drop_of_length_le hend, afterBlock]
    by_cases hopen : StandsAt opener content offset
    · rcases ih (content.length - (offset + 2)) (by omega) (offset + 2) rfl with
        ⟨close, hitems, hclose⟩ | hnil
      · have hblock : BlockAt content offset (close + 2) := .mk hopen hitems hclose
        have hle := hitems.le
        rcases ih (content.length - (close + 2)) (by omega) (close + 2) rfl with
          ⟨last, hrest, hlast⟩ | hnil
        · exact .inl ⟨last, .block hblock hrest, hlast⟩
        · exact .inr fun depth hdepth => (hblock.afterBlock_eq hdepth).trans (hnil depth hdepth)
      · refine .inr fun depth hdepth => ?_
        rw [afterBlock_of_opener hopen]
        exact hnil (depth + 1) (by omega)
    by_cases hclose : StandsAt closer content offset
    · exact .inl ⟨offset, .nil offset, hclose⟩
    · have hchar : offset < content.length := by omega
      rcases ih (content.length - (offset + 1)) (by omega) (offset + 1) rfl with
        ⟨close, hitems, hcloser⟩ | hnil
      · exact .inl ⟨close, .char hchar hopen hclose hitems, hcloser⟩
      · exact .inr fun depth hdepth =>
          (afterBlock_of_char hchar hopen hclose).trans (hnil depth hdepth)

/-- The reader finds the block comments of the grammar. At most one block comment starts at an
opener; the reader ends behind it if there is one, and at the end of the content if there is
none. -/
theorem blockEnd_of_grammar (hopen : StandsAt opener content offset) :
    (∀ stop other, BlockAt content offset stop → BlockAt content offset other → stop = other) ∧
    (∀ stop, BlockAt content offset stop → blockEnd content offset = stop) ∧
    ((∀ stop, ¬ BlockAt content offset stop) → blockEnd content offset = content.length) := by
  refine ⟨fun stop other hstop hother => ?_, fun stop hstop => hstop.blockEnd_eq, fun hnone => ?_⟩
  · rw [← hstop.blockEnd_eq, hother.blockEnd_eq]
  · rcases exists_closer_or_afterBlock_eq_nil content (offset + 2) with
      ⟨close, hitems, hclose⟩ | hnil
    · exact absurd (.mk hopen hitems hclose) (hnone (close + 2))
    · rw [blockEnd, afterBlock_of_opener hopen, hnil (0 + 1) (by omega), List.length_nil,
        Nat.sub_zero]

/-- The text `{-}{--}-}y`: a comment with a lone brace and an empty comment in it. -/
def loneBrace : List Char := "\x7b-\x7d\x7b--\x7d-\x7dy".toList

/-- The dash of an opener makes no closer with the brace behind it, and the comment ends at its
second closer. -/
theorem blockEnd_of_loneBrace :
    StandsAt opener loneBrace 0 ∧ BlockAt loneBrace 0 9 ∧ blockEnd loneBrace 0 = 9 := by
  have hopen : StandsAt opener loneBrace 0 := by decide
  have hinner : BlockAt loneBrace 3 7 := .mk (by decide) (.nil 5) (by decide)
  have hblock : BlockAt loneBrace 0 9 :=
    .mk hopen (.char (by decide) (by decide) (by decide) (.block hinner (.nil 7))) (by decide)
  exact ⟨hopen, hblock, (blockEnd_of_grammar hopen).2.1 9 hblock⟩

end ElmReach.Comment
