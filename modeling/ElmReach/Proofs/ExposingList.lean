import ElmReach.Proofs.PlainText
import ElmReach.Source.Exposing
import Mathlib.Tactic.Common

/-!
# Exposing lists, read and written

The entries of an exposing list are tidy texts in which no parenthesis closes that was not opened
and no comma stands outside of parentheses. An entry that closes all its parentheses survives being
written and read again, between any other entries, because the commas and the parenthesis that
divide the written list are the ones that are found first.
-/

namespace ElmReach.Exposing

open Text

/-- An entry opens as many parentheses as it closes. This is what an entry that was read has to
satisfy so that it can be written and read again. -/
def Balanced (entry : String) : Prop :=
  entry.toList.count '(' = entry.toList.count ')'

/-- Whether parentheses match can be decided, by going through the text once. -/
instance (entry : String) : Decidable (Balanced entry) :=
  inferInstanceAs (Decidable (_ = _))

/-- Read behind `depth` open parentheses, the text leaves `final` ones open, and it neither closes
nor divides the list on the way. -/
inductive Nested : Nat → List Char → Nat → Prop where
  | nil {depth : Nat} : Nested depth [] depth
  | opening {depth final : Nat} {rest : List Char} (hrest : Nested (depth + 1) rest final) :
    Nested depth ('(' :: rest) final
  | closing {depth final : Nat} {rest : List Char} (hrest : Nested depth rest final) :
    Nested (depth + 1) (')' :: rest) final
  | other {c : Char} {depth final : Nat} {rest : List Char} (hopen : c ≠ '(') (hclose : c ≠ ')')
    (hcomma : c = ',' → depth ≠ 0) (hrest : Nested depth rest final) :
    Nested depth (c :: rest) final

/-- In a text that opens and closes parentheses in order, the openings and the closings are as many
as the depths at both ends say. -/
theorem Nested.count_eq {depth final : Nat} {text : List Char} (h : Nested depth text final) :
    depth + text.count '(' = final + text.count ')' := by
  induction h with
  | nil => simp
  | opening _ ih => simp; omega
  | closing _ ih => simp; omega
  | other hopen hclose _ _ ih =>
    rw [List.count_cons_of_ne hopen, List.count_cons_of_ne hclose, ih]

/-- A text that can be read with its parentheses in order can be read up to each of its places. -/
theorem Nested.left_of_append {depth final : Nat} {left right : List Char}
    (h : Nested depth (left ++ right) final) : ∃ between, Nested depth left between := by
  induction left generalizing depth with
  | nil => exact ⟨depth, .nil⟩
  | cons c left ih =>
    cases h with
    | opening hrest =>
      obtain ⟨between, hleft⟩ := ih hrest
      exact ⟨between, .opening hleft⟩
    | closing hrest =>
      obtain ⟨between, hleft⟩ := ih hrest
      exact ⟨between, .closing hleft⟩
    | other hopen hclose hcomma hrest =>
      obtain ⟨between, hleft⟩ := ih hrest
      exact ⟨between, .other hopen hclose hcomma hleft⟩

/-- Blanks at the front do not matter for how parentheses are nested. -/
theorem Nested.right_of_blanks {depth final : Nat} {blanks text : List Char}
    (hblanks : ∀ c ∈ blanks, isBlank c = true) (h : Nested depth (blanks ++ text) final) :
    Nested depth text final := by
  induction blanks generalizing depth with
  | nil => exact h
  | cons c blanks ih =>
    have hc := hblanks c List.mem_cons_self
    have hothers (d : Char) (hd : d ∈ blanks) := hblanks d (List.mem_cons_of_mem c hd)
    cases h with
    | opening hrest => exact absurd hc (by decide)
    | closing hrest => exact absurd hc (by decide)
    | other hopen hclose hcomma hrest => exact ih hothers hrest

/-- What is read up to the end of a nested piece belongs to one raw entry. -/
theorem split_append {depth final : Nat} {piece rest first : List Char} {others : List (List Char)}
    (h : Nested depth piece final) (hrest : split final rest = first :: others) :
    split depth (piece ++ rest) = (piece ++ first) :: others := by
  induction h with
  | nil => simpa using hrest
  | opening _ ih => simp [split, ih hrest, consFirst]
  | closing _ ih => simp [split, ih hrest, consFirst]
  | other hopen hclose hcomma _ ih =>
    rw [List.cons_append, split, if_neg hopen, if_neg hclose,
      if_neg fun hboth => hcomma hboth.1 hboth.2, ih hrest]
    rfl

/-- The raw entries of a list that is read behind `depth` open parentheses are nested pieces of its
text, and the first one stands at the front. -/
def RawEntries (depth : Nat) (text : List Char) (pieces : List (List Char)) : Prop :=
  ∃ first others, pieces = first :: others ∧ (first <+: text ∧ ∃ final, Nested depth first final) ∧
    ∀ piece ∈ others, piece <:+: text ∧ ∃ final, Nested 0 piece final

/-- A character in front of entries belongs to the first entry, at the depth that it leads to. -/
theorem RawEntries.consFirst {depth inner : Nat} {c : Char} {rest : List Char}
    {pieces : List (List Char)} (h : RawEntries inner rest pieces)
    (hc : ∀ piece final, Nested inner piece final → Nested depth (c :: piece) final) :
    RawEntries depth (c :: rest) (consFirst c pieces) := by
  obtain ⟨first, others, rfl, ⟨hfront, final, hfirst⟩, hothers⟩ := h
  refine ⟨c :: first, others, rfl, ⟨?_, final, hc first final hfirst⟩, fun piece hpiece => ?_⟩
  · exact List.cons_prefix_cons.mpr ⟨rfl, hfront⟩
  · obtain ⟨hpiece, hnested⟩ := hothers piece hpiece
    exact ⟨hpiece.trans (List.suffix_cons c rest).isInfix, hnested⟩

/-- Splitting a list gives its entries, at any depth of parentheses. -/
theorem rawEntries_split (depth : Nat) (text : List Char) :
    RawEntries depth text (split depth text) := by
  fun_induction split depth text with
  | case1 depth => exact ⟨[], [], rfl, ⟨List.nil_prefix, depth, .nil⟩, by simp⟩
  | case2 depth rest ih => exact ih.consFirst fun _ _ => .opening
  | case3 rest => exact ⟨[], [], rfl, ⟨List.nil_prefix, 0, .nil⟩, by simp⟩
  | case4 depth rest hdepth hclose ih =>
    refine ih.consFirst fun piece final hpiece => ?_
    have hclosing := hpiece.closing
    rwa [Nat.sub_add_cancel (Nat.pos_of_ne_zero hdepth)] at hclosing
  | case5 depth c rest hopen hclose hcomma ih =>
    obtain ⟨rfl, rfl⟩ := hcomma
    obtain ⟨first, others, hsplit, ⟨hfront, hfirst⟩, hothers⟩ := ih
    refine ⟨[], split 0 rest, rfl, ⟨List.nil_prefix, 0, .nil⟩, fun piece hpiece => ?_⟩
    have hinside := (List.suffix_cons ',' rest).isInfix
    rw [hsplit] at hpiece
    rcases List.mem_cons.mp hpiece with rfl | hpiece
    · exact ⟨hfront.isInfix.trans hinside, hfirst⟩
    · exact ⟨(hothers piece hpiece).1.trans hinside, (hothers piece hpiece).2⟩
  | case6 depth c rest hopen hclose hcomma ih =>
    exact ih.consFirst fun _ _ => .other hopen hclose fun hc hdepth => hcomma ⟨hc, hdepth⟩

/-- A piece of a list stands in the list, and its parentheses are in order up to its end. -/
theorem nested_of_mem_split {piece text : List Char} (h : piece ∈ split 0 text) :
    piece <:+: text ∧ ∃ final, Nested 0 piece final := by
  obtain ⟨first, others, hsplit, ⟨hfront, hfirst⟩, hothers⟩ := rawEntries_split 0 text
  rw [hsplit] at h
  rcases List.mem_cons.mp h with rfl | h
  · exact ⟨hfront.isInfix, hfirst⟩
  · exact hothers piece h

/-- Trimming does not change how the parentheses of a piece are nested. -/
theorem Nested.trim {text : List Char} {final : Nat} (h : Nested 0 text final) :
    ∃ final, Nested 0 (trim text) final := by
  obtain ⟨front, back, htext, hfront, -⟩ := exists_append_trim text
  rw [htext, List.append_assoc] at h
  exact (h.right_of_blanks hfront).left_of_append

/-- A text that can be an entry of a written list: it is not empty, is trimmed and tidy, and its
parentheses are balanced, with no comma outside of them. -/
structure IsEntry (entry : List Char) : Prop where
  ne_nil : entry ≠ []
  trimmed : Trimmed entry
  tidy : Tidy entry
  /-- The entry closes what it opens, and its commas stand inside of parentheses. -/
  nested : Nested 0 entry 0

/-- What stands inside a list is an end of the text. -/
theorem inside?_suffix {text list : List Char} (h : inside? text = some list) : list <:+ text := by
  unfold inside? at h
  split at h
  · split at h
    · next rest heq =>
      obtain rfl := Option.some.inj h
      have hdrop := (List.dropWhile_suffix isBlank).trans (List.drop_suffix keyword.length text)
      rw [heq] at hdrop
      exact (List.suffix_cons '(' rest).trans hdrop
    · cases h
  · cases h

/-- What stands behind the keyword of a list is an end of the text. -/
theorem find?_suffix {before : Option Char} {text list : List Char}
    (h : find? before text = some list) : list <:+ text := by
  fun_induction find? before text with
  | case1 => cases h
  | case2 before c rest hbefore ih => exact (ih h).trans (List.suffix_cons c rest)
  | case3 before c rest hbefore found hinside =>
    obtain rfl := Option.some.inj h
    exact inside?_suffix hinside
  | case4 before c rest hbefore hinside ih => exact (ih h).trans (List.suffix_cons c rest)

/-- The balanced entries of a tidy text can be entries of a written list. -/
theorem isEntry_of_mem_entries {text : List Char} {entry : String} (htidy : Tidy text)
    (h : entry ∈ entries text) (hbalanced : Balanced entry) : IsEntry entry.toList := by
  unfold entries at h
  split at h
  · simp at h
  · next list hfind =>
    simp only [List.mem_map, List.mem_filter] at h
    obtain ⟨_, ⟨⟨piece, hpiece, rfl⟩, hne⟩, rfl⟩ := h
    obtain ⟨hplace, final, hnested⟩ := nested_of_mem_split hpiece
    obtain ⟨front, back, hsplit, -, -⟩ := exists_append_trim piece
    have hinside : trim piece <:+: text :=
      List.IsInfix.trans ⟨front, back, hsplit.symm⟩ (hplace.trans (find?_suffix hfind).isInfix)
    obtain ⟨final, htrim⟩ := hnested.trim
    have hfinal : final = 0 := by
      have hcount := htrim.count_eq
      rw [Balanced, String.toList_ofList] at hbalanced
      omega
    rw [hfinal] at htrim
    rw [String.toList_ofList]
    exact ⟨by simpa using hne, trimmed_trim piece, htidy.of_isInfix hinside, htrim⟩

/-- A blank in front of the first piece is trimmed away. -/
theorem map_trim_consFirst {c : Char} (hc : isBlank c = true) {pieces : List (List Char)}
    (hne : pieces ≠ []) : (consFirst c pieces).map trim = pieces.map trim := by
  obtain ⟨first, others, rfl⟩ := List.exists_cons_of_ne_nil hne
  simp [consFirst, trim_cons_of_isBlank hc]

/-- A written list is split where it was joined: at the commas outside of the parentheses of its
entries. -/
theorem map_trim_split {written : List (List Char)} (hne : written ≠ [])
    (h : ∀ entry ∈ written, IsEntry entry) :
    (split 0 ([',', ' '].intercalate written ++ [')'])).map trim = written := by
  induction written with
  | nil => exact absurd rfl hne
  | cons entry others ih =>
    have hentry := h entry List.mem_cons_self
    cases others with
    | nil =>
      have hend : split 0 [')'] = [[]] := rfl
      rw [List.intercalate_singleton, split_append hentry.nested hend]
      simp [hentry.trimmed.trim_eq]
    | cons next others =>
      have hothers := ih (by simp) fun other hother => h other (List.mem_cons_of_mem entry hother)
      have htext : [',', ' '].intercalate (entry :: next :: others) ++ [')'] =
          entry ++ ',' :: ' ' :: ([',', ' '].intercalate (next :: others) ++ [')']) := by
        simp [List.intercalate_cons_cons]
      rw [htext]
      generalize [',', ' '].intercalate (next :: others) ++ [')'] = text at hothers
      have hsplit : split 0 text ≠ [] := by
        obtain ⟨first, rest, heq, -⟩ := rawEntries_split 0 text
        simp [heq]
      have hcomma : split 0 (',' :: ' ' :: text) = [] :: consFirst ' ' (split 0 text) := by
        simp [split]
      rw [split_append hentry.nested hcomma, List.map_cons, List.append_nil,
        hentry.trimmed.trim_eq, map_trim_consFirst (by decide) hsplit, hothers]

/-- A word without blanks that a text starts with stands in front of the text's first blank. -/
theorem prefix_of_prefix_append {word front rest : List Char}
    (hword : ∀ c ∈ word, isBlank c = false) (hrest : BlankFirst rest)
    (h : word <+: front ++ rest) : word <+: front := by
  induction word generalizing front with
  | nil => exact List.nil_prefix
  | cons c word ih =>
    have hothers (d : Char) (hd : d ∈ word) := hword d (List.mem_cons_of_mem c hd)
    cases front with
    | nil =>
      obtain ⟨others, hothers⟩ := h
      have hc := hrest c (by rw [← List.nil_append rest, ← hothers]; rfl)
      rw [hword c List.mem_cons_self] at hc
      cases hc
    | cons d front =>
      obtain ⟨rfl, htail⟩ := List.cons_prefix_cons.mp h
      exact List.cons_prefix_cons.mpr ⟨rfl, ih hothers htail⟩

section Name

variable {name rest : List Char} (hname : ∀ c ∈ name, isWordChar c = true ∨ c = '.')
  (hrest : BlankFirst rest) (hopen : ∀ c ∈ (rest.dropWhile isBlank).head?, c ≠ '(')

include hname hrest hopen

/-- No list starts inside of a name, not even if the name holds the word `exposing`. -/
theorem inside?_name_append (hne : name ≠ []) : inside? (name ++ rest) = none := by
  unfold inside?
  split
  · next hkeyword =>
    have hword : ∀ c ∈ keyword, isBlank c = false := by simp [keyword, isBlank]
    obtain ⟨others, rfl⟩ :=
      prefix_of_prefix_append hword hrest (List.isPrefixOf_iff_prefix.mp hkeyword)
    rw [List.append_assoc, List.drop_left]
    cases others with
    | nil =>
      rw [List.nil_append]
      split
      · next list heq => exact absurd rfl (hopen '(' (by simp [heq]))
      · rfl
    | cons c others =>
      have hc : isBlank c = false ∧ c ≠ '(' := by
        rcases hname c (by simp) with hc | rfl
        · refine ⟨isBlank_of_isWordChar hc, ?_⟩
          rintro rfl
          exact absurd hc (by decide)
        · decide
      rw [List.cons_append, List.dropWhile_cons, if_neg (by simp [hc.1])]
      split
      · next list heq => exact absurd (List.cons.inj heq).1 hc.2
      · rfl
  · rfl

/-- A name has no parenthesis and is no keyword, so the list of a statement is not found within its
name. -/
theorem find?_name_append (before : Option Char) :
    find? before (name ++ rest) = find? (name.getLast?.or before) rest := by
  induction name generalizing before with
  | nil => simp
  | cons c name ih =>
    have hnone := inside?_name_append hname hrest hopen (by simp)
    have htail := ih (fun d hd => hname d (List.mem_cons_of_mem c hd)) (some c)
    rw [List.cons_append] at hnone
    rw [List.cons_append, find?, getLast?_cons_or, htail, hnone]
    simp

end Name

/-- An exposing list is written with spaces around its keyword and behind each comma. -/
theorem render_of_ne_nil {written : List String} (hne : written ≠ []) :
    render written = ' ' :: (keyword ++ ' ' :: '(' ::
      ([',', ' '].intercalate (written.map String.toList) ++ [')'])) := by
  obtain ⟨first, others, rfl⟩ := List.exists_cons_of_ne_nil hne
  simp [render]

/-- A list is found behind its keyword, with or without blanks in front of the parenthesis. -/
theorem find?_keyword {blanks : List Char} (hblanks : ∀ c ∈ blanks, isBlank c = true)
    (before : Option Char) (list : List Char) :
    find? before (' ' :: (keyword ++ (blanks ++ '(' :: list))) = some list := by
  have hspace : inside? (' ' :: (keyword ++ (blanks ++ '(' :: list))) = none := rfl
  have hkeyword : inside? (keyword ++ (blanks ++ '(' :: list)) = some list := by
    have hopen : (blanks ++ '(' :: list).dropWhile isBlank = '(' :: list := by
      rw [List.dropWhile_append_of_pos hblanks]
      rfl
    rw [inside?, if_pos (List.isPrefixOf_iff_prefix.mpr (List.prefix_append _ _)), List.drop_left,
      hopen]
    rfl
  have hfind : find? (some ' ') (keyword ++ (blanks ++ '(' :: list)) = some list := by
    rw [keyword, List.cons_append, find?, if_neg (by decide), ← List.cons_append, ← keyword,
      hkeyword]
  rw [find?, hspace, hfind, ite_self]

/-- The list that is written is found again behind its keyword. -/
theorem find?_render {written : List String} (hne : written ≠ []) (before : Option Char) :
    find? before (render written) =
      some ([',', ' '].intercalate (written.map String.toList) ++ [')']) := by
  have hspace : ∀ c ∈ [' '], isBlank c = true := List.forall_mem_singleton.mpr (by decide)
  rw [render_of_ne_nil hne]
  exact find?_keyword hspace before _

/-- Nothing is written for an empty list, and a space stands in front of every other one. -/
theorem blankFirst_render (written : List String) : BlankFirst (render written) := by
  unfold render
  split
  · exact blankFirst_nil
  · exact blankFirst_cons.mpr (by decide)

/-- A written list is read back, behind a name or at the front of a text. -/
theorem entries_append_render {name : List Char} {written : List String}
    (hname : ∀ c ∈ name, isWordChar c = true ∨ c = '.')
    (hwritten : ∀ entry ∈ written, IsEntry entry.toList) :
    entries (name ++ render written) = written := by
  by_cases hne : written = []
  · have hnone := find?_name_append hname blankFirst_nil (by simp) none
    rw [List.append_nil] at hnone
    simp [hne, render, entries, hnone, find?]
  · have hopen : ∀ c ∈ ((render written).dropWhile isBlank).head?, c ≠ '(' := by
      rw [render_of_ne_nil hne]
      rintro c ⟨rfl⟩
      decide
    have hsplit := map_trim_split (by simpa using hne)
      (List.forall_mem_map.mpr hwritten)
    have hfull (entry : List Char) (hentry : entry ∈ written.map String.toList) :
        (!entry.isEmpty) = true := by
      obtain ⟨text, htext, rfl⟩ := List.mem_map.mp hentry
      simpa using (hwritten text htext).ne_nil
    rw [entries, find?_name_append hname (blankFirst_render written) hopen, find?_render hne]
    simp only [hsplit, List.filter_eq_self.mpr hfull, List.map_map]
    simp

/-- A written list is tidy, so that neither stripping comments nor collapsing blanks changes it. -/
theorem tidy_render {written : List String}
    (hwritten : ∀ entry ∈ written, IsEntry entry.toList) : Tidy (render written) := by
  by_cases hne : written = []
  · rw [hne]
    exact ⟨by simp [render], .nil⟩
  have hlist : Tidy ([',', ' '].intercalate (written.map String.toList)) := by
    refine tidy_intercalate (by decide) (by simp) ?_ ?_
    · exact List.forall_mem_map.mpr fun entry hentry =>
        ⟨(hwritten entry hentry).ne_nil, (hwritten entry hentry).tidy⟩
    · refine List.forall_mem_map.mpr fun entry hentry => ⟨?_, ?_⟩
      · rintro a - b ⟨rfl⟩
        exact fits_of_ne_dash (by decide) (by decide)
      · rintro a ⟨rfl⟩ b hb
        exact fits_space ((hwritten entry hentry).trimmed.head b hb)
  have hfront : Tidy (' ' :: keyword ++ [' ', '(']) := by decide
  have hback : Tidy [')'] := by decide
  have hrender : render written = (' ' :: keyword ++ [' ', '(']) ++
      ([',', ' '].intercalate (written.map String.toList) ++ [')']) := by
    rw [render_of_ne_nil hne]
    simp
  rw [hrender]
  refine hfront.append (hlist.append hback ?_) ?_
  · rintro a - b ⟨rfl⟩
    exact fits_of_ne_dash (by decide) (by decide)
  · rintro a ⟨rfl⟩ b -
    exact ⟨fun hblank => absurd hblank (by decide), fun _ => by decide⟩

/-- A list that is written ends with its parenthesis, which is not blank. -/
theorem getLast?_render (written : List String) :
    ∀ c ∈ (render written).getLast?, isBlank c = false := by
  by_cases hne : written = []
  · simp [hne, render]
  · rw [render_of_ne_nil hne]
    simp only [← List.cons_append, ← List.append_assoc, List.getLast?_concat]
    rintro c ⟨rfl⟩
    decide

end ElmReach.Exposing
