import CodeListing.Proofs.Text.Paragraphs

/-! # Lines, columns and indices

Counting the line feeds in front of an index (`feedsBefore`) gives the number of its line, and
counting from the start of that line gives its column.  A line runs from an index to another
(`LineSpan`): it starts behind as many line feeds as there are lines before it and stops at the next
one, or at the end of the text.  A text has one line more than it has line feeds, each runs from one
index to one other (`LineSpan.unique`), and these are the indices that `lineSpan?` finds
(`lineSpan?_eq_some_iff`).

So `index?` and counting are inverse to each other (`index?_exact`): a line and a column that were
counted lead back to their index, and a line and a column have an index just if there is such a
line. -/

namespace CodeListing

/-! ### Counting line feeds -/

/-- How many line feeds stand in front of an index. -/
def feedsBefore (text : List Char) (i : Nat) : Nat := (text.take i).count '\n'

theorem feedsBefore_mono (text : List Char) {i j : Nat} (h : i ≤ j) :
    feedsBefore text i ≤ feedsBefore text j :=
  (List.take_sublist_take_left h).count_le '\n'

theorem feedsBefore_le (text : List Char) (i : Nat) : feedsBefore text i ≤ text.count '\n' :=
  (List.take_sublist i text).count_le '\n'

theorem feedsBefore_succ {text : List Char} {i : Nat} (h : text[i]? = some '\n') :
    feedsBefore text (i + 1) = feedsBefore text i + 1 := by
  simp [feedsBefore, List.take_add_one, h]

/-! ### Where lines run -/

/-- A line, counted from one, runs from one index to another. -/
structure LineSpan (text : List Char) (number : Int) (start stop : Nat) : Prop where
  number : number = feedsBefore text start + 1
  starts : start = 0 ∨ text[start - 1]? = some '\n'
  ordered : start ≤ stop
  stops : stop = text.length ∨ text[stop]? = some '\n'
  unbroken : ∀ i, start ≤ i → i < stop → text[i]? ≠ some '\n'

namespace LineSpan
variable {text : List Char} {l l' : Int} {s s' e e' i : Nat}

theorem stop_le (h : LineSpan text l s e) : e ≤ text.length := by
  rcases h.stops with rfl | hfeed
  · exact Nat.le_refl _
  · exact Nat.le_of_lt (List.getElem?_eq_some_iff.mp hfeed).1

theorem feedsBefore_lt (h : LineSpan text l s e) (hi : i < s) :
    feedsBefore text i < feedsBefore text s := by
  rcases h.starts with rfl | hfeed
  · omega
  · have hstep := feedsBefore_succ hfeed
    rw [Nat.sub_add_cancel (by omega)] at hstep
    have hmono := feedsBefore_mono text (show i ≤ s - 1 by omega)
    omega

theorem lt_feedsBefore (h : LineSpan text l s e) (hi : e < i) (hlength : i ≤ text.length) :
    feedsBefore text s < feedsBefore text i := by
  rcases h.stops with rfl | hfeed
  · omega
  · have hstep := feedsBefore_succ hfeed
    have hstart := feedsBefore_mono text h.ordered
    have hmono := feedsBefore_mono text (show e + 1 ≤ i by omega)
    omega

/-- An index lies in the line that the line feeds in front of it count. -/
theorem within (h : LineSpan text l s e) (hlength : i ≤ text.length)
    (hi : l = feedsBefore text i + 1) : s ≤ i ∧ i ≤ e := by
  have hnumber := h.number
  constructor
  · by_contra hlt
    have := h.feedsBefore_lt (Nat.lt_of_not_le hlt)
    omega
  · by_contra hlt
    have := h.lt_feedsBefore (Nat.lt_of_not_le hlt) hlength
    omega

theorem stop_lt (h : LineSpan text l s e) (h' : LineSpan text l' s' e') (hl : l < l') : e < s' := by
  have hnumber := h.number
  have hnumber' := h'.number
  by_contra hle
  have hs : s < s' := by
    by_contra hs
    have := feedsBefore_mono text (Nat.le_of_not_lt hs)
    omega
  rcases h'.starts with rfl | hfeed
  · omega
  · exact h.unbroken (s' - 1) (by omega) (by omega) hfeed

theorem unique (h : LineSpan text l s e) (h' : LineSpan text l s' e') : s = s' ∧ e = e' := by
  have hle : ∀ {s s' e e'}, LineSpan text l s e → LineSpan text l s' e' → s ≤ s' ∧ e ≤ e' := by
    intro s s' e e' h h'
    have hs := (h.within (Nat.le_trans h'.ordered h'.stop_le) h'.number).1
    refine ⟨hs, ?_⟩
    by_contra hlt
    have hlength := h.stop_le
    rcases h'.stops with rfl | hfeed
    · omega
    · exact h.unbroken e' (Nat.le_trans hs h'.ordered) (by omega) hfeed
  have hleft := hle h h'
  have hright := hle h' h
  omega

end LineSpan

/-! ### The spans of pieces -/

theorem length_unlines (ps : List (List Char)) : (unlines ps).length = extent ps := by
  induction ps with
  | nil => rfl
  | cons p ps ih =>
      rw [unlines_cons, extent_cons, List.length_append, List.length_cons, ih]
      omega

theorem count_unlines {ps : List (List Char)} (h : ∀ p ∈ ps, '\n' ∉ p) :
    (unlines ps).count '\n' = ps.length := by
  induction ps with
  | nil => rfl
  | cons p ps ih =>
      have hp : p.count '\n' = 0 := List.count_eq_zero.mpr (h p List.mem_cons_self)
      have hps := ih fun q hq => h q (List.mem_cons_of_mem p hq)
      rw [unlines_cons, List.count_append, List.count_cons_self, hp, hps, List.length_cons]
      omega

theorem getLast?_unlines {ps : List (List Char)} (h : ps ≠ []) :
    (unlines ps).getLast? = some '\n' := by
  obtain ⟨front, p, rfl⟩ := List.eq_nil_or_concat ps |>.resolve_left h
  simp [unlines]

theorem intercalate_append_cons (ps : List (List Char)) (p : List Char) (qs : List (List Char)) :
    ['\n'].intercalate (ps ++ p :: qs) = unlines ps ++ (p ++ qs.flatMap ('\n' :: ·)) := by
  have hbehind : ∀ p, ['\n'].intercalate (p :: qs) = p ++ qs.flatMap ('\n' :: ·) := by
    induction qs with
    | nil => simp
    | cons q qs ih =>
        intro p
        rw [List.intercalate_cons_cons, ih]
        simp
  induction ps with
  | nil => exact hbehind p
  | cons o os ih =>
      obtain ⟨m, ms, hm⟩ := List.exists_cons_of_ne_nil (l := os ++ p :: qs) (by simp)
      rw [hm] at ih
      rw [List.cons_append, hm, List.intercalate_cons_cons, ih, unlines_cons]
      simp

section
variable {text p : List Char} {k : Nat} (hp : (pieces text)[k]? = some p)
include hp

/-- A text consists of the pieces before one of them, that piece and what follows it. -/
theorem eq_append_of_piece : ∃ rest, text = unlines ((pieces text).take k) ++ (p ++ rest) ∧
    (rest = [] ∨ rest.head? = some '\n') := by
  obtain ⟨hk, hget⟩ := List.getElem?_eq_some_iff.mp hp
  have hsplit : pieces text = (pieces text).take k ++ p :: (pieces text).drop (k + 1) := by
    rw [← hget, List.getElem_cons_drop, List.take_append_drop]
  have htext : ['\n'].intercalate (pieces text) = text := by
    rw [pieces_eq_splitOn]
    exact List.intercalate_splitOn '\n'
  refine ⟨((pieces text).drop (k + 1)).flatMap ('\n' :: ·), ?_, ?_⟩
  · rw [← intercalate_append_cons, ← hsplit, htext]
  · cases (pieces text).drop (k + 1) with
    | nil => exact .inl rfl
    | cons q qs => exact .inr rfl

theorem lineSpan_of_piece : LineSpan text (k + 1) (extent ((pieces text).take k))
    (extent ((pieces text).take k) + p.length) := by
  obtain ⟨rest, htext, hrest⟩ := eq_append_of_piece hp
  have hk : k < (pieces text).length := (List.getElem?_eq_some_iff.mp hp).1
  have hfree : ∀ q ∈ pieces text, '\n' ∉ q := fun q hq hc => (mem_of_mem_cut hc hq).2 rfl
  have hlength := length_unlines ((pieces text).take k)
  generalize hfront : (pieces text).take k = ps at htext hlength
  have hcount : (unlines ps).count '\n' = k := by
    rw [count_unlines, ← hfront, List.length_take]
    · omega
    · rw [← hfront]
      exact fun q hq => hfree q (List.mem_of_mem_take hq)
  have hbehind : ∀ i, text[extent ps + i]? = (p ++ rest)[i]? := by
    intro i
    rw [htext, ← hlength, List.getElem?_append_right (Nat.le_add_right ..), Nat.add_sub_cancel_left]
  constructor
  case number =>
    have htake : text.take (extent ps) = unlines ps := by
      rw [htext, ← hlength, List.take_left]
    rw [feedsBefore, htake, hcount]
  case starts =>
    cases ps with
    | nil => exact .inl rfl
    | cons q qs =>
        right
        have hlast := getLast?_unlines (List.cons_ne_nil q qs)
        rw [List.getLast?_eq_getElem?, hlength] at hlast
        rw [htext, List.getElem?_append_left, hlast]
        rw [hlength, extent_cons]
        omega
  case ordered => exact Nat.le_add_right ..
  case stops =>
    rw [hbehind, List.getElem?_append_right (Nat.le_refl _), Nat.sub_self]
    rcases hrest with rfl | hrest
    · left
      rw [htext, List.append_nil, List.length_append, hlength]
    · right
      rw [← List.head?_eq_getElem?, hrest]
  case unbroken =>
    intro i hlo hhi hfeed
    obtain ⟨j, rfl⟩ := Nat.exists_eq_add_of_le hlo
    rw [hbehind, List.getElem?_append_left (by omega)] at hfeed
    exact hfree p (List.mem_of_getElem? hp) (List.mem_of_getElem? hfeed)

end

/-! ### Finding the span of a line -/

section
variable {text : List Char} {l : Int}

/-- A line is there if its number is one of those up to the number of line feeds and one more. -/
theorem lineSpan?_eq_none_iff :
    lineSpan? text l = none ↔ l < 1 ∨ (text.count '\n' : Int) + 1 < l := by
  have hlength : (pieces text).length = text.count '\n' + 1 := length_cut '\n' text
  unfold lineSpan?
  split
  · next h => simp [h]
  · next h =>
      rw [spanFrom?_eq, Option.map_eq_none_iff, List.getElem?_eq_none_iff, hlength]
      omega

theorem lineSpan?_eq_some_iff {s e : Nat} :
    lineSpan? text l = some (s, e) ↔ LineSpan text l s e := by
  have hsound : ∀ {s e}, lineSpan? text l = some (s, e) → LineSpan text l s e := by
    intro s e h
    obtain ⟨k, p, rfl, hp, hspan⟩ := lineSpan?_eq_some h
    obtain ⟨rfl, rfl⟩ := Prod.mk.inj hspan
    exact lineSpan_of_piece hp
  constructor
  · exact hsound
  · intro h
    cases hfound : lineSpan? text l with
    | none =>
        have hnumber := h.number
        have hle := feedsBefore_le text s
        rcases lineSpan?_eq_none_iff.mp hfound with hlt | hlt
        · omega
        · omega
    | some span =>
        obtain ⟨rfl, rfl⟩ := (hsound hfound).unique h
        rfl

theorem exists_lineSpan_iff :
    (∃ s e, LineSpan text l s e) ↔ 1 ≤ l ∧ l ≤ (text.count '\n' : Int) + 1 := by
  have hnone : lineSpan? text l = none ↔ _ := lineSpan?_eq_none_iff
  constructor
  · rintro ⟨s, e, h⟩
    rw [lineSpan?_eq_some_iff.mpr h] at hnone
    simp only [reduceCtorEq, false_iff, not_or, Int.not_lt] at hnone
    exact hnone
  · rintro ⟨hlo, hhi⟩
    cases hfound : lineSpan? text l with
    | none =>
        rcases hnone.mp hfound with h | h
        · omega
        · omega
    | some span => exact ⟨span.1, span.2, lineSpan?_eq_some_iff.mp hfound⟩

end

/-! ### Indices -/

/-- The column that is meant, where columns are counted from one. -/
def countedColumn (column : Option Int) : Int := if column.getD 0 = 0 then 1 else column.getD 0

section
variable {text : List Char} {l : Int}

theorem index?_eq_none_iff {line column : Option Int} :
    index? text line column = none ↔
      line = none ∨ ∃ l, line = some l ∧ (l < 1 ∨ (text.count '\n' : Int) + 1 < l) := by
  cases line with
  | none => simp [index?]
  | some l =>
      rw [← Option.not_isSome_iff_eq_none]
      simp only [index?, Option.bind_eq_bind, Option.bind_some, reduceCtorEq, false_or,
        Option.some.injEq, exists_eq_left', ← lineSpan?_eq_none_iff]
      cases lineSpan? text l with
      | none => simp
      | some span => simp

/-- The index of a column in a line. -/
theorem index?_of_lineSpan {s e : Nat} (h : LineSpan text l s e) (column : Option Int) :
    index? text (some l) column = some (min (s + countedColumn column - 1) e) := by
  simp only [index?, Option.bind_eq_bind, Option.bind_some, lineSpan?_eq_some_iff.mpr h]
  cases column with
  | none => rfl
  | some c => rfl

theorem lineSpan_of_index? {column : Option Int} {i : Int}
    (h : index? text (some l) column = some i) : ∃ s e, LineSpan text l s e := by
  obtain ⟨span, hspan, -⟩ := Option.bind_eq_some_iff.mp h
  exact ⟨span.1, span.2, lineSpan?_eq_some_iff.mp hspan⟩

/-- A later line, or a later column of the same line, has no earlier index. -/
theorem index?_mono {l' c c' i i' : Int} (hc' : 0 ≤ c')
    (hi : index? text (some l) (some c) = some i) (hi' : index? text (some l') (some c') = some i')
    (h : l < l' ∨ l = l' ∧ c ≤ c') : i ≤ i' := by
  obtain ⟨s, e, hspan⟩ := lineSpan_of_index? hi
  obtain ⟨s', e', hspan'⟩ := lineSpan_of_index? hi'
  rw [index?_of_lineSpan hspan, Option.some.injEq, countedColumn, Option.getD_some] at hi
  rw [index?_of_lineSpan hspan', Option.some.injEq, countedColumn, Option.getD_some] at hi'
  rcases h with hlt | ⟨rfl, hle⟩
  · have hstop := hspan.stop_lt hspan' hlt
    have hordered := hspan'.ordered
    split at hi' <;> omega
  · obtain ⟨rfl, rfl⟩ := hspan.unique hspan'
    split at hi <;> split at hi' <;> omega

end

/-- **Indices of lines and columns.**  A text has the lines up to the number of its line feeds and
one more, and each runs from one index to one other.  There is no index just if no line is given or
the text has no such line.  Otherwise the index is that of the column, counted from the start of the
line, or the stop of the line if that comes first; it lies in the line unless the column is
negative, and a later line, or a later column of the same line that is not negative, does not have
an earlier index.  Each index of the text is that of the line and the column that are counted in
front of it. -/
theorem index?_exact (text : List Char) :
    (∀ l, (∃ s e, LineSpan text l s e) ↔ 1 ≤ l ∧ l ≤ (text.count '\n' : Int) + 1) ∧
    (∀ l s e s' e', LineSpan text l s e → LineSpan text l s' e' → s = s' ∧ e = e') ∧
    (∀ line column, index? text line column = none ↔
      line = none ∨ ∃ l, line = some l ∧ (l < 1 ∨ (text.count '\n' : Int) + 1 < l)) ∧
    (∀ l s e, LineSpan text l s e → ∀ column, ∃ i, index? text (some l) column = some i ∧
      i = min (s + countedColumn column - 1) e ∧
      ((∀ c, column = some c → 0 ≤ c) → s ≤ i ∧ i ≤ e)) ∧
    (∀ l c i l' c' i', 0 ≤ c' → index? text (some l) (some c) = some i →
      index? text (some l') (some c') = some i' → l < l' ∨ l = l' ∧ c ≤ c' → i ≤ i') ∧
    ∀ i : Nat, i ≤ text.length → ∃ s e, LineSpan text (feedsBefore text i + 1) s e ∧
      s ≤ i ∧ i ≤ e ∧
      index? text (some (feedsBefore text i + 1)) (some (1 + (i - s : Nat))) = some ↑i := by
  refine ⟨fun l => exists_lineSpan_iff, fun l s e s' e' h h' => h.unique h',
    fun line column => index?_eq_none_iff, ?_, ?_, ?_⟩
  · intro l s e h column
    refine ⟨_, index?_of_lineSpan h column, rfl, ?_⟩
    intro hcolumn
    have hordered := h.ordered
    have hpos : 1 ≤ countedColumn column := by
      unfold countedColumn
      cases column with
      | none => decide
      | some c =>
          have := hcolumn c rfl
          rw [Option.getD_some]
          split <;> omega
    omega
  · intro l c i l' c' i' hc' hi hi' h
    exact index?_mono hc' hi hi' h
  · intro i hi
    have hle := feedsBefore_le text i
    obtain ⟨s, e, h⟩ := exists_lineSpan_iff.mpr
      (show 1 ≤ (feedsBefore text i : Int) + 1 ∧
        (feedsBefore text i : Int) + 1 ≤ (text.count '\n' : Int) + 1 by omega)
    obtain ⟨hlo, hhi⟩ := h.within hi rfl
    refine ⟨s, e, h, hlo, hhi, ?_⟩
    rw [index?_of_lineSpan h, Option.some.injEq, countedColumn, Option.getD_some]
    split <;> omega

/-- A column behind the end of an empty line has the index of that line, and the end of the text has
a line and a column of its own. -/
theorem index?_exact_empty_line :
    let text := "ab\n\nc".toList
    LineSpan text 2 3 3 ∧ index? text (some 2) (some 7) = some 3 ∧
      ∃ s e, LineSpan text 3 s e ∧ s ≤ 5 ∧ 5 ≤ e ∧
        index? text (some 3) (some (1 + (5 - s : Nat))) = some 5 := by
  intro text
  have hspan : LineSpan text 2 3 3 := by
    constructor
    case number => decide
    case starts => decide
    case ordered => decide
    case stops => decide
    case unbroken => intro i hlo hhi; omega
  obtain ⟨-, -, -, hindex, -, hcounted⟩ := index?_exact text
  obtain ⟨i, hi, rfl, -⟩ := hindex 2 3 3 hspan (some 7)
  exact ⟨hspan, hi, hcounted 5 (by decide)⟩

end CodeListing
