import CodeListing.Proofs.Text.Pieces
import CodeListing.Text.Context

/-! # What a window shows

The window around an index in a line shows that line, with its number and the column of the index
(`window?_of_line`); where an empty piece ends the text there is no line, and no window either
(`window?_at_end`).

All lines of a window have a gutter of the same width, with a mark behind it (`markOf`), so the
marks tell the lines apart: `>>` for the marked line, `::` for those without a number and `||` for
the lines around it (`markOf_row`, `markOf_around`).  What is written behind
the gutter of the marked line and behind the blanks of a pointer starts at the same place up to the
column (`length_indent`).  So what is shown of a window marks its line and points to its column
(`Window.marks_render`). -/

namespace CodeListing

/-! ### Finding the window -/

theorem windowFrom?_of_getElem? {loc : Int} {ls : List (List Char)} {l : List Char} {k : Nat}
    (hl : ls[k]? = some l) :
    ∀ (passed : List (List Char)) (start : Nat), (start + extent (ls.take k) : Nat) ≤ loc →
      loc ≤ (start + extent (ls.take k) + l.length : Nat) →
      windowFrom? loc passed start ls = some {
        before := (((ls.take k).reverse ++ passed).take contextLines).reverse
        number := passed.length + k + 1
        line := l
        column := (loc - (start + extent (ls.take k) : Nat)).toNat
        after := (ls.drop (k + 1)).take contextLines } := by
  induction ls generalizing k with
  | nil => cases hl
  | cons m ms ih =>
      intro passed start hlo hhi
      cases k with
      | zero =>
          obtain rfl : m = l := Option.some.inj hl
          simp only [List.take_zero, extent_nil, Nat.add_zero] at hlo hhi
          rw [windowFrom?, if_pos ⟨hlo, by omega⟩]
          simp
      | succ k =>
          have hms : ms[k]? = some l := hl
          simp only [List.take_succ_cons, extent_cons] at hlo hhi ⊢
          rw [windowFrom?, if_neg (by omega), ih hms _ _ (by omega) (by omega)]
          simp only [List.reverse_cons, List.append_assoc, List.singleton_append, List.length_cons,
            List.drop_succ_cons]
          congr 2 <;> omega

theorem windowFrom?_eq_none {loc : Int} {ls : List (List Char)} :
    ∀ {passed : List (List Char)} {start : Nat}, (start + extent ls : Nat) ≤ loc →
      windowFrom? loc passed start ls = none := by
  induction ls with
  | nil => intros; rfl
  | cons l ls ih =>
      intro passed start h
      rw [extent_cons] at h
      rw [windowFrom?, if_neg (by omega)]
      exact ih (by omega)

section
variable {text p : List Char} {k : Nat} {loc : Int}

theorem window?_of_line (hp : (pieces text)[k]? = some p) (hk : k < (lines text).length)
    (hlo : (extent ((pieces text).take k) : Nat) ≤ loc)
    (hhi : loc ≤ (extent ((pieces text).take k) + p.length : Nat)) :
    window? text loc = some {
      before := (((lines text).take k).reverse.take contextLines).reverse
      number := k + 1
      line := p
      column := (loc - extent ((pieces text).take k)).toNat
      after := ((lines text).drop (k + 1)).take contextLines } := by
  have htake := take_lines hk
  have hwin := @windowFrom?_of_getElem? loc _ _ _ ((getElem?_lines hk).trans hp) [] 0
  simp only [htake, Nat.zero_add, List.append_nil, List.length_nil] at hwin
  rw [window?, hwin hlo hhi, htake]

theorem window?_at_end (hp : (pieces text)[k]? = some p) (hk : (lines text).length ≤ k)
    (hlo : (extent ((pieces text).take k) : Nat) ≤ loc) : window? text loc = none := by
  rw [window?, lines_of_length_le hp hk]
  exact windowFrom?_eq_none (by omega)

end

/-! ### Showing the window -/

/-- The mark behind a gutter of a width. -/
def markOf (width : Nat) (line : String) : List Char := (line.toList.drop (width + 2)).take 2

namespace Window
variable (w : Window)

/-- What stands before the text of a line. -/
def margin (mark : String) (number : Nat) : List Char :=
  ' ' :: (Numeral.natural number).leftpad w.gutter ' ' ++ ' ' :: mark.toList ++ [' ', ' ']

/-- What stands before the text of a pointer. -/
def indent : List Char :=
  List.replicate w.gutter ' ' ++ [' ', ' ', ':', ':', ' '] ++ List.replicate (w.column + 1) ' '

theorem toList_row (mark : String) (number : Nat) (line : List Char) :
    (w.row mark number line).toList = w.margin mark number ++ line := by
  simp [row, margin]

theorem toList_pointer (text : String) : (w.pointer text).toList = w.indent ++ text.toList := by
  simp [pointer, indent]

theorem head?_of_mem_render {message line : String} (h : line ∈ w.render message) :
    line.toList.head? = some ' ' := by
  have hpointer : ∀ text, (w.pointer text).toList.head? = some ' ' := by
    intro text
    rw [toList_pointer, indent]
    cases w.gutter <;> simp [List.replicate_succ]
  have hrow : ∀ mark n l, (w.row mark n l).toList.head? = some ' ' := by
    intro mark n l
    simp [toList_row, margin]
  have hrows : ∀ mark ls n, ∀ line ∈ w.rows mark n ls, line.toList.head? = some ' ' := by
    intro mark ls
    induction ls with
    | nil => simp [rows]
    | cons l ls ih =>
        intro n line hline
        rcases List.mem_cons.mp hline with rfl | hline
        · exact hrow ..
        · exact ih _ line hline
  simp only [render, leading, upper, trailing, List.mem_append, List.mem_cons, List.not_mem_nil,
    or_false] at h
  rcases h with ((h | rfl) | rfl) | (rfl | rfl) | h
  · exact hrows _ _ _ _ h
  · exact hrow ..
  · exact hpointer _
  · exact hpointer _
  · simp only [String.toList_append, String.toList_ofList]
    cases w.gutter <;> simp [List.replicate_succ]
  · exact hrows _ _ _ _ h

/-- A number up to the last one that may be shown has the width of the gutter at most. -/
theorem length_natural_le {number : Nat} (h : number ≤ w.number + contextLines) :
    (Numeral.natural number).length ≤ w.gutter := by
  unfold gutter
  rw [Numeral.natural_eq_toDigits, Numeral.natural_eq_toDigits,
    Nat.length_toDigits_le_iff (by decide) Nat.length_toDigits_pos]
  refine Nat.lt_of_le_of_lt h ?_
  exact (Nat.length_toDigits_le_iff (by decide) Nat.length_toDigits_pos).mp (Nat.le_refl _)

section
variable {number : Nat} (h : number ≤ w.number + contextLines)
include h

theorem length_padded : ((Numeral.natural number).leftpad w.gutter ' ').length = w.gutter := by
  rw [List.length_leftpad, Nat.max_eq_left (w.length_natural_le h)]

theorem length_margin {mark : String} (hmark : mark.toList.length = 2) :
    (w.margin mark number).length = w.gutter + 6 := by
  simp only [margin, List.length_append, List.length_cons, w.length_padded h, hmark,
    List.length_nil]

theorem markOf_row {mark : String} (hmark : mark.toList.length = 2) (line : List Char) :
    markOf w.gutter (w.row mark number line) = mark.toList := by
  have hlen : (' ' :: (Numeral.natural number).leftpad w.gutter ' ' ++ [' ']).length =
      w.gutter + 2 := by
    simp only [List.length_append, List.length_cons, w.length_padded h, List.length_nil]
  have hsplit : (w.row mark number line).toList =
      (' ' :: (Numeral.natural number).leftpad w.gutter ' ' ++ [' ']) ++
        (mark.toList ++ ([' ', ' '] ++ line)) := by
    simp [toList_row, margin]
  rw [markOf, hsplit, ← hlen, List.drop_left, ← hmark, List.take_left]

end

theorem length_indent : w.indent.length = w.gutter + 6 + w.column := by
  simp only [indent, List.length_append, List.length_replicate, List.length_cons, List.length_nil]
  omega

theorem markOf_pointer (text : String) : markOf w.gutter (w.pointer text) = [':', ':'] := by
  have hlen : (List.replicate w.gutter ' ' ++ [' ', ' ']).length = w.gutter + 2 := by simp
  have hsplit : (w.pointer text).toList = (List.replicate w.gutter ' ' ++ [' ', ' ']) ++
      ([':', ':'] ++ (' ' :: List.replicate (w.column + 1) ' ' ++ text.toList)) := by
    simp [toList_pointer, indent]
  rw [markOf, hsplit, ← hlen, List.drop_left]
  rfl

theorem markOf_bare :
    markOf w.gutter (String.ofList (List.replicate w.gutter ' ') ++ "  :: ") = [':', ':'] := by
  have hlen : (List.replicate w.gutter ' ' ++ [' ', ' ']).length = w.gutter + 2 := by simp
  have hsplit : (String.ofList (List.replicate w.gutter ' ') ++ "  :: ").toList =
      (List.replicate w.gutter ' ' ++ [' ', ' ']) ++ [':', ':', ' '] := by
    simp
  rw [markOf, hsplit, ← hlen, List.drop_left]
  rfl

theorem markOf_of_mem_rows {mark line : String} (hmark : mark.toList.length = 2)
    {ls : List (List Char)} {n : Nat} (hn : n + ls.length ≤ w.number + contextLines + 1)
    (h : line ∈ w.rows mark n ls) : markOf w.gutter line = mark.toList := by
  induction ls generalizing n with
  | nil => cases h
  | cons l ls ih =>
      rw [List.length_cons] at hn
      rcases List.mem_cons.mp h with rfl | h
      · exact w.markOf_row (by omega) hmark l
      · exact ih (by omega) h

section
variable (hbefore : w.before.length ≤ contextLines) (hafter : w.after.length ≤ contextLines)
include hbefore hafter

/-- The lines around the one that a window is about have other marks. -/
theorem markOf_around {message other : String}
    (h : other ∈ w.rows "||" (w.number - w.before.length) w.before ++ w.pointer "^" ::
      w.pointer message :: (String.ofList (List.replicate w.gutter ' ') ++ "  :: ") ::
      w.rows "||" (w.number + 1) w.after) :
    markOf w.gutter other = ['|', '|'] ∨ markOf w.gutter other = [':', ':'] := by
  rcases List.mem_append.mp h with h | h
  · left
    exact w.markOf_of_mem_rows rfl (by omega) h
  rcases List.mem_cons.mp h with rfl | h
  · right
    exact w.markOf_pointer _
  rcases List.mem_cons.mp h with rfl | h
  · right
    exact w.markOf_pointer _
  rcases List.mem_cons.mp h with rfl | h
  · right
    exact w.markOf_bare
  · left
    exact w.markOf_of_mem_rows rfl (by omega) h

end

end Window

/-- One of some lines, and no other, is marked `>>`, and it shows a line with its number.  Below it
a caret stands under a column, counted from one, and below the caret a message at the same column.
-/
def Marks (shown : List String) (number : Nat) (line : List Char) (column : Nat)
    (message : String) : Prop :=
  ∃ (width : Nat) (above below : List String) (row caret note : String) (margin indent : List Char),
    shown = above ++ row :: caret :: note :: below ∧
    (∀ other ∈ above ++ caret :: note :: below, markOf width other ≠ ['>', '>']) ∧
    margin = ' ' :: (Nat.toDigits 10 number).leftpad width ' ' ++ [' ', '>', '>', ' ', ' '] ∧
    row.toList = margin ++ line ∧
    indent = List.replicate width ' ' ++ [' ', ' ', ':', ':', ' '] ++ List.replicate column ' ' ∧
    indent.length + 1 = margin.length + column ∧
    caret.toList = indent ++ ['^'] ∧
    note.toList = indent ++ message.toList

theorem not_marks_nil (number : Nat) (line : List Char) (column : Nat) (message : String) :
    ¬ Marks [] number line column message := by
  rintro ⟨width, above, below, row, caret, note, margin, indent, hshown, -⟩
  simp at hshown

/-- What is shown of a window marks its line and points to its column. -/
theorem Window.marks_render (w : Window) (message : String)
    (hbefore : w.before.length ≤ contextLines) (hafter : w.after.length ≤ contextLines) :
    Marks (w.render message) w.number w.line (w.column + 1) message := by
  refine ⟨w.gutter, w.rows "||" (w.number - w.before.length) w.before,
    (String.ofList (List.replicate w.gutter ' ') ++ "  :: ") :: w.rows "||" (w.number + 1) w.after,
    w.row ">>" w.number w.line, w.pointer "^", w.pointer message, w.margin ">>" w.number, w.indent,
    ?_, ?_, ?_, w.toList_row .., rfl, ?_, w.toList_pointer _, w.toList_pointer _⟩
  · simp [render, leading, upper, trailing]
  · intro other hother
    rcases w.markOf_around hbefore hafter hother with h | h
    · rw [h]
      decide
    · rw [h]
      decide
  · rw [margin, Numeral.natural_eq_toDigits]
    simp
  · have hmargin : (w.margin ">>" w.number).length = w.gutter + 6 :=
      w.length_margin (Nat.le_add_right ..) rfl
    rw [hmargin, length_indent]
    omega

end CodeListing
