import CodeListing.Proofs.Run.Explanation
import CodeListing.Proofs.Text.Window
import CodeListing.Proofs.Trace

/-! # What is shown around an index

An index into a text lies in a line if it is the index of one of its characters or of what ends it,
a line feed or the end of the text (`Spans`).  No index lies in two lines (`Spans.unique`), and only
those before the text and behind its last line lie in none (`exists_spans_iff`).

Around an index in a line that line is shown with the three lines before it and the three behind it,
so far as there are such lines, each with its own number, and below the line a caret and a message
under the index (`Surrounds`).  Around any other index nothing is shown
(`sayPlace_surroundings`). -/

namespace CodeListing

/-! ### The line of an index -/

/-- An index is that of a column of a line, both counted from zero.  The column behind the last
character belongs to the line. -/
structure Spans (ls : List (List Char)) (loc : Int) (k : Nat) (line : List Char) (column : Nat) :
    Prop where
  found : ls[k]? = some line
  index : loc = (extent (ls.take k) + column : Nat)
  within : column ≤ line.length

section
variable {l line line' : List Char} {ls : List (List Char)} {loc : Int} {k k' column column' : Nat}

/-- What lies behind the first line lies in a line of the rest. -/
theorem spans_cons_succ : Spans (l :: ls) loc (k + 1) line column ↔
    Spans ls (loc - (l.length + 1 : Nat)) k line column := by
  constructor
  · rintro ⟨hline, hindex, hwithin⟩
    rw [List.take_succ_cons, extent_cons] at hindex
    exact ⟨hline, by omega, hwithin⟩
  · rintro ⟨hline, hindex, hwithin⟩
    refine ⟨hline, ?_, hwithin⟩
    rw [List.take_succ_cons, extent_cons]
    omega

theorem spans_cons_zero : Spans (l :: ls) loc 0 line column ↔
    l = line ∧ loc = column ∧ column ≤ line.length := by
  constructor
  · rintro ⟨hline, hindex, hwithin⟩
    exact ⟨Option.some.inj hline, by simpa using hindex, hwithin⟩
  · rintro ⟨rfl, hindex, hwithin⟩
    exact ⟨rfl, by simpa using hindex, hwithin⟩

theorem not_spans_nil : ¬ Spans [] loc k line column := by
  rintro ⟨hline, -, -⟩
  simp at hline

theorem Spans.unique (h : Spans ls loc k line column) (h' : Spans ls loc k' line' column') :
    k = k' := by
  induction ls generalizing loc k k' with
  | nil => exact absurd h not_spans_nil
  | cons l ls ih =>
      cases k with
      | zero =>
          obtain ⟨rfl, hindex, hwithin⟩ := spans_cons_zero.mp h
          cases k' with
          | zero => rfl
          | succ k' =>
              obtain ⟨-, hindex', -⟩ := spans_cons_succ.mp h'
              omega
      | succ k =>
          cases k' with
          | zero =>
              obtain ⟨-, hindex, -⟩ := spans_cons_succ.mp h
              obtain ⟨rfl, hindex', hwithin'⟩ := spans_cons_zero.mp h'
              omega
          | succ k' => rw [ih (spans_cons_succ.mp h) (spans_cons_succ.mp h')]

/-- The indices that lie in lines are those up to the end of the last line. -/
theorem exists_spans_iff :
    (∃ k line column, Spans ls loc k line column) ↔ 0 ≤ loc ∧ loc < extent ls := by
  induction ls generalizing loc with
  | nil =>
      constructor
      · rintro ⟨k, line, column, h⟩
        exact absurd h not_spans_nil
      · rintro ⟨hlo, hhi⟩
        rw [extent_nil] at hhi
        omega
  | cons l ls ih =>
      rw [extent_cons]
      constructor
      · rintro ⟨k, line, column, h⟩
        cases k with
        | zero =>
            obtain ⟨rfl, hindex, hwithin⟩ := spans_cons_zero.mp h
            omega
        | succ k =>
            have hrest := ih.mp ⟨k, line, column, spans_cons_succ.mp h⟩
            omega
      · rintro ⟨hlo, hhi⟩
        by_cases hfirst : loc ≤ l.length
        · exact ⟨0, l, loc.toNat, spans_cons_zero.mpr ⟨rfl, by omega, by omega⟩⟩
        · obtain ⟨k, line, column, h⟩ := ih.mpr (show 0 ≤ loc - (l.length + 1 : Nat) ∧
            loc - (l.length + 1 : Nat) < extent ls by omega)
          exact ⟨k + 1, line, column, spans_cons_succ.mpr h⟩

end

/-! ### The window of an index -/

theorem windowFrom?_eq_none_of_lt {loc : Int} {ls passed : List (List Char)} {start : Nat}
    (h : loc < start) : windowFrom? loc passed start ls = none := by
  induction ls generalizing passed start with
  | nil => rfl
  | cons l ls ih =>
      rw [windowFrom?, if_neg (by omega)]
      exact ih (by omega)

section
variable {text line : List Char} {loc : Int} {k column : Nat}

/-- The window around an index that lies in a line. -/
theorem window?_of_spans (h : Spans (lines text) loc k line column) :
    window? text loc = some {
      before := ((lines text).take k).drop (k - contextLines)
      number := k + 1
      line := line
      column := column
      after := ((lines text).drop (k + 1)).take contextLines } := by
  obtain ⟨hfound, hindex, hwithin⟩ := h
  have hk : k < (lines text).length := (List.getElem?_eq_some_iff.mp hfound).1
  have htake : ((lines text).take k).length = k := by
    rw [List.length_take]
    omega
  rw [window?, windowFrom?_of_getElem? hfound [] 0 (by omega) (by omega)]
  simp only [List.append_nil, List.length_nil, Nat.zero_add, Option.some.injEq, Window.mk.injEq,
    and_true, true_and]
  constructor
  · rw [List.take_reverse, List.reverse_reverse, htake]
  · omega

theorem window?_of_not_spans (h : ¬ ∃ k line column, Spans (lines text) loc k line column) :
    window? text loc = none := by
  rw [exists_spans_iff] at h
  unfold window?
  by_cases hlo : loc < 0
  · exact windowFrom?_eq_none_of_lt hlo
  · exact windowFrom?_eq_none (by omega)

end

/-! ### What is shown -/

/-- What stands before the text of a line: its number, right-aligned to a width, and a mark. -/
def shownMargin (width : Nat) (mark : String) (number : Nat) : String :=
  " " ++ String.ofList ((Nat.toDigits 10 number).leftpad width ' ') ++ " " ++ mark ++ "  "

/-- A line with its number as it is shown. -/
def shownLine (width : Nat) (mark : String) (numbered : List Char × Nat) : String :=
  shownMargin width mark numbered.2 ++ String.ofList numbered.1

/-- What is shown for a column of a line, which counts from zero while the lines count from one: the
three lines before, the line itself, a caret and a message under the column, a bare line, and the
three lines behind. -/
def Surrounds (ls : List (List Char)) (number : Nat) (line : List Char) (column : Nat)
    (message : String) (shown : List String) : Prop :=
  ∃ (width : Nat) (bare indent : String),
    width = (Nat.toDigits 10 (number + 3)).length ∧
    bare = String.ofList (List.replicate width ' ') ++ "  :: " ∧
    indent = bare ++ String.ofList (List.replicate (column + 1) ' ') ∧
    indent.length = (shownMargin width ">>" number).length + column ∧
    shown =
      ((ls.zipIdx 1).filter fun l => number ≤ l.2 + 3 ∧ l.2 < number).map (shownLine width "||") ++
      [shownLine width ">>" (line, number), indent ++ "^", indent ++ message, bare] ++
      ((ls.zipIdx 1).filter fun l => number < l.2 ∧ l.2 ≤ number + 3).map (shownLine width "||")

/-- Of elements with their numbers, those in the middle are chosen by their numbers. -/
theorem filter_zipIdx {α : Type} {xs ys zs : List α} {i : Nat} {p : Nat → Bool}
    (hx : ∀ n, i ≤ n → n < i + xs.length → p n = false)
    (hy : ∀ n, i + xs.length ≤ n → n < i + xs.length + ys.length → p n = true)
    (hz : ∀ n, i + xs.length + ys.length ≤ n → n < i + xs.length + ys.length + zs.length →
      p n = false) :
    ((xs ++ ys ++ zs).zipIdx i).filter (fun l => p l.2) = ys.zipIdx (i + xs.length) := by
  have hbefore : (xs.zipIdx i).filter (fun l => p l.2) = [] := by
    rw [List.filter_eq_nil_iff]
    intro l hl
    rw [hx l.2 (List.le_snd_of_mem_zipIdx hl) (List.snd_lt_add_of_mem_zipIdx hl)]
    exact Bool.false_ne_true
  have hwithin : (ys.zipIdx (i + xs.length)).filter (fun l => p l.2) =
      ys.zipIdx (i + xs.length) := by
    rw [List.filter_eq_self]
    intro l hl
    exact hy l.2 (List.le_snd_of_mem_zipIdx hl) (List.snd_lt_add_of_mem_zipIdx hl)
  have hbehind : (zs.zipIdx (i + xs.length + ys.length)).filter (fun l => p l.2) = [] := by
    rw [List.filter_eq_nil_iff]
    intro l hl
    rw [hz l.2 (List.le_snd_of_mem_zipIdx hl) (List.snd_lt_add_of_mem_zipIdx hl)]
    exact Bool.false_ne_true
  rw [List.zipIdx_append, List.zipIdx_append, List.filter_append, List.filter_append,
    List.length_append, ← Nat.add_assoc, hbefore, hwithin, hbehind, List.nil_append,
    List.append_nil]

section
variable {α : Type} {xs : List α} {k : Nat} (hk : k < xs.length)
include hk

/-- The elements before one, as far as three back, have the numbers before its own. -/
theorem filter_before : (xs.zipIdx 1).filter (fun l => k + 1 ≤ l.2 + 3 ∧ l.2 < k + 1) =
    ((xs.take k).drop (k - 3)).zipIdx (k + 1 - (k - (k - 3))) := by
  have hsplit : xs = xs.take (k - 3) ++ (xs.take k).drop (k - 3) ++ xs.drop k := by
    have htake : xs.take (k - 3) = (xs.take k).take (k - 3) := by
      rw [List.take_take, Nat.min_eq_left (Nat.sub_le k 3)]
    rw [htake, List.take_append_drop, List.take_append_drop]
  have hbefore : (xs.take (k - 3)).length = k - 3 := by
    rw [List.length_take]
    omega
  have hwithin : ((xs.take k).drop (k - 3)).length = k - (k - 3) := by
    rw [List.length_drop, List.length_take]
    omega
  have hstart : k + 1 - (k - (k - 3)) = 1 + (xs.take (k - 3)).length := by omega
  conv_lhs => rw [hsplit]
  rw [hstart]
  apply filter_zipIdx (p := fun n => decide (k + 1 ≤ n + 3 ∧ n < k + 1))
  · intro n hlo hhi
    rw [decide_eq_false_iff_not]
    omega
  · intro n hlo hhi
    rw [decide_eq_true_iff]
    omega
  · intro n hlo hhi
    rw [decide_eq_false_iff_not]
    omega

theorem filter_behind : (xs.zipIdx 1).filter (fun l => k + 1 < l.2 ∧ l.2 ≤ k + 1 + 3) =
    ((xs.drop (k + 1)).take 3).zipIdx (k + 1 + 1) := by
  have hsplit : xs = xs.take (k + 1) ++ (xs.drop (k + 1)).take 3 ++ (xs.drop (k + 1)).drop 3 := by
    rw [List.append_assoc, List.take_append_drop, List.take_append_drop]
  have hbefore : (xs.take (k + 1)).length = k + 1 := by
    rw [List.length_take]
    omega
  have hwithin : ((xs.drop (k + 1)).take 3).length = min 3 (xs.length - (k + 1)) := by
    rw [List.length_take, List.length_drop]
  have hbehind : ((xs.drop (k + 1)).drop 3).length = xs.length - (k + 1) - 3 := by
    rw [List.length_drop, List.length_drop]
  have hstart : k + 1 + 1 = 1 + (xs.take (k + 1)).length := by omega
  conv_lhs => rw [hsplit]
  rw [hstart]
  apply filter_zipIdx (p := fun n => decide (k + 1 < n ∧ n ≤ k + 1 + 3))
  · intro n hlo hhi
    rw [decide_eq_false_iff_not]
    omega
  · intro n hlo hhi
    rw [decide_eq_true_iff]
    omega
  · intro n hlo hhi
    rw [decide_eq_false_iff_not]
    omega

end

namespace Window
variable (w : Window)

theorem row_eq (mark : String) (number : Nat) (line : List Char) :
    w.row mark number line = shownLine w.gutter mark (line, number) := by
  apply String.toList_inj.mp
  rw [toList_row, margin, Numeral.natural_eq_toDigits]
  simp [shownLine, shownMargin]

theorem rows_eq (mark : String) (number : Nat) (ls : List (List Char)) :
    w.rows mark number ls = (ls.zipIdx number).map (shownLine w.gutter mark) := by
  induction ls generalizing number with
  | nil => rfl
  | cons l ls ih => rw [rows, ih, row_eq, List.zipIdx_cons, List.map_cons]

theorem gutter_eq : w.gutter = (Nat.toDigits 10 (w.number + 3)).length := by
  rw [gutter, Numeral.natural_eq_toDigits, contextLines]

/-- What is rendered of a window shows the lines around its own, if it has these lines. -/
theorem surrounds_render {ls : List (List Char)} (message : String)
    (hbefore : ((ls.zipIdx 1).filter fun l => w.number ≤ l.2 + 3 ∧ l.2 < w.number) =
      w.before.zipIdx (w.number - w.before.length))
    (hafter : ((ls.zipIdx 1).filter fun l => w.number < l.2 ∧ l.2 ≤ w.number + 3) =
      w.after.zipIdx (w.number + 1)) :
    Surrounds ls w.number w.line w.column message (w.render message) := by
  refine ⟨w.gutter, _, _, w.gutter_eq, rfl, rfl, ?_, ?_⟩
  · -- a margin is as wide as the gutter and the mark ask for, whatever the number is
    have hdigits : ((Nat.toDigits 10 w.number).leftpad w.gutter ' ').length = w.gutter := by
      rw [← Numeral.natural_eq_toDigits]
      exact w.length_padded (Nat.le_add_right ..)
    simp only [shownMargin, String.length_append, String.length_ofList, hdigits,
      List.length_replicate]
    have hmark : ">>".length = 2 := rfl
    have hblank : " ".length = 1 := rfl
    have hblanks : "  ".length = 2 := rfl
    have hbare : "  :: ".length = 5 := rfl
    omega
  · rw [hbefore, hafter, ← rows_eq, ← rows_eq, ← row_eq]
    simp only [render, leading, trailing, upper, pointer, List.append_assoc, List.cons_append,
      List.nil_append]

end Window

theorem surrounds_of_spans {text line : List Char} {loc : Int} {k column : Nat}
    (h : Spans (lines text) loc k line column) (message : String) :
    Surrounds (lines text) (k + 1) line column message
      (sayPlace text (.index loc) (.text message)).said := by
  have hk : k < (lines text).length := (List.getElem?_eq_some_iff.mp h.found).1
  have hbefore : (((lines text).take k).drop (k - 3)).length = k - (k - 3) := by
    rw [List.length_drop, List.length_take]
    omega
  rw [sayPlace_index, Trace.said_sayAll, window?_of_spans h, Option.map_some, Option.getD_some]
  refine Window.surrounds_render ⟨_, k + 1, line, column, _⟩ message ?_ ?_
  · dsimp only
    rw [filter_before hk, contextLines, hbefore]
  · dsimp only
    rw [filter_behind hk, contextLines]

/-- **The surroundings of an index.**  The lines of a text are the pieces between its line feeds,
but for an empty one at the end, and each stands in the text where it starts, with a line feed or
nothing behind it.  An index lies in one line at most; it lies in none if it is negative, past the
end, or at the end of a text that is empty or ends in a line feed.  Messages are said about an index
and nothing else is done: if it lies in a line they show its surroundings, and otherwise there are
none. -/
theorem sayPlace_surroundings (text : String) (loc : Int) (message : String) :
    let ls := lines text.toList
    let t := sayPlace text.toList (.index loc) (.text message)
    (ls = if (text.toList.splitOn '\n').getLast? = some [] then
        (text.toList.splitOn '\n').dropLast else text.toList.splitOn '\n') ∧
    (∀ k line, ls[k]? = some line → ∃ rest,
      text.toList.drop (extent (ls.take k)) = line ++ rest ∧
        (rest = [] ∨ rest.head? = some '\n')) ∧
    (∀ k k' line line' column column', Spans ls loc k line column →
      Spans ls loc k' line' column' → k = k') ∧
    ((∃ k line column, Spans ls loc k line column) ↔ 0 ≤ loc ∧ (loc < text.length ∨
      loc = text.length ∧ ¬ (text = "" ∨ text.toList.getLast? = some '\n'))) ∧
    t.result = .ok () ∧ t.events = t.said.map .message ∧
    (∀ k line column, Spans ls loc k line column →
      Surrounds ls (k + 1) line column message t.said) ∧
    ((¬ ∃ k line column, Spans ls loc k line column) → t.said = []) := by
  intro ls t
  have ht : t = Trace.sayAll (((window? text.toList loc).map (·.render message)).getD []) :=
    sayPlace_index text.toList loc message
  refine ⟨lines_eq_splitOn _, fun k line h => drop_extent_lines h,
    fun k k' _ _ _ _ h h' => h.unique h', ?_, ?_, ?_, ?_, ?_⟩
  · have hempty : text.toList = [] ↔ text = "" := String.toList_eq_nil_iff
    rw [exists_spans_iff, extent_lines, String.length_toList, ← hempty]
    split
    · next hend =>
        simp only [hend, not_true_eq_false, and_false, or_false]
        omega
    · next hend =>
        simp only [hend, not_false_eq_true, and_true]
        omega
  · rw [ht]
    rfl
  · rw [ht, Trace.said_sayAll]
    rfl
  · intro k line column h
    exact surrounds_of_spans h message
  · intro h
    rw [ht, Trace.said_sayAll, window?_of_not_spans h]
    rfl

/-- The second of two lines is shown around an index in it. -/
theorem sayPlace_surroundings_second :
    let text := "a = 1\nb = (\n"
    Spans (lines text.toList) 10 1 "b = (".toList 4 ∧
      Surrounds (lines text.toList) 2 "b = (".toList 4 "Bad"
        (sayPlace text.toList (.index 10) (.text "Bad")).said := by
  intro text
  have hspans : Spans (lines text.toList) 10 1 "b = (".toList 4 := by
    constructor <;> decide
  obtain ⟨-, -, -, -, -, -, hsurrounds, -⟩ := sayPlace_surroundings text 10 "Bad"
  exact ⟨hspans, hsurrounds 1 _ 4 hspans⟩

end CodeListing
