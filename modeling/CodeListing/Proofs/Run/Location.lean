import CodeListing.Proofs.Backend.Outcome
import CodeListing.Proofs.Run.Output

/-! # Errors shown at their lines

A diagnostic with a line and a column that have an index in the source is shown at that line
(`run_marks_placed_error`), unless the line is the empty piece that ends the source: that piece has
an index but no window.  The column is counted from one; an absent column and the column zero mean
the first one, and a column past the end of the line means the one behind its last character. -/

namespace CodeListing

/-- The column of a line at which an error is shown. -/
def shownColumn (column : Option Nat) (line : List Char) : Nat :=
  min (max (column.getD 1) 1) (line.length + 1)

section
variable {text : List Char} {line : Int} {column : Option Nat} {i : Int}

theorem index?_eq_some (h : index? text (some line) (column.map Int.ofNat) = some i) :
    ∃ (k : Nat) (p : List Char), line = k + 1 ∧ (pieces text)[k]? = some p ∧
      i + 1 = (extent ((pieces text).take k) + shownColumn column p : Nat) := by
  obtain ⟨span, hspan, hi⟩ := Option.bind_eq_some_iff.mp h
  obtain ⟨k, p, hk, hp, rfl⟩ := lineSpan?_eq_some hspan
  refine ⟨k, p, hk, hp, ?_⟩
  have hwithin := Option.some.inj hi
  cases column with
  | none =>
      simp only [indexWithin, Option.map_none] at hwithin
      simp only [shownColumn, Option.getD_none]
      omega
  | some n =>
      simp only [indexWithin, Option.map_some, Int.ofNat_eq_natCast] at hwithin
      simp only [shownColumn, Option.getD_some]
      split at hwithin <;> omega

theorem shownColumn_pos (column : Option Nat) (line : List Char) : 0 < shownColumn column line := by
  unfold shownColumn
  omega

theorem shownColumn_le (column : Option Nat) (line : List Char) :
    shownColumn column line ≤ line.length + 1 := Nat.min_le_right ..

/-- An index in a line has a window that marks the line and points to the column. -/
theorem marks_window {p : List Char} {k : Nat} (hp : (pieces text)[k]? = some p)
    (hk : k < (lines text).length)
    (hi : i + 1 = (extent ((pieces text).take k) + shownColumn column p : Nat)) (message : String) :
    Marks (((window? text i).map (·.render message)).getD []) (k + 1) p (shownColumn column p)
      message := by
  have hpos := shownColumn_pos column p
  have hle := shownColumn_le column p
  have hcolumn : (i - extent ((pieces text).take k)).toNat + 1 = shownColumn column p := by omega
  rw [window?_of_line hp hk (by omega) (by omega), ← hcolumn]
  refine Window.marks_render _ message ?_ ?_
  · rw [List.length_reverse]
    exact List.length_take_le ..
  · exact List.length_take_le ..

end

section
variable {host : Host} {fs : FileSystem} {resolver : Resolver} {b : Backend} {c : Configuration}
  {source : Source} {options : Options} {d : Diagnostic} {message : String} {line : Int}
  {column : Option Nat}

/-- **Errors with a place are shown there.**  A backend finds a diagnostic whose line and column
have an index in the source.  Then the run fails with the error it makes of the diagnostic, and what
it says after the announcement marks that line and the column, with the message below, except that
it says nothing if the line is the empty piece at the end of the source. -/
theorem run_marks_placed_error (hload : (loadSource fs resolver c.source).result = .ok source)
    (hlevel : Options.make c.level = .ok options)
    (hcompile : (b.compile host (c.request source options)).result = .error (.diagnosed d))
    (hmessage : d.message = .text message) (hline : d.line.integer? = some line)
    (hcolumn : d.column = .null ∧ column = none ∨
      ∃ n : Nat, d.column.integer? = some ↑n ∧ column = some n)
    (hindex : (index? source.text.toList (some line) (column.map Int.ofNat)).isSome) :
    ∃ (number : Nat) (piece : List Char) (shown : List String),
      line = number ∧ 0 < number ∧ (source.text.toList.splitOn '\n')[number - 1]? = some piece ∧
      (run host fs resolver b c).result = .error (.user (.compilation d)) ∧
      (run host fs resolver b c).said = "Compiling..." :: shown ∧
      (Marks shown number piece (min (max (column.getD 1) 1) (piece.length + 1)) message ↔
        ¬ (number = (source.text.toList.splitOn '\n').length ∧ piece = [])) ∧
      (number = (source.text.toList.splitOn '\n').length ∧ piece = [] → shown = []) := by
  obtain ⟨i, hi⟩ := Option.isSome_iff_exists.mp hindex
  obtain ⟨k, p, hk, hp, hcol⟩ := index?_eq_some hi
  have hpos := shownColumn_pos column p
  have hstart : (extent ((pieces source.text.toList).take k) : Nat) ≤ i := by omega
  have hrun := b.run_of_failed hcompile
  have hcolumn' : d.column = .null ∧ column.map Int.ofNat = none ∨
      ∃ n, d.column.integer? = some n ∧ column.map Int.ofNat = some n := by
    rcases hcolumn with ⟨hnull, rfl⟩ | ⟨n, hn, rfl⟩
    · exact .inl ⟨hnull, rfl⟩
    · exact .inr ⟨n, hn, rfl⟩
  have hexplain := explain_of_placed hline hcolumn' hmessage source.text
  rw [hi] at hexplain
  rw [← pieces_eq_splitOn]
  refine ⟨k + 1, p, ((window? source.text.toList i).map (·.render message)).getD [], hk,
    Nat.succ_pos k, hp, ?_, ?_, ?_, ?_⟩
  · rw [run_of_uncompiled hload hlevel hrun, surfaced, hexplain]
    rfl
  · rw [said_of_uncompiled hload hlevel hrun, surfaced, hexplain, Trace.said_sayAll]
    rfl
  · constructor
    · intro hmarks hnone
      rw [window?_at_end hp ((length_lines_le_iff hp).mpr hnone) hstart] at hmarks
      exact not_marks_nil _ _ _ _ hmarks
    · intro hsome
      have hline : k < (lines source.text.toList).length :=
        Nat.lt_of_not_le fun h => hsome ((length_lines_le_iff hp).mp h)
      exact marks_window hp hline hcol message
  · intro hnone
    rw [window?_at_end hp ((length_lines_le_iff hp).mpr hnone) hstart]
    rfl

end

/-! ### A backend that finds what it is told to -/

/-- A backend that finds the same diagnostic in every source. -/
def Backend.finding (d : Diagnostic) : Backend :=
  ⟨"Finding", "finding", .artifact, .answering fun _ => .error (.diagnosed d)⟩

/-- The last line of this source is empty, and an error far behind its end is shown at its end. -/
theorem run_marks_error_behind_end :
    ∃ shown,
      (run .idle (.single "f" [120, 10, 10]) (fun _ => .ok "/f")
        (.finding ⟨.text "bad", .int 2, .int 7, none⟩) (.plain "f")).said =
          "Compiling..." :: shown ∧
      Marks shown 2 [] 1 "bad" := by
  obtain ⟨number, piece, shown, hnumber, -, hpiece, -, hsaid, hmarks, -⟩ :=
    @run_marks_placed_error .idle (.single "f" [120, 10, 10]) (fun _ => .ok "/f")
      (.finding ⟨.text "bad", .int 2, .int 7, none⟩) (.plain "f") ⟨.ofText "/f", "f", "x\n\n"⟩
      ⟨.number 0, by decide⟩ _ "bad" 2 (some 7) rfl rfl rfl rfl rfl (.inr ⟨7, rfl, rfl⟩) rfl
  obtain rfl : number = 2 := by omega
  obtain rfl : piece = [] := Option.some.inj (hpiece.symm.trans rfl)
  exact ⟨shown, hsaid, hmarks.mpr (by decide)⟩

/-- Behind the last line feed of a source there is an index and nothing that could be shown. -/
theorem run_says_nothing_behind_last_line :
    let d : Diagnostic := ⟨.text "bad", .int 2, .int 1, none⟩
    let t := run .idle (.single "f" [120, 10]) (fun _ => .ok "/f") (.finding d) (.plain "f")
    index? "x\n".toList (some 2) (some 1) = some 2 ∧ t.result = .error (.user (.compilation d)) ∧
      t.said = ["Compiling..."] ∧
      ¬ ∃ number line column, Marks t.said.tail number line column "bad" := by
  refine ⟨rfl, rfl, rfl, ?_⟩
  rintro ⟨number, line, column, hmarks⟩
  exact not_marks_nil _ _ _ _ hmarks

end CodeListing
