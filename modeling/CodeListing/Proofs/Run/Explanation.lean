import CodeListing.Proofs.Backend.Outcome
import CodeListing.Proofs.Run.Stages
import CodeListing.Proofs.Text.Window

/-! # What explains an error

An explanation says lines of one window and does nothing else (`mem_events_explain`).  About an
index all lines of its window are said, and nothing if it has none (`sayPlace_index`), and so they
are about an error whose line and column have an index in the source (`explain_of_placed`).  An
error whose line and column are counted or absent is explained without a further failure
(`explain_result_of_isCount`). -/

namespace CodeListing

theorem mem_events_sayWindow {w : Window} {message : Value} {e : Event}
    (h : e ∈ (sayWindow w message).events) : ∃ text, ∃ line ∈ w.render text, e = .message line := by
  cases message with
  | text s =>
      obtain ⟨line, hline, rfl⟩ := List.mem_map.mp h
      exact ⟨s, line, hline, rfl⟩
  | _ =>
      rcases Trace.mem_events_bind h with h | ⟨_, -, h⟩
      · obtain ⟨line, hline, rfl⟩ := List.mem_map.mp h
        exact ⟨"", line, List.mem_append_left _ hline, rfl⟩
      · cases h

theorem mem_events_sayPlace {text : List Char} {place : Place} {message : Value} {e : Event}
    (h : e ∈ (sayPlace text place message).events) :
    ∃ w : Window, ∃ s, ∃ line ∈ w.render s, e = .message line := by
  unfold sayPlace at h
  split at h
  · cases h
  · next w _ => exact ⟨w, mem_events_sayWindow h⟩
  · next w _ =>
      rcases Trace.mem_events_bind h with h | ⟨_, -, h⟩
      · obtain ⟨line, hline, rfl⟩ := List.mem_map.mp h
        exact ⟨w, "", line, List.mem_append_left _ (List.mem_append_left _ hline), rfl⟩
      · cases h

theorem mem_events_explain {source : String} {failure : Failure} {e : Event}
    (h : e ∈ (explain source failure).events) :
    ∃ w : Window, ∃ s, ∃ line ∈ w.render s, e = .message line := by
  unfold explain at h
  split at h
  · rcases Trace.mem_events_bind h with h | ⟨place?, -, h⟩
    · cases h
    · cases place? with
      | none => cases h
      | some place => exact mem_events_sayPlace h
  · cases h

/-! ### Errors with a place -/

theorem lineNumber_of_integer? {v : Value} {n : Int} (h : v.integer? = some n) :
    lineNumber v = .ok (some n) := by
  cases v with
  | truth b => simp [lineNumber, h]
  | int n => simp [lineNumber, h]
  | _ => cases h

theorem placeWithin_of_integer? {column : Value} {n : Int} (h : column.integer? = some n)
    (span : Nat × Nat) : placeWithin span column = .ok (.index (indexWithin span (some n))) := by
  simp only [placeWithin, h]

theorem placeWithin_null (span : Nat × Nat) :
    placeWithin span .null = .ok (.index (indexWithin span none)) := by
  simp [placeWithin, Value.integer?, Value.isEmpty]

/-- What is said about an index is what its window shows, if it has one. -/
theorem sayPlace_index (text : List Char) (loc : Int) (message : String) :
    sayPlace text (.index loc) (.text message) =
      Trace.sayAll (((window? text loc).map (·.render message)).getD []) := by
  unfold sayPlace
  rw [Place.window?_index]
  cases window? text loc <;> rfl

section
variable {d : Diagnostic} {line : Int} {column : Option Int}
  (hline : d.line.integer? = some line)
  (hcolumn : d.column = .null ∧ column = none ∨ ∃ n, d.column.integer? = some n ∧ column = some n)
include hline hcolumn

theorem placeIn_eq_index? (source : List Char) :
    d.placeIn source = .ok ((index? source (some line) column).map .index) := by
  have hwithin : ∀ span, placeWithin span d.column = .ok (.index (indexWithin span column)) := by
    intro span
    rcases hcolumn with ⟨hnull, rfl⟩ | ⟨n, hn, rfl⟩
    · rw [hnull]
      exact placeWithin_null span
    · exact placeWithin_of_integer? hn span
  unfold Diagnostic.placeIn placeOf
  rw [lineNumber_of_integer? hline]
  cases hspan : lineSpan? source line with
  | none => simp [index?, hspan, bind, Except.bind, pure, Except.pure]
  | some span => simp [index?, hspan, hwithin, bind, Except.bind, pure, Except.pure]

/-- The lines of the window around its index explain an error. -/
theorem explain_of_placed {message : String} (hmessage : d.message = .text message)
    (source : String) :
    explain source (.user (.compilation d)) =
      Trace.sayAll ((((index? source.toList (some line) column).bind (window? source.toList)).map
        (·.render message)).getD []) := by
  have hplace : (Trace.ofExcept ((d.placeIn source.toList).mapError Failure.foreign)).result =
      .ok ((index? source.toList (some line) column).map .index) := by
    rw [placeIn_eq_index? hline hcolumn]
    rfl
  show (Trace.ofExcept _ >>= _) = _
  rw [Trace.bind_of_ok hplace]
  cases index? source.toList (some line) column with
  | none => rfl
  | some i =>
      simp only [Trace.ofExcept_events, List.nil_append, Option.map_some, Option.bind_some,
        hmessage, sayPlace_index]

end

/-- A diagnostic whose line and column are counted is explained without a further failure. -/
theorem explain_result_of_isCount {d : Diagnostic} {message : String}
    (hmessage : d.message = .text message) (hline : d.line.IsCount) (hcolumn : d.column.IsCount)
    (source : String) : (explain source (.user (.compilation d))).result = .ok () := by
  rcases hline with hnull | ⟨l, hl⟩
  · have hplace : (Trace.ofExcept ((d.placeIn source.toList).mapError Failure.foreign)).result =
        .ok none := by
      unfold Diagnostic.placeIn
      rw [hnull]
      rfl
    show (Trace.ofExcept _ >>= _).result = _
    rw [Trace.bind_of_ok hplace]
    rfl
  · have hcolumn' : ∃ column, d.column = .null ∧ column = none ∨
        ∃ n, d.column.integer? = some n ∧ column = some n := by
      rcases hcolumn with hnull | ⟨n, hn⟩
      · exact ⟨none, .inl ⟨hnull, rfl⟩⟩
      · exact ⟨some n, .inr ⟨n, by rw [hn]; rfl, rfl⟩⟩
    obtain ⟨column, hcolumn'⟩ := hcolumn'
    have hline : d.line.integer? = some l := by
      rw [hl]
      rfl
    rw [explain_of_placed hline hcolumn' hmessage]
    rfl

end CodeListing
