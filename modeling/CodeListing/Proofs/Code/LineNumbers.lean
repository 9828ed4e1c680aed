import CodeListing.Proofs.Code.Columns
import CodeListing.Proofs.Code.Sections

/-! # The numbers of source lines in a listing

The ranges of a unit give an offset one line at most (`LineTable.lineAt`).  A line is shown where it
starts, which is found range by range and looked up by the offset of the range: a range that starts
at no instruction would leave its line out.  If every range starts at one, the rows of a listing
show the changes of the lines of their instructions and nothing else (`CodeUnit.map_shownLine?`),
where instructions without a line are passed over (`changes`).  The ranges follow one another, and
each takes the offsets that lie in it from the front of those that are left
(`LineTable.map_lookup_startsFrom`).  A range may stand for several entries of a line table with one
line; the line of an offset is that of the entry that covers it (`CodeUnit.lineAt_eq`).

So the last number in a row or above it is the line of its instruction (`latest_changes`), in every
unit that has a listing (`CodeUnit.listing_lines`).  The one thing that can leave a unit whose
instructions are there without one is an argument that is too long to be written. -/

namespace CodeListing

/-! ### Changes in a sequence of lines -/

/-- The last line that is there among some lines, where `last` is one before them. -/
def latest (last : Option Int) : List (Option Int) → Option Int
  | [] => last
  | line :: ls => latest (line.or last) ls

/-- Each line that is there and differs from the last one that was there before it. -/
def changes (last : Option Int) : List (Option Int) → List (Option Int)
  | [] => []
  | line :: ls => (if line = last then none else line) :: changes (line.or last) ls

theorem getElem?_changes (last : Option Int) (ls : List (Option Int)) (k : Nat) :
    (changes last ls)[k]? =
      ls[k]?.map fun line => if line = latest last (ls.take k) then none else line := by
  induction ls generalizing last k with
  | nil => rfl
  | cons line ls ih =>
      cases k with
      | zero => rfl
      | succ k => exact ih (line.or last) k

theorem take_changes (last : Option Int) (ls : List (Option Int)) (k : Nat) :
    (changes last ls).take k = changes last (ls.take k) := by
  induction ls generalizing last k with
  | nil => simp [changes]
  | cons line ls ih =>
      cases k with
      | zero => rfl
      | succ k => exact congrArg (_ :: ·) (ih (line.or last) k)

/-- The changes tell the last line as well as the lines themselves. -/
theorem latest_changes (last : Option Int) (ls : List (Option Int)) :
    latest last (changes last ls) = latest last ls := by
  induction ls generalizing last with
  | nil => rfl
  | cons line ls ih =>
      have hline : (if line = last then none else line).or last = line.or last := by
        split
        · next h => rw [h, Option.or_self, Option.none_or]
        · rfl
      rw [changes, latest, latest, hline, ih]

theorem latest_concat (last line : Option Int) (ls : List (Option Int)) :
    latest last (ls ++ [line]) = line.or (latest last ls) := by
  induction ls generalizing last with
  | nil => rfl
  | cons first ls ih => exact ih (first.or last)

/-- A line that stays changes once at most. -/
theorem changes_replicate (last line : Option Int) (k : Nat) (ls : List (Option Int)) :
    changes last (List.replicate (k + 1) line ++ ls) =
      (if line = last then none else line) ::
        (List.replicate k none ++ changes (line.or last) ls) := by
  have hstays : (if line = line.or last then none else line) = none := by
    cases line with
    | none => exact ite_self none
    | some l => exact if_pos rfl
  rw [List.replicate_succ, List.cons_append, changes]
  congr 1
  induction k with
  | zero => rfl
  | succ k ih =>
      rw [List.replicate_succ, List.cons_append, changes, hstays, ← Option.or_assoc,
        Option.or_self, ih]
      rfl

namespace LineTable

/-! ### Lines at offsets -/

/-- The line of the range that an offset lies in, if it lies in one that has a line. -/
def lineAt (rs : List Range) (o : Nat) : Option Int :=
  (rs.find? fun r => r.start ≤ o ∧ o < r.stop).bind Range.line

theorem lineAt_cons (r : Range) (rs : List Range) (o : Nat) :
    lineAt (r :: rs) o = if r.start ≤ o ∧ o < r.stop then r.line else lineAt rs o := by
  rw [lineAt, List.find?_cons]
  by_cases h : r.start ≤ o ∧ o < r.stop
  · simp [h]
  · simp [h, lineAt]

theorem lineAt_cons_of_within {r : Range} {o : Nat} (hlo : r.start ≤ o) (hhi : o < r.stop)
    (rs : List Range) : lineAt (r :: rs) o = r.line := by
  rw [lineAt_cons, if_pos ⟨hlo, hhi⟩]

theorem lineAt_cons_of_behind {r : Range} {o : Nat} (h : r.stop ≤ o) (rs : List Range) :
    lineAt (r :: rs) o = lineAt rs o := by
  rw [lineAt_cons, if_neg fun hin => Nat.not_lt_of_le h hin.2]

/-- Offsets have the lines that they have among the ranges before any of them become one. -/
theorem lineAt_merge {offset : Nat} {rs : List Range} (hrs : Adjoining offset rs) (o : Nat) :
    lineAt (merge rs) o = lineAt rs o := by
  induction rs generalizing offset with
  | nil => rfl
  | cons r rs ih =>
      obtain ⟨rfl, hstop, hrest⟩ := hrs
      have hmerged := adjoining_merge hrest
      rw [merge, lineAt_cons, ← ih hrest]
      cases hm : merge rs with
      | nil => exact lineAt_cons r [] o
      | cons s ss =>
          rw [hm] at hmerged
          obtain ⟨hstart, hstop', -⟩ := hmerged
          dsimp only
          split
          · next hline =>
              rw [lineAt_cons, lineAt_cons, ← hline]
              dsimp only
              split_ifs <;> first | rfl | omega
          · exact lineAt_cons r (s :: ss) o

/-- An offset lies in one of the ranges at most. -/
theorem lineAt_of_mem {offset o : Nat} {rs : List Range} {r : Range} (hrs : Adjoining offset rs)
    (hr : r ∈ rs) (hlo : r.start ≤ o) (hhi : o < r.stop) : lineAt rs o = r.line := by
  induction rs generalizing offset with
  | nil => cases hr
  | cons s ss ih =>
      rcases List.mem_cons.mp hr with rfl | hr
      · exact lineAt_cons_of_within hlo hhi ss
      · have hbehind := hrs.2.2.le_start r hr
        rw [lineAt_cons_of_behind (Nat.le_trans hbehind hlo)]
        exact ih hrs.2.2 hr

/-! ### Where lines start -/

theorem lookup_startsFrom_of_lt {offset o : Nat} {rs : List Range} (hrs : Adjoining offset rs)
    (h : o < offset) (last : Option Int) : (startsFrom last rs).lookup o = none := by
  rw [List.lookup_eq_none_iff]
  intro p hp
  obtain ⟨r, hr, hstart, -⟩ := exists_of_mem_startsFrom hp
  have hle := hrs.le_start r hr
  simp
  omega

theorem lookup_cons_startsFrom {r : Range} {rs : List Range} (last : Option Int) (o : Nat) :
    (startsFrom last (r :: rs)).lookup o =
      if o = r.start then
        (if r.line = last then none else r.line).or ((startsFrom (r.line.or last) rs).lookup o)
      else (startsFrom (r.line.or last) rs).lookup o := by
  rw [startsFrom_cons]
  cases hchange : if r.line = last then none else r.line with
  | none => simp
  | some l =>
      by_cases h : o = r.start
      · simp [h]
      · have hne : (o == r.start) = false := beq_eq_false_iff_ne.mpr h
        simp [h, hne, List.lookup_cons]

/-! ### Lines and starts of lines -/

theorem exists_split {os : List Nat} (hsorted : os.Pairwise (· < ·)) (stop : Nat) :
    ∃ xs ys, os = xs ++ ys ∧ (∀ x ∈ xs, x < stop) ∧ ∀ y ∈ ys, stop ≤ y := by
  induction os with
  | nil => exact ⟨[], [], rfl, by simp, by simp⟩
  | cons o os ih =>
      obtain ⟨hhead, hrest⟩ := List.pairwise_cons.mp hsorted
      by_cases h : o < stop
      · obtain ⟨xs, ys, rfl, hxs, hys⟩ := ih hrest
        exact ⟨o :: xs, ys, rfl, List.forall_mem_cons.mpr ⟨h, hxs⟩, hys⟩
      · refine ⟨[], o :: os, rfl, by simp, List.forall_mem_cons.mpr ⟨Nat.le_of_not_lt h, ?_⟩⟩
        intro y hy
        have hlt := hhead y hy
        omega

/-- A range that starts at the first of some ascending offsets has that one and some more in it. -/
theorem exists_split_of_start {os : List Nat} {r : Range} (hsorted : os.Pairwise (· < ·))
    (hlo : ∀ o ∈ os, r.start ≤ o) (hstart : r.start ∈ os) :
    ∃ inside behind, os = r.start :: (inside ++ behind) ∧
      (∀ o ∈ inside, r.start < o ∧ o < r.stop) ∧ (∀ o ∈ behind, r.stop ≤ o) ∧
      behind.Pairwise (· < ·) := by
  cases os with
  | nil => cases hstart
  | cons first os =>
      obtain ⟨hfirst, hrest⟩ := List.pairwise_cons.mp hsorted
      obtain ⟨inside, behind, rfl, hinside, hbehind⟩ := exists_split hrest r.stop
      obtain rfl : first = r.start := by
        have hle := hlo first List.mem_cons_self
        rcases List.mem_cons.mp hstart with h | h
        · exact h.symm
        · have hlt := hfirst _ h
          omega
      exact ⟨inside, behind, rfl, fun o ho => ⟨hfirst o (List.mem_append_left _ ho), hinside o ho⟩,
        hbehind, (List.pairwise_append.mp hrest).2.1⟩

section
variable {r : Range} {rs : List Range} {inside behind : List Nat} (hstop : r.start < r.stop)
  (hinside : ∀ o ∈ inside, r.start < o ∧ o < r.stop) (hbehind : ∀ o ∈ behind, r.stop ≤ o)
include hstop hinside hbehind

theorem map_lineAt_cons : (r.start :: (inside ++ behind)).map (lineAt (r :: rs)) =
    List.replicate (inside.length + 1) r.line ++ behind.map (lineAt rs) := by
  have hfront : inside.map (lineAt (r :: rs)) = List.replicate inside.length r.line :=
    List.map_eq_replicate_iff.mpr fun o ho =>
      lineAt_cons_of_within (Nat.le_of_lt (hinside o ho).1) (hinside o ho).2 rs
  have hrest : behind.map (lineAt (r :: rs)) = behind.map (lineAt rs) :=
    List.map_congr_left fun o ho => lineAt_cons_of_behind (hbehind o ho) rs
  rw [List.map_cons, List.map_append, hfront, hrest,
    lineAt_cons_of_within (Nat.le_refl _) hstop, List.replicate_succ, List.cons_append]

/-- At the offsets in a range no line starts, but for the first of them. -/
theorem map_lookup_startsFrom_cons (hrs : Adjoining r.stop rs) (last : Option Int) :
    (r.start :: (inside ++ behind)).map (fun o => (startsFrom last (r :: rs)).lookup o) =
      (if r.line = last then none else r.line) :: (List.replicate inside.length none ++
        behind.map fun o => (startsFrom (r.line.or last) rs).lookup o) := by
  have hfirst : (startsFrom last (r :: rs)).lookup r.start =
      if r.line = last then none else r.line := by
    rw [lookup_cons_startsFrom, if_pos rfl, lookup_startsFrom_of_lt hrs hstop, Option.or_none]
  have hfront : inside.map (fun o => (startsFrom last (r :: rs)).lookup o) =
      List.replicate inside.length none := by
    refine List.map_eq_replicate_iff.mpr fun o ho => ?_
    obtain ⟨hlt, hwithin⟩ := hinside o ho
    rw [lookup_cons_startsFrom, if_neg (Nat.ne_of_gt hlt)]
    exact lookup_startsFrom_of_lt hrs hwithin _
  have hrest : ∀ o ∈ behind, (startsFrom last (r :: rs)).lookup o =
      (startsFrom (r.line.or last) rs).lookup o := by
    intro o ho
    have hlt := Nat.lt_of_lt_of_le hstop (hbehind o ho)
    rw [lookup_cons_startsFrom, if_neg (Nat.ne_of_gt hlt)]
  rw [List.map_cons, List.map_append, hfirst, hfront, List.map_congr_left hrest]

end

/-- Where every range starts at one of some ascending offsets, the lines that start there are the
changes of the lines at the offsets. -/
theorem map_lookup_startsFrom {offset : Nat} {rs : List Range} {os : List Nat} (last : Option Int)
    (hrs : Adjoining offset rs) (hsorted : os.Pairwise (· < ·)) (hlo : ∀ o ∈ os, offset ≤ o)
    (hstarts : ∀ r ∈ rs, r.start ∈ os) :
    os.map (fun o => (startsFrom last rs).lookup o) = changes last (os.map (lineAt rs)) := by
  induction rs generalizing offset last os with
  | nil =>
      have hnone : lineAt [] = fun _ => none := rfl
      rw [hnone]
      simp only [startsFrom, List.lookup_nil, List.map_const']
      cases os with
      | nil => rfl
      | cons o os =>
          have hchanges := changes_replicate last none os.length []
          rw [List.append_nil, ite_self] at hchanges
          rw [List.length_cons, hchanges, changes, List.append_nil, List.replicate_succ]
  | cons r rs ih =>
      obtain ⟨rfl, hstop, hrest⟩ := hrs
      obtain ⟨inside, behind, rfl, hinside, hbehind, hascending⟩ :=
        exists_split_of_start hsorted hlo (hstarts r List.mem_cons_self)
      have hmem : ∀ s ∈ rs, s.start ∈ behind := by
        intro s hs
        have hle := hrest.le_start s hs
        rcases List.mem_cons.mp (hstarts s (List.mem_cons_of_mem r hs)) with h | h
        · omega
        rcases List.mem_append.mp h with h | h
        · have hlt := (hinside _ h).2
          omega
        · exact h
      rw [map_lineAt_cons hstop hinside hbehind, changes_replicate,
        map_lookup_startsFrom_cons hstop hinside hbehind hrest, ih _ hrest hascending hbehind hmem]

end LineTable

/-! ### Offsets of steps -/

/-- Steps ascend, from an offset on. -/
def Ascending (offset : Nat) (ss : List Step) : Prop :=
  (ss.map Step.offset).Pairwise (· < ·) ∧ ∀ o ∈ ss.map Step.offset, offset ≤ o

theorem Ascending.later {offset : Nat} {ss : List Step} (h : Ascending (offset + 2) ss) :
    Ascending offset ss :=
  ⟨h.1, fun o ho => Nat.le_trans (Nat.le_add_right offset 2) (h.2 o ho)⟩

theorem Ascending.cons {offset : Nat} {s : Step} {ss : List Step} (hs : s.offset = offset)
    (h : Ascending (offset + 2) ss) : Ascending offset (s :: ss) := by
  constructor
  · rw [List.map_cons, List.pairwise_cons]
    refine ⟨fun o ho => ?_, h.1⟩
    have hle := h.2 o ho
    omega
  · rw [List.map_cons, List.forall_mem_cons]
    exact ⟨Nat.le_of_eq hs.symm, h.later.2⟩

theorem ascending_stepsFrom (offset skip : Nat) (extension : Int) (words : List Word) :
    Ascending offset (stepsFrom offset skip extension words) := by
  induction words generalizing offset skip extension with
  | nil => exact ⟨.nil, by simp [stepsFrom]⟩
  | cons w ws ih =>
      cases skip with
      | succ skip => exact (ih (offset + 2) skip extension).later
      | zero =>
          rw [stepsFrom]
          dsimp only
          split
          · exact .cons rfl (ih _ _ _)
          · exact .cons rfl (ih _ _ _)

namespace CodeUnit
variable (u : CodeUnit)

def ranges : List LineTable.Range := LineTable.ranges u.firstLine u.lineTable

theorem adjoining_ranges : LineTable.Adjoining 0 u.ranges :=
  LineTable.adjoining_ranges u.firstLine u.lineTable

/-- The line of an offset, if it lies in a range that has one. -/
def lineAt (o : Nat) : Option Int := LineTable.lineAt u.ranges o

def stepLines : List (Option Int) := (steps u.words).map fun s => u.lineAt s.offset

/-- The line of an offset is that of the single entry that covers it. -/
theorem lineAt_eq (o : Nat) : u.lineAt o =
    LineTable.lineAt (LineTable.rangesFrom 0 u.firstLine (LineTable.entries u.lineTable)) o :=
  LineTable.lineAt_merge (LineTable.adjoining_rangesFrom 0 u.firstLine _) o

variable {u}

/-- The lines that start at the steps are the changes of their lines. -/
theorem map_lookup_lineStarts (hstarts : ∀ r ∈ u.ranges, ∃ s ∈ steps u.words, s.offset = r.start) :
    (steps u.words).map (fun s => u.lineStarts.lookup s.offset) = changes none u.stepLines := by
  obtain ⟨hsorted, hlo⟩ := ascending_stepsFrom 0 0 0 u.words
  have hmem : ∀ r ∈ u.ranges, r.start ∈ (steps u.words).map Step.offset := fun r hr =>
    List.mem_map.mpr (hstarts r hr)
  have hchanges := LineTable.map_lookup_startsFrom none u.adjoining_ranges hsorted hlo hmem
  rwa [List.map_map, List.map_map] at hchanges

end CodeUnit

/-! ### Numbers in rows -/

/-- The number that a row shows, if it shows one. -/
def shownLine? (row : String) : Option Int := (Margin.ofRow row.toList).line

namespace CodeUnit
variable {u : CodeUnit}

theorem shownLine?_row {targets : List Int} {starts : List (Nat × Int)} {s : Step} {row : String}
    (h : u.row targets starts s = .ok row) : shownLine? row = starts.lookup s.offset := by
  obtain ⟨i, -, h⟩ := exists_of_bind h
  obtain ⟨argument, operand, -, -, rfl⟩ := i.exists_of_text h
  rw [shownLine?, Instruction.margin_layOut]

theorem getElem?_stepLines {k : Nat} {s : Step} (hs : (steps u.words)[k]? = some s) :
    u.stepLines[k]? = some (u.lineAt s.offset) := by
  rw [stepLines, List.getElem?_map, hs]
  rfl

section
variable {rows : List String}
  (hrows : List.Forall₂ (fun s row => u.row u.targets u.lineStarts s = .ok row)
    (steps u.words) rows)
  (hstarts : ∀ r ∈ u.ranges, ∃ s ∈ steps u.words, s.offset = r.start)
include hrows hstarts

/-- The rows show the changes of the lines of their steps. -/
theorem map_shownLine? : rows.map shownLine? = changes none u.stepLines := by
  have hshown : List.Forall₂ (· = ·) (rows.map shownLine?)
      ((steps u.words).map fun s => u.lineStarts.lookup s.offset) :=
    List.forall₂_map_left_iff.mpr <| List.forall₂_map_right_iff.mpr <|
      hrows.flip.imp fun row s h => shownLine?_row h
  rw [List.forall₂_eq_eq_eq] at hshown
  rw [hshown, map_lookup_lineStarts hstarts]

variable {k : Nat} {s : Step} {row : String} (hs : (steps u.words)[k]? = some s)
include hs

theorem shownLine?_eq (hrow : rows[k]? = some row) : shownLine? row =
    if u.lineAt s.offset = latest none (u.stepLines.take k) then none
    else u.lineAt s.offset := by
  have hshown : (rows.map shownLine?)[k]? = (changes none u.stepLines)[k]? := by
    rw [map_shownLine? hrows hstarts]
  rw [List.getElem?_map, hrow, getElem?_changes, getElem?_stepLines hs] at hshown
  exact Option.some.inj hshown

theorem latest_shownLine? : latest none ((rows.take (k + 1)).map shownLine?) =
    (u.lineAt s.offset).or (latest none (u.stepLines.take k)) := by
  rw [List.map_take, map_shownLine? hrows hstarts, take_changes, latest_changes,
    List.take_add_one, getElem?_stepLines hs, Option.toList_some, latest_concat]

end

/-- **The numbers of lines.**  If no argument is too long, a row shows a number just if its
instruction has a line other than the last one that was there above, and it is that line; the last
number in the row or above it is then the line of the range that the instruction lies in. -/
theorem listing_lines (hdecodes : u.Decodes)
    (hstarts : ∀ r ∈ u.ranges, ∃ s ∈ steps u.words, s.offset = r.start) :
    ((∀ n ∈ u.arguments, IsShort n) →
      ∃ rows, u.listing = .ok (String.join ((u.header :: rows).map (· ++ "\n"))) ∧
        List.Forall₂ (fun s row => u.row u.targets u.lineStarts s = .ok row)
          (steps u.words) rows ∧
        ∀ (k : Nat) (s : Step) (row : String),
          (steps u.words)[k]? = some s → rows[k]? = some row →
            (∀ l, shownLine? row = some l ↔ u.lineAt s.offset = some l ∧
              latest none (u.stepLines.take k) ≠ some l) ∧
            ∀ r ∈ u.ranges, r.start ≤ s.offset → s.offset < r.stop → r.line ≠ none →
              latest none ((rows.take (k + 1)).map shownLine?) = r.line) ∧
    ((∃ n ∈ u.arguments, ¬ IsShort n) → u.listing = .error .tooManyDigits) := by
  have hwrites := writes_listing_of_decodes hdecodes
  constructor
  · intro hshort
    obtain ⟨shown, hshown⟩ := hwrites.ok_of_short hshort
    obtain ⟨rows, rfl, hrows⟩ := lists_of_listing hshown
    refine ⟨rows, hshown, hrows, ?_⟩
    intro k s row hs hrow
    constructor
    · intro l
      rw [shownLine?_eq hrows hstarts hs hrow]
      constructor
      · intro h
        split at h
        · cases h
        · next hchange => exact ⟨h, fun hlast => hchange (h.trans hlast.symm)⟩
      · rintro ⟨hline, hlast⟩
        rw [hline, if_neg (Ne.symm hlast)]
    · intro r hr hlo hhi hline
      have hlineAt : u.lineAt s.offset = r.line :=
        LineTable.lineAt_of_mem u.adjoining_ranges hr hlo hhi
      obtain ⟨l, hl⟩ := Option.ne_none_iff_exists'.mp hline
      rw [latest_shownLine? hrows hstarts hs, hlineAt, hl, Option.some_or]
  · rintro ⟨n, hn, hlong⟩
    exact hwrites.error_of_long hn hlong

/-- A unit whose first line is followed by another, by an instruction without a line and by the
second line again, which is not shown twice. -/
theorem listing_lines_resumed :
    let u : CodeUnit := { CodeUnit.loading [.none, .none, .none] with
      lineTable := [0xd0, 0, 0, 0xd8, 0, 0, 0xf8, 0xd0, 0, 0] }
    u.stepLines = [some 1, some 2, none, some 2] ∧
      ∃ rows, u.listing = .ok (String.join ((u.header :: rows).map (· ++ "\n"))) ∧
        ∀ row, rows[3]? = some row →
          shownLine? row = none ∧ latest none ((rows.take 4).map shownLine?) = some 2 := by
  intro u
  have hlines : u.stepLines = [some 1, some 2, none, some 2] := by decide +kernel
  obtain ⟨rows, hrows, -, hshown⟩ := (listing_lines (u := u) (by decide +kernel)
    (by decide +kernel)).1 (by decide +kernel)
  refine ⟨hlines, rows, hrows, ?_⟩
  intro row hrow
  have hstep : (steps u.words)[3]? = some ⟨6, Opcode.ofNumber 83, none⟩ := by decide +kernel
  obtain ⟨hshows, hlast⟩ := hshown 3 _ row hstep hrow
  constructor
  · rw [Option.eq_none_iff_forall_not_mem]
    intro l hl
    obtain ⟨hline, hchange⟩ := (hshows l).mp hl
    have hsame : u.lineAt 6 = latest none (u.stepLines.take 3) := by decide +kernel
    exact hchange (hsame.symm.trans hline)
  · have hrange : ⟨6, 8, some 2⟩ ∈ u.ranges := by decide +kernel
    exact hlast _ hrange (by decide) (by decide) (by decide)

/-- The first instruction is on line 1, but an argument is too long for any line to be shown. -/
theorem listing_fails_of_extended :
    let u : CodeUnit := { CodeUnit.extended 1785 with lineTable := [0xe8, 0] }
    u.Decodes ∧ u.ranges = [⟨0, 2, some 1⟩] ∧
      (∀ r ∈ u.ranges, ∃ s ∈ steps u.words, s.offset = r.start) ∧ u.lineAt 0 = some 1 ∧
      u.listing = .error .tooManyDigits := by
  intro u
  have hdecodes : u.Decodes := decodes_of_extensions operation_of_mem_extended
  have hranges : u.ranges = [⟨0, 2, some 1⟩] := by decide +kernel
  have hmem : -0x80000000 * 256 ^ 1782 ∈ u.arguments := mem_arguments_extended 1782
  have hlong : ¬ IsShort (-0x80000000 * 256 ^ 1782) := by decide +kernel
  refine ⟨hdecodes, hranges, ?_, ?_, (writes_listing_of_decodes hdecodes).error_of_long hmem hlong⟩
  · intro r hr
    rw [hranges] at hr
    obtain rfl := List.mem_singleton.mp hr
    refine ⟨⟨0, Opcode.ofNumber 144, some (0 + 128)⟩, ?_, rfl⟩
    show _ ∈ stepsFrom 0 0 0 (⟨144, 128⟩ :: List.replicate 1785 ⟨144, 0⟩)
    rw [stepsFrom_extension]
    exact List.mem_cons_self
  · rw [lineAt, hranges]
    rfl

end CodeUnit
end CodeListing
