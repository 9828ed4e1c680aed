import CodeListing.Code.LineTable
import CodeListing.Proofs.Code.Writing

/-! # The ranges of a line table

The ranges of a table follow one another without a gap, from the first offset on, and none of them
is empty (`adjoining_ranges`).  It makes no difference to the starts of lines that neighbouring
entries of one line have become one range (`lineStarts_eq`).  A line that starts somewhere is the
line of a range (`exists_of_mem_startsFrom`), so it fits its register and is written in full
(`isShort_of_mem_lineStarts`). -/

namespace CodeListing.LineTable

/-! ### Ranges side by side -/

/-- Ranges that cover all offsets from one on up to where the last of them stops, none of them
empty. -/
def Adjoining (offset : Nat) : List Range → Prop
  | [] => True
  | r :: rs => r.start = offset ∧ offset < r.stop ∧ Adjoining r.stop rs

theorem adjoining_rangesFrom (offset : Nat) (line : Int) (es : List Entry) :
    Adjoining offset (rangesFrom offset line es) := by
  induction es generalizing offset line with
  | nil => trivial
  | cons e es ih =>
      have hwidth : 0 < e.width := by
        unfold Entry.width
        omega
      exact ⟨rfl, Nat.lt_add_of_pos_right hwidth, ih _ _⟩

/-- Ranges that become one stay where they are. -/
theorem adjoining_merge {offset : Nat} {rs : List Range} (h : Adjoining offset rs) :
    Adjoining offset (merge rs) := by
  induction rs generalizing offset with
  | nil => trivial
  | cons r rs ih =>
      obtain ⟨hstart, hstop, hrest⟩ := h
      have hmerged := ih hrest
      rw [merge]
      cases hm : merge rs with
      | nil => exact ⟨hstart, hstop, trivial⟩
      | cons s ss =>
          rw [hm] at hmerged
          obtain ⟨hstart', hstop', hrest'⟩ := hmerged
          dsimp only
          split
          · exact ⟨hstart, Nat.lt_trans hstop hstop', hrest'⟩
          · exact ⟨hstart, hstop, hstart', hstop', hrest'⟩

theorem adjoining_ranges (firstLine : Int) (table : List UInt8) :
    Adjoining 0 (ranges firstLine table) :=
  adjoining_merge (adjoining_rangesFrom 0 firstLine (entries table))

theorem Adjoining.le_start {offset : Nat} {rs : List Range} (h : Adjoining offset rs) :
    ∀ r ∈ rs, offset ≤ r.start := by
  induction rs generalizing offset with
  | nil =>
      intro r hr
      cases hr
  | cons s ss ih =>
      obtain ⟨hstart, hstop, hrest⟩ := h
      intro r hr
      rcases List.mem_cons.mp hr with rfl | hr
      · exact Nat.le_of_eq hstart.symm
      · exact Nat.le_of_lt (Nat.lt_of_lt_of_le hstop (ih hrest r hr))

/-! ### Neighbouring ranges of one line -/

theorem startsFrom_cons (last : Option Int) (r : Range) (rs : List Range) :
    startsFrom last (r :: rs) =
      ((if r.line = last then none else r.line).map (r.start, ·)).toList ++
        startsFrom (r.line.or last) rs := by
  rw [startsFrom]
  cases hline : r.line with
  | none => simp
  | some l =>
      by_cases h : last = some l
      · simp [h]
      · simp [h, Ne.symm h]

theorem startsFrom_cons_of_same {last : Option Int} {r : Range} (h : r.line.or last = last)
    (rs : List Range) : startsFrom last (r :: rs) = startsFrom last rs := by
  rw [startsFrom_cons, h]
  cases hline : r.line with
  | none => simp
  | some l =>
      rw [hline, Option.some_or] at h
      simp [h]

theorem startsFrom_merge (last : Option Int) (rs : List Range) :
    startsFrom last (merge rs) = startsFrom last rs := by
  induction rs generalizing last with
  | nil => rfl
  | cons r rs ih =>
      rw [merge, startsFrom_cons last r rs, ← ih]
      cases merge rs with
      | nil => exact startsFrom_cons last r []
      | cons s ss =>
          dsimp only
          split
          · next hline =>
              have hsame : s.line.or (r.line.or last) = r.line.or last := by
                rw [← hline, ← Option.or_assoc, Option.or_self]
              rw [startsFrom_cons_of_same hsame]
              exact startsFrom_cons last ⟨r.start, s.stop, r.line⟩ ss
          · exact startsFrom_cons last r (s :: ss)

/-- Lines start where they do among the ranges of the single entries. -/
theorem lineStarts_eq (firstLine : Int) (table : List UInt8) :
    lineStarts firstLine table = startsFrom none (rangesFrom 0 firstLine (entries table)) :=
  startsFrom_merge none _

/-! ### Lines -/

/-- A line fits its register, and it is not negative. -/
theorem bounds_of_mem_rangesFrom {offset : Nat} {line l : Int} {es : List Entry} {r : Range}
    (h : r ∈ rangesFrom offset line es) (hl : r.line = some l) : 0 ≤ l ∧ l < 0x80000000 := by
  induction es generalizing offset line with
  | nil => cases h
  | cons e es ih =>
      rcases List.mem_cons.mp h with rfl | h
      · dsimp only at hl
        split at hl
        · cases hl
        · next hshown =>
            obtain rfl := Option.some.inj hl
            have hfits : wrapped (line + e.delta) < 0x80000000 := Int.bmod_lt (by decide)
            simp only [Bool.or_eq_true, decide_eq_true_eq, not_or, Int.not_lt] at hshown
            exact ⟨hshown.2, hfits⟩
      · exact ih h

theorem exists_of_mem_startsFrom {last : Option Int} {rs : List Range} {p : Nat × Int}
    (h : p ∈ startsFrom last rs) : ∃ r ∈ rs, r.start = p.1 ∧ r.line = some p.2 := by
  induction rs generalizing last with
  | nil => cases h
  | cons r rs ih =>
      have hrest : ∀ {last}, p ∈ startsFrom last rs →
          ∃ s ∈ r :: rs, s.start = p.1 ∧ s.line = some p.2 := by
        intro last h
        obtain ⟨s, hs, hp⟩ := ih h
        exact ⟨s, List.mem_cons_of_mem r hs, hp⟩
      rw [startsFrom] at h
      split at h
      · exact hrest h
      · next l hl =>
          split at h
          · exact hrest h
          · rcases List.mem_cons.mp h with rfl | h
            · exact ⟨r, List.mem_cons_self, rfl, hl⟩
            · exact hrest h

theorem bounds_of_mem_lineStarts {firstLine : Int} {table : List UInt8} {p : Nat × Int}
    (h : p ∈ lineStarts firstLine table) : 0 ≤ p.2 ∧ p.2 < 0x80000000 := by
  rw [lineStarts_eq] at h
  obtain ⟨r, hr, -, hline⟩ := exists_of_mem_startsFrom h
  exact bounds_of_mem_rangesFrom hr hline

theorem mem_of_lookup {starts : List (Nat × Int)} {offset : Nat} {l : Int}
    (h : starts.lookup offset = some l) : (offset, l) ∈ starts := by
  obtain ⟨front, rest, rfl, -⟩ := List.lookup_eq_some_iff.mp h
  exact List.mem_append_right _ List.mem_cons_self

theorem isShort_of_mem_lineStarts {firstLine : Int} {table : List UInt8} {p : Nat × Int}
    (h : p ∈ lineStarts firstLine table) : IsShort p.2 := by
  obtain ⟨hlo, hhi⟩ := bounds_of_mem_lineStarts h
  have hfits : p.2.natAbs < Nat.pow 10 10 := by
    have hten : Nat.pow 10 10 = 10000000000 := rfl
    omega
  have hmono : ∀ {m n : Nat}, m ≤ n → Nat.pow 10 m ≤ Nat.pow 10 n := fun h =>
    Nat.pow_le_pow_right (by decide) h
  exact Nat.lt_of_lt_of_le hfits (hmono (by decide))

end CodeListing.LineTable
