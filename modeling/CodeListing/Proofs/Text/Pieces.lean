import CodeListing.Text.Lines
import Mathlib.Data.List.Induction

/-! # Where the pieces of a text lie

The pieces of a text are what is left of it when it is split at its line feeds
(`pieces_eq_splitOn`). `extent` counts the characters of some pieces, each with a line feed behind
it, so the piece with number `k` starts at the extent of the pieces before it (`spanFrom?_eq`,
`drop_extent`), and all pieces reach one further than the text (`extent_pieces`).  The lines of a
text are its pieces without an empty one at the end (`getElem?_lines`, `length_lines_le_iff`), so
they reach as far if the text does not end in a line feed (`extent_lines`). -/

namespace CodeListing

theorem cut_cons_of_ne {mark c : Char} (h : c ≠ mark) (cs : List Char) :
    cut mark (c :: cs) = (cut mark cs).modifyHead (c :: ·) := by
  have hne := cut_ne_nil mark cs
  rw [cut, if_neg h]
  cases hcut : cut mark cs with
  | nil => exact absurd hcut hne
  | cons p ps => rfl

theorem cut_eq_splitOn (mark : Char) (text : List Char) : cut mark text = text.splitOn mark := by
  induction text with
  | nil => simp
  | cons c cs ih =>
      rw [List.splitOn_cons_eq_if_modifyHead, ← ih]
      by_cases h : c = mark
      · subst h
        rw [cut, if_pos rfl, if_pos (beq_self_eq_true c)]
      · rw [cut_cons_of_ne h, if_neg (by simpa using h)]

/-- What lies in a part of a text is one of its characters, and not the mark that it is cut at. -/
theorem mem_of_mem_cut {mark c : Char} {p text : List Char} (hc : c ∈ p) (hp : p ∈ cut mark text) :
    c ∈ text ∧ c ≠ mark := by
  induction text generalizing p with
  | nil =>
      obtain rfl := List.mem_singleton.mp hp
      cases hc
  | cons x xs ih =>
      by_cases hx : x = mark
      · rw [cut, if_pos hx] at hp
        rcases List.mem_cons.mp hp with rfl | hp
        · cases hc
        · exact (ih hc hp).imp_left (List.mem_cons_of_mem x)
      · rw [cut_cons_of_ne hx] at hp
        cases hcut : cut mark xs with
        | nil => exact absurd hcut (cut_ne_nil mark xs)
        | cons q qs =>
            rw [hcut, List.modifyHead_cons] at hp
            rw [hcut] at ih
            rcases List.mem_cons.mp hp with rfl | hp
            · rcases List.mem_cons.mp hc with rfl | hc
              · exact ⟨List.mem_cons_self, hx⟩
              · exact (ih hc List.mem_cons_self).imp_left (List.mem_cons_of_mem x)
            · exact (ih hc (List.mem_cons_of_mem q hp)).imp_left (List.mem_cons_of_mem x)

theorem pieces_eq_splitOn (text : List Char) : pieces text = text.splitOn '\n' :=
  cut_eq_splitOn '\n' text

/-- How many characters some pieces take, each with a line feed behind it. -/
def extent : List (List Char) → Nat
  | [] => 0
  | p :: ps => p.length + 1 + extent ps

@[simp] theorem extent_nil : extent [] = 0 := rfl

@[simp] theorem extent_cons (p : List Char) (ps : List (List Char)) :
    extent (p :: ps) = p.length + 1 + extent ps := rfl

/-- A piece starts behind the pieces before it and their line feeds. -/
theorem spanFrom?_eq (start k : Nat) (ps : List (List Char)) :
    spanFrom? start k ps =
      ps[k]?.map fun p => (start + extent (ps.take k), start + extent (ps.take k) + p.length) := by
  induction ps generalizing start k with
  | nil => simp [spanFrom?]
  | cons p ps ih =>
      cases k with
      | zero => simp [spanFrom?]
      | succ k =>
          rw [spanFrom?, ih]
          simp [Nat.add_assoc]

theorem lineSpan?_eq_some {text : List Char} {line : Int} {span : Nat × Nat}
    (h : lineSpan? text line = some span) :
    ∃ (k : Nat) (p : List Char), line = (k : Int) + 1 ∧ (pieces text)[k]? = some p ∧
      span = (extent ((pieces text).take k), extent ((pieces text).take k) + p.length) := by
  unfold lineSpan? at h
  split at h
  · cases h
  · next hline =>
      rw [spanFrom?_eq] at h
      obtain ⟨p, hp, rfl⟩ := Option.map_eq_some_iff.mp h
      exact ⟨(line - 1).toNat, p, by omega, hp, by simp⟩

theorem lines_eq_take (text : List Char) : lines text = (pieces text).take (lines text).length := by
  unfold lines
  dsimp only
  split
  · rw [List.dropLast_eq_take, List.length_take, Nat.min_eq_left (Nat.sub_le ..)]
  · exact (List.take_length ..).symm

/-- The lines of a text are what its line feeds split it into, without an empty last piece. -/
theorem lines_eq_splitOn (text : List Char) :
    lines text = if (text.splitOn '\n').getLast? = some [] then (text.splitOn '\n').dropLast
      else text.splitOn '\n' := by
  unfold lines
  rw [pieces_eq_splitOn]

theorem take_lines {text : List Char} {k : Nat} (h : k < (lines text).length) :
    (lines text).take k = (pieces text).take k := by
  rw [lines_eq_take, List.take_take, Nat.min_eq_left (Nat.le_of_lt h)]

theorem getElem?_lines {text : List Char} {k : Nat} (h : k < (lines text).length) :
    (lines text)[k]? = (pieces text)[k]? := by
  rw [lines_eq_take, List.getElem?_take, if_pos h]

theorem length_lines (text : List Char) :
    (lines text).length =
      if (pieces text).getLast? = some [] then (pieces text).length - 1
      else (pieces text).length := by
  unfold lines
  dsimp only
  split
  · exact List.length_dropLast
  · rfl

section
variable {text p : List Char} {k : Nat} (hp : (pieces text)[k]? = some p)
include hp

/-- A piece is no line just if it is empty and the last one. -/
theorem length_lines_le_iff : (lines text).length ≤ k ↔ k + 1 = (pieces text).length ∧ p = [] := by
  have hk : k < (pieces text).length := (List.getElem?_eq_some_iff.mp hp).1
  have hlast : k + 1 = (pieces text).length → (pieces text).getLast? = some p := by
    intro h
    rw [List.getLast?_eq_getElem?, ← h]
    exact hp
  rw [length_lines]
  by_cases hend : (pieces text).getLast? = some []
  · rw [if_pos hend]
    constructor
    · intro h
      have hnumber : k + 1 = (pieces text).length := by omega
      refine ⟨hnumber, ?_⟩
      rw [hlast hnumber] at hend
      exact Option.some.inj hend
    · rintro ⟨hnumber, -⟩
      omega
  · rw [if_neg hend]
    constructor
    · intro h
      omega
    · rintro ⟨hnumber, rfl⟩
      exact absurd (hlast hnumber) hend

theorem lines_of_length_le (h : (lines text).length ≤ k) : lines text = (pieces text).take k := by
  have hnumber := ((length_lines_le_iff hp).mp h).1
  have hmost : (pieces text).length - 1 ≤ (lines text).length := by
    rw [length_lines]
    split <;> omega
  have hk : (lines text).length = k := by omega
  have htake := lines_eq_take text
  rwa [hk] at htake

end

/-! ### How far the pieces of a text reach -/

theorem extent_append (ps qs : List (List Char)) : extent (ps ++ qs) = extent ps + extent qs := by
  induction ps with
  | nil => simp
  | cons p ps ih => simp [ih, Nat.add_assoc]

/-- The pieces of a text are as long as the text with a line feed behind it. -/
theorem extent_pieces (text : List Char) : extent (pieces text) = text.length + 1 := by
  unfold pieces
  induction text with
  | nil => rfl
  | cons c cs ih =>
      by_cases hc : c = '\n'
      · rw [cut, if_pos hc, extent_cons, ih]
        simp only [List.length_nil, List.length_cons]
        omega
      · obtain ⟨p, ps, hcut⟩ := List.exists_cons_of_ne_nil (cut_ne_nil '\n' cs)
        rw [hcut, extent_cons] at ih
        rw [cut_cons_of_ne hc, hcut]
        simp only [List.modifyHead_cons, extent_cons, List.length_cons]
        omega

theorem pieces_concat_feed (text : List Char) : pieces (text ++ ['\n']) = pieces text ++ [[]] := by
  rw [pieces_eq_splitOn, pieces_eq_splitOn, List.splitOn_append_cons_self, List.splitOn_nil]

/-- A character that is no line feed belongs to the last piece. -/
theorem pieces_concat_of_ne {c : Char} (hc : c ≠ '\n') (text : List Char) :
    ∃ front last, pieces (text ++ [c]) = front ++ [last ++ [c]] := by
  unfold pieces
  induction text with
  | nil => exact ⟨[], [], by simp [cut, hc]⟩
  | cons d ds ih =>
      obtain ⟨front, last, h⟩ := ih
      by_cases hd : d = '\n'
      · exact ⟨[] :: front, last, by simp [cut, hd, h]⟩
      · rw [List.cons_append, cut_cons_of_ne hd, h]
        cases front with
        | nil => exact ⟨[], d :: last, rfl⟩
        | cons p front => exact ⟨(d :: p) :: front, last, rfl⟩

/-- The last piece is empty if there is nothing in the text, or a line feed ends it. -/
theorem getLast?_pieces (text : List Char) :
    (pieces text).getLast? = some [] ↔ text = [] ∨ text.getLast? = some '\n' := by
  induction text using List.reverseRecOn with
  | nil => simp [pieces]
  | append_singleton cs c =>
      by_cases hc : c = '\n'
      · simp [hc, pieces_concat_feed]
      · obtain ⟨front, last, h⟩ := pieces_concat_of_ne hc cs
        simp [h, hc]

theorem extent_lines (text : List Char) : extent (lines text) =
    text.length + if text = [] ∨ text.getLast? = some '\n' then 0 else 1 := by
  have hpieces := extent_pieces text
  unfold lines
  dsimp only
  by_cases hlast : (pieces text).getLast? = some []
  · obtain ⟨front, hfront⟩ := List.getLast?_eq_some_iff.mp hlast
    rw [hfront, extent_append, extent_cons, extent_nil, List.length_nil] at hpieces
    rw [if_pos hlast, if_pos ((getLast?_pieces text).mp hlast), hfront, List.dropLast_concat]
    omega
  · rw [if_neg hlast, if_neg fun h => hlast ((getLast?_pieces text).mpr h), hpieces]

/-- Where a piece starts in a text it stands, and behind it a line feed or nothing. -/
theorem drop_extent {text p : List Char} {k : Nat} (h : (pieces text)[k]? = some p) :
    ∃ rest, text.drop (extent ((pieces text).take k)) = p ++ rest ∧
      (rest = [] ∨ rest.head? = some '\n') := by
  unfold pieces at h ⊢
  induction text generalizing k p with
  | nil =>
      cases k with
      | zero =>
          obtain rfl : [] = p := by simpa using h
          exact ⟨[], by simp⟩
      | succ k => simp at h
  | cons c cs ih =>
      by_cases hc : c = '\n'
      · rw [cut, if_pos hc] at h ⊢
        cases k with
        | zero =>
            obtain rfl : [] = p := by simpa using h
            exact ⟨c :: cs, by simp [hc]⟩
        | succ k =>
            obtain ⟨rest, hrest, hend⟩ := @ih p k (by simpa using h)
            refine ⟨rest, ?_, hend⟩
            rw [List.take_succ_cons, extent_cons, List.length_nil, Nat.zero_add, Nat.add_comm,
              List.drop_succ_cons]
            exact hrest
      · obtain ⟨q, qs, hcut⟩ := List.exists_cons_of_ne_nil (cut_ne_nil '\n' cs)
        rw [cut_cons_of_ne hc, hcut, List.modifyHead_cons] at h ⊢
        rw [hcut] at ih
        cases k with
        | zero =>
            obtain rfl : c :: q = p := by simpa using h
            obtain ⟨rest, hrest, hend⟩ := @ih q 0 rfl
            exact ⟨rest, by simpa using hrest, hend⟩
        | succ k =>
            obtain ⟨rest, hrest, hend⟩ := @ih p (k + 1) (by simpa using h)
            refine ⟨rest, ?_, hend⟩
            rw [List.take_succ_cons, extent_cons, List.length_cons,
              Nat.add_right_comm q.length 1 1, Nat.add_right_comm (q.length + 1) 1 _,
              List.drop_succ_cons]
            exact hrest

theorem drop_extent_lines {text line : List Char} {k : Nat} (h : (lines text)[k]? = some line) :
    ∃ rest, text.drop (extent ((lines text).take k)) = line ++ rest ∧
      (rest = [] ∨ rest.head? = some '\n') := by
  have hk : k < (lines text).length := (List.getElem?_eq_some_iff.mp h).1
  rw [take_lines hk]
  exact drop_extent ((getElem?_lines hk).symm.trans h)

end CodeListing
