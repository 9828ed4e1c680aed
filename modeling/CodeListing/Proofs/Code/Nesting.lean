import CodeListing.Proofs.Code.Reordering
import Mathlib.Data.List.Lex

/-! # The units nested in a unit

A path into a unit is a list of indices: the first one leads to a constant of the unit, and if that
constant is a unit again, the rest of the path leads on from there (`CodeUnit.nested?`).  The units
that are listed with a unit are those to which paths lead, one for each path, and the paths ascend
in lexicographic order, in which a path comes before its extensions (`CodeUnit.sorted_paths`,
`CodeUnit.nested_paths`).

A unit that an instruction loads is a constant of the unit that the instruction is in, so its path
is longer by one index and comes later (`CodeUnit.exists_later`).  The row of the instruction ends
in the label of the unit, and the listing that is headed by this label comes later in the text
(`CodeUnit.exists_later_listing`).  Both are put together in `CodeUnit.units_in_order`. -/

namespace CodeListing

/-- The unit to which a path leads: each index on it is that of a constant which is a unit. -/
def CodeUnit.nested? (u : CodeUnit) : List Nat → Option CodeUnit
  | [] => some u
  | i :: path =>
    match u.constants[i]? with
    | some (.code v) => v.nested? path
    | _ => none

mutual

/-- The paths to a unit itself and to all units nested in it. -/
def CodeUnit.paths : CodeUnit → List (List Nat)
  | ⟨_, _, _, _, _, constants, _, _⟩ => [] :: pathsIn 0 constants

/-- The paths to the unit that a constant is and to all units nested in it. -/
def Constant.paths : Constant → List (List Nat)
  | .code u => u.paths
  | _ => []

/-- The paths to the units among some constants, of which the first has the index `i`. -/
def pathsIn (i : Nat) : List Constant → List (List Nat)
  | [] => []
  | k :: ks => k.paths.map (i :: ·) ++ pathsIn (i + 1) ks

end

namespace CodeUnit
variable {u v w : CodeUnit} {i : Nat} {path : List Nat}

theorem nested?_cons (h : u.constants[i]? = some (.code v)) (path : List Nat) :
    u.nested? (i :: path) = v.nested? path := by
  simp only [nested?, h]

theorem exists_of_nested?_cons (h : u.nested? (i :: path) = some w) :
    ∃ v, u.constants[i]? = some (.code v) ∧ v.nested? path = some w := by
  rw [nested?] at h
  split at h
  · next v hv => exact ⟨v, hv, h⟩
  · cases h

theorem nested?_append (h : u.nested? path = some v) (path' : List Nat) :
    u.nested? (path ++ path') = v.nested? path' := by
  induction path generalizing u with
  | nil =>
      obtain rfl := Option.some.inj h
      rfl
  | cons i path ih =>
      obtain ⟨w, hw, hpath⟩ := exists_of_nested?_cons h
      rw [List.cons_append, nested?_cons hw]
      exact ih hpath

end CodeUnit

/-! ### The order of the paths -/

theorem index_of_mem_pathsIn {i : Nat} {ks : List Constant} {path : List Nat}
    (h : path ∈ pathsIn i ks) : ∃ j rest, path = j :: rest ∧ i ≤ j := by
  induction ks generalizing i with
  | nil => simp [pathsIn] at h
  | cons k ks ih =>
      rw [pathsIn, List.mem_append, List.mem_map] at h
      rcases h with ⟨rest, -, rfl⟩ | h
      · exact ⟨i, rest, rfl, by omega⟩
      · obtain ⟨j, rest, rfl, hj⟩ := ih h
        exact ⟨j, rest, rfl, by omega⟩

mutual

theorem CodeUnit.sorted_paths : ∀ u : CodeUnit, u.paths.Pairwise (· < ·)
  | ⟨_, _, _, _, _, constants, _, _⟩ => by
      rw [CodeUnit.paths, List.pairwise_cons]
      refine ⟨?_, sorted_pathsIn 0 constants⟩
      intro path hpath
      obtain ⟨j, rest, rfl, -⟩ := index_of_mem_pathsIn hpath
      exact List.nil_lt_cons j rest

theorem Constant.sorted_paths : ∀ k : Constant, k.paths.Pairwise (· < ·)
  | .code u => by
      rw [Constant.paths]
      exact u.sorted_paths
  | .none | .truth _ | .ellipsis | .int _ | .number _ | .text _ | .bytes _ | .tuple _ | .set _ => by
      simp [Constant.paths]

theorem sorted_pathsIn : ∀ (i : Nat) (ks : List Constant), (pathsIn i ks).Pairwise (· < ·)
  | _, [] => by simp [pathsIn]
  | i, k :: ks => by
      rw [pathsIn, List.pairwise_append, List.pairwise_map]
      refine ⟨?_, sorted_pathsIn (i + 1) ks, ?_⟩
      · exact k.sorted_paths.imp fun h => List.cons_lt_cons_iff.mpr (.inr ⟨rfl, h⟩)
      · intro path hpath path' hpath'
        obtain ⟨rest, -, rfl⟩ := List.mem_map.mp hpath
        obtain ⟨j, rest', rfl, hj⟩ := index_of_mem_pathsIn hpath'
        exact List.cons_lt_cons_iff.mpr (.inl (by omega))

end

/-! ### The units at the paths -/

mutual

/-- The paths into a unit lead to the units that are listed with it, one by one. -/
theorem CodeUnit.nested_paths : ∀ u : CodeUnit,
    List.Forall₂ (fun path v => u.nested? path = some v) u.paths u.units
  | ⟨name, file, firstLine, words, lineTable, constants, names, slots⟩ => by
      rw [CodeUnit.paths, CodeUnit.units]
      exact .cons rfl (nested_pathsIn _ [] constants rfl)

theorem Constant.nested_paths : ∀ k : Constant,
    List.Forall₂ (fun path v => ∃ u, k = .code u ∧ u.nested? path = some v) k.paths k.units
  | .code u => by
      rw [Constant.paths, Constant.units]
      exact u.nested_paths.imp fun path v h => ⟨u, rfl, h⟩
  | .none | .truth _ | .ellipsis | .int _ | .number _ | .text _ | .bytes _ | .tuple _ | .set _ => by
      simp [Constant.paths, Constant.units]

/-- The same for the constants of a unit behind the first ones. -/
theorem nested_pathsIn (u : CodeUnit) : ∀ before ks : List Constant, u.constants = before ++ ks →
    List.Forall₂ (fun path v => u.nested? path = some v) (pathsIn before.length ks) (unitsIn ks)
  | _, [], _ => by simp [pathsIn, unitsIn]
  | before, k :: ks, h => by
      have hrest := nested_pathsIn u (before ++ [k]) ks (by simp [h])
      rw [List.length_append] at hrest
      rw [pathsIn, unitsIn]
      refine List.rel_append (List.forall₂_map_left_iff.mpr ?_) hrest
      refine k.nested_paths.imp ?_
      rintro path v ⟨w, rfl, hw⟩
      have hconstant : u.constants[before.length]? = some (.code w) := by simp [h]
      rw [CodeUnit.nested?_cons hconstant, hw]

end

theorem mem_pathsIn_of_getElem? {i j : Nat} {ks : List Constant} {v : CodeUnit} {path : List Nat}
    (h : ks[j]? = some (.code v)) (hpath : path ∈ v.paths) : (i + j) :: path ∈ pathsIn i ks := by
  induction ks generalizing i j with
  | nil => simp at h
  | cons k ks ih =>
      rw [pathsIn, List.mem_append]
      cases j with
      | zero =>
          obtain rfl : k = .code v := by simpa using h
          left
          simpa [Constant.paths] using hpath
      | succ j =>
          right
          have hlater := @ih (i + 1) j (by simpa using h)
          rwa [Nat.add_assoc, Nat.add_comm 1 j] at hlater

namespace CodeUnit

theorem mem_paths_iff (u : CodeUnit) (path : List Nat) :
    path ∈ u.paths ↔ (u.nested? path).isSome = true := by
  constructor
  · intro h
    obtain ⟨v, -, hv⟩ := exists_of_mem_right u.nested_paths.flip h
    simp [hv]
  · intro h
    induction path generalizing u with
    | nil =>
        cases u with
        | mk => simp [paths]
    | cons i path ih =>
        obtain ⟨w, hw⟩ := Option.isSome_iff_exists.mp h
        obtain ⟨v, hv, hpath⟩ := exists_of_nested?_cons hw
        have hmem := mem_pathsIn_of_getElem? (i := 0) hv (ih v (by simp [hpath]))
        cases u with
        | mk => simpa [paths] using hmem

end CodeUnit

/-! ### Operands -/

theorem lt_of_getElem?_of_lt {α : Type} [LinearOrder α] {xs : List α}
    (hxs : xs.Pairwise (· < ·)) {m n : Nat} {x y : α} (hx : xs[n]? = some x)
    (hy : xs[m]? = some y) (h : x < y) : n < m := by
  obtain ⟨hn, rfl⟩ := List.getElem?_eq_some_iff.mp hx
  obtain ⟨hm, rfl⟩ := List.getElem?_eq_some_iff.mp hy
  have hmono := hxs.sortedLT.strictMono_get
  exact hmono.lt_iff_lt (a := ⟨n, hn⟩) (b := ⟨m, hm⟩).mp h

theorem suffix_toList_append (s t : String) : t.toList <:+ (s ++ t).toList := by
  rw [String.toList_append]
  exact List.suffix_append _ _

namespace CodeUnit
variable {u v c : CodeUnit} {s : Step}

/-- A step is an instruction that refers to a constant which is a unit. -/
def Loads (v : CodeUnit) (s : Step) (c : CodeUnit) : Prop :=
  ∃ i, v.instruction v.targets s = .ok i ∧ i.value = some (.code c)

/-- The row of an instruction that loads a unit ends in the label of that unit. -/
theorem suffix_row (h : v.Loads s c) {row : String}
    (hrow : v.row v.targets v.lineStarts s = .ok row) :
    ("; " ++ c.label).toList <:+ row.toList := by
  obtain ⟨i, hi, hc⟩ := h
  have htext : i.text (v.lineStarts.lookup s.offset) = .ok row := by
    unfold CodeUnit.row at hrow
    rwa [hi] at hrow
  obtain ⟨argument, operand, -, hoperand, rfl⟩ := i.exists_of_text htext
  rw [Instruction.operandText_of_code hc] at hoperand
  obtain rfl := Except.ok.inj hoperand
  have hend : ['>'] <:+ c.label.toList := suffix_toList_append _ ">"
  have hne : c.label ≠ "" := by
    intro hempty
    simp [hempty] at hend
  have hshown : ("; " ++ c.label).toList <:+ (i.rest argument c.label).toList := by
    rw [Instruction.rest, if_neg hne]
    exact suffix_toList_append _ _
  have hlabel : c.label.toList <:+ ("; " ++ c.label).toList := suffix_toList_append _ _
  rw [Instruction.layOut_eq, toList_trimEnd]
  have hline := hshown.trans (suffix_toList_append
    (String.ofList (Instruction.lineNumber (v.lineStarts.lookup s.offset))) _)
  rw [dropEnd_eq_self (hend.trans (hlabel.trans hline)) (by decide)]
  exact hline

theorem exists_later {n : Nat} (hv : u.units[n]? = some v) (hs : v.Loads s c) :
    ∃ m, n < m ∧ u.units[m]? = some c := by
  obtain ⟨i, hi, hvalue⟩ := hs
  have hc : .code c ∈ v.constants := (value_of_instruction hi hvalue).1
  obtain ⟨path, hpath, hleads⟩ := getElem?_right_of_forall₂ u.nested_paths.flip hv
  obtain ⟨j, hj⟩ := List.getElem?_of_mem hc
  have hlonger : u.nested? (path ++ [j]) = some c := by
    rw [nested?_append hleads, nested?_cons hj, nested?]
  have hmem : path ++ [j] ∈ u.paths := by simp [mem_paths_iff, hlonger]
  obtain ⟨m, hm⟩ := List.getElem?_of_mem hmem
  have hextends : path ++ [] < path ++ [j] := List.append_left_lt (List.nil_lt_cons j [])
  rw [List.append_nil] at hextends
  have hlt : n < m := lt_of_getElem?_of_lt u.sorted_paths hpath hm hextends
  obtain ⟨c', hc', hleads'⟩ := getElem?_right_of_forall₂ u.nested_paths hm
  obtain rfl : c = c' := by simpa [hlonger] using hleads'
  exact ⟨m, hlt, hc'⟩

/-- In a text made of listings, the row of an instruction that loads a unit is followed by the
listing of that unit. -/
theorem exists_later_listing {n k : Nat} {listings : List String}
    (hlists : List.Forall₂ Lists u.units listings) (hv : u.units[n]? = some v)
    (hs : (steps v.words)[k]? = some s) (hc : v.Loads s c) :
    ∃ m rows row rest, n < m ∧ u.units[m]? = some c ∧
      listings[n]? = some (String.join ((v.header :: rows).map (· ++ "\n"))) ∧
      rows[k]? = some row ∧ ("; " ++ c.label).toList <:+ row.toList ∧
      listings[m]? = some (c.header ++ "\n" ++ rest) := by
  obtain ⟨m, hlt, hm⟩ := exists_later hv hc
  obtain ⟨shown, hshown, hshows⟩ := getElem?_right_of_forall₂ hlists hv
  obtain ⟨later, hlater, hlaterShows⟩ := getElem?_right_of_forall₂ hlists hm
  obtain ⟨rows, rfl, hrows⟩ := hshows
  obtain ⟨laterRows, rfl, -⟩ := hlaterShows
  obtain ⟨row, hrow, hlaid⟩ := getElem?_right_of_forall₂ hrows hs
  refine ⟨m, rows, row, String.join (laterRows.map (· ++ "\n")), hlt, hm, hshown, hrow, ?_, ?_⟩
  · exact suffix_row hc hlaid
  · rw [hlater, List.map_cons, String.join_cons]

/-- **The units of a unit, in order.**  The units that are listed with a unit are those to which
paths lead, one for each path, and the paths ascend.  A unit that an instruction loads comes later
than the unit that the instruction is in.  So in a text that shows the units, the row of the
instruction ends in the label of the unit that is loaded, and a later listing is headed by it. -/
theorem units_in_order (u : CodeUnit) :
    (∃ paths : List (List Nat), paths.Pairwise (· < ·) ∧
      (∀ path, path ∈ paths ↔ (u.nested? path).isSome = true) ∧
      List.Forall₂ (fun path v => u.nested? path = some v) paths u.units) ∧
    (∀ (n : Nat) (v c : CodeUnit), u.units[n]? = some v → ∀ s ∈ steps v.words, v.Loads s c →
      ∃ m, n < m ∧ u.units[m]? = some c) ∧
    ∀ text, u.render = .ok text →
      ∃ listings, text = "\n".intercalate listings ∧ List.Forall₂ Lists u.units listings ∧
        ∀ (n k : Nat) (v c : CodeUnit) (s : Step), u.units[n]? = some v →
          (steps v.words)[k]? = some s → v.Loads s c →
            ∃ m rows row rest, n < m ∧ u.units[m]? = some c ∧
              listings[n]? = some (String.join ((v.header :: rows).map (· ++ "\n"))) ∧
              rows[k]? = some row ∧ ("; " ++ c.label).toList <:+ row.toList ∧
              listings[m]? = some (c.header ++ "\n" ++ rest) := by
  refine ⟨⟨u.paths, u.sorted_paths, u.mem_paths_iff, u.nested_paths⟩, ?_, ?_⟩
  · intro n v c hv s _ hs
    exact exists_later hv hs
  · intro text h
    obtain ⟨listings, htext, hlists⟩ := lists_of_render h
    refine ⟨listings, htext, hlists, ?_⟩
    intro n k v c s hv hs hc
    exact exists_later_listing hlists hv hs hc

/-- A unit that is nested twice is listed twice, and not once more for the tuple that holds it. -/
theorem units_in_order_repeated :
    let inner : CodeUnit := .loading [.none]
    let outer : CodeUnit := .loading [.code inner, .tuple [.code inner], .code inner]
    outer.units = [outer, inner, inner] ∧
      ∃ text listings m rest, outer.render = .ok text ∧ text = "\n".intercalate listings ∧
        0 < m ∧ outer.units[m]? = some inner ∧
        listings[m]? = some (inner.header ++ "\n" ++ rest) := by
  intro inner outer
  obtain ⟨text, htext⟩ := (writes_render (u := outer) (by decide)).ok_of_short (by decide +kernel)
  obtain ⟨listings, hlistings, -, hlater⟩ := (units_in_order outer).2.2 text htext
  let s : Step := ⟨0, Opcode.ofNumber 100, some 0⟩
  have hloads : outer.Loads s inner :=
    ⟨instructionWith outer.targets s (some (.code inner), inner.label), rfl, rfl⟩
  obtain ⟨m, -, -, rest, hm, hunit, -, -, -, hrest⟩ := hlater 0 0 outer inner s rfl rfl hloads
  exact ⟨rfl, text, listings, m, rest, htext, hlistings, hm, hunit, hrest⟩

end CodeUnit
end CodeListing
