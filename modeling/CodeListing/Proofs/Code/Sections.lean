import CodeListing.Proofs.Code.Rows
import CodeListing.Proofs.Text.Paragraphs
import Mathlib.Algebra.Group.Int.Defs

/-! # The sections of a rendered text

What is rendered of a unit and all units nested in it can be taken apart again
(`CodeUnit.render_sections`): its paragraphs are the listings of the units, one for each and in
their order, and the lines of a listing are its header and one row for each instruction.  A unit of
which every step is an instruction (`CodeUnit.Decodes`) can still be left without a listing, because
the argument of an instruction is written with a limit (`CodeUnit.writes_render_of_decodes`). -/

namespace CodeListing

namespace CodeUnit

section
variable (u : CodeUnit)

/-- The offsets that the jumps of a unit lead to. -/
def targets : List Int := (steps u.words).filterMap Step.target?

/-- Every step of a unit is an instruction. -/
def Decodes : Prop := ∀ s ∈ steps u.words, ∃ i, u.instruction u.targets s = .ok i

instance : Decidable u.Decodes :=
  decidable_of_iff (∀ s ∈ steps u.words, (u.instruction u.targets s).isOk = true) <| by
    refine forall₂_congr fun s _ => ?_
    cases u.instruction u.targets s with
    | ok i => exact ⟨fun _ => ⟨i, rfl⟩, fun _ => rfl⟩
    | error f => exact ⟨fun h => absurd h Bool.false_ne_true, fun ⟨_, h⟩ => by cases h⟩

/-- The arguments of the instructions of a unit. -/
def arguments : List Int := (steps u.words).flatMap fun s => s.argument.toList

end

theorem writes_row_of_instruction {u : CodeUnit} {targets : List Int} {s : Step}
    {i : Instruction} (h : u.instruction targets s = .ok i) :
    Writes (u.row targets u.lineStarts s) s.argument.toList := by
  have hargument : i.argument = s.argument := by
    obtain ⟨p, rfl, -⟩ := exists_of_instruction h
    rfl
  have hvalue : ∀ k, i.value = some k → ∀ n ∈ k.integers, IsShort n := by
    intro k hk
    obtain ⟨-, shown, hshown⟩ := value_of_instruction h hk
    exact (writes_shown k).short_of_ok hshown
  have hline : ∀ l ∈ u.lineStarts.lookup s.offset, IsShort l := fun l hl =>
    isShort_of_mem_lineStarts (LineTable.mem_of_lookup hl)
  have htext := i.writes_text hline hvalue
  unfold row
  rw [h, ← hargument]
  exact htext

variable {u : CodeUnit}

theorem writes_listing_of_decodes (h : u.Decodes) : Writes u.listing u.arguments := by
  refine Writes.map (Writes.mapM fun s hs => ?_) _
  obtain ⟨i, hi⟩ := h s hs
  exact writes_row_of_instruction hi

theorem writes_render_of_decodes (h : ∀ v ∈ u.units, v.Decodes) :
    Writes u.render (u.units.flatMap arguments) := by
  have hlistings : Writes (u.units.mapM listing) (u.units.flatMap arguments) :=
    Writes.mapM fun v hv => writes_listing_of_decodes (h v hv)
  exact hlistings.map fun listings => "\n".intercalate listings

/-! ### Listings -/

/-- A part of a text that shows a unit: it is the listing of the unit, with or without the last line
feed, and its lines are the header of the unit and one row for each step. -/
structure Shows (u : CodeUnit) (part : List Char) (rows : List String) : Prop where
  listing : u.listing = .ok (terminated (String.ofList part))
  lines : lines part = u.header.toList :: rows.map String.toList
  header : headerStart <+: u.header.toList
  steps : List.Forall₂ (fun s row => u.row u.targets u.lineStarts s = .ok row) (steps u.words) rows
  rows : ∀ row ∈ rows, IsRow row

theorem prefix_header (u : CodeUnit) : headerStart <+: u.header.toList := by
  unfold header
  rw [String.append_assoc, String.toList_append]
  exact (by decide : headerStart <+: "Disassembly of ".toList).trans (List.prefix_append _ _)

/-- The header of a unit and some rows are a block. -/
theorem isBlock_rows (u : CodeUnit) {rows : List String} (hrows : ∀ row ∈ rows, IsRow row) :
    IsBlock ((u.header :: rows).map String.toList) := by
  constructor
  case ne_nil => exact List.cons_ne_nil _ _
  case filled =>
    intro l hl
    obtain ⟨line, hline, rfl⟩ := List.mem_map.mp hl
    rcases List.mem_cons.mp hline with rfl | hrow
    · have hline : IsLine u.header :=
        isLine_iff.mpr ((printable_header u).mono notFeed_of_printable)
      refine ⟨fun hempty => ?_, hline⟩
      have hstart := u.prefix_header
      rw [hempty] at hstart
      exact absurd (List.prefix_nil.mp hstart) (by decide)
    · obtain ⟨c, hc, -⟩ := (hrows line hrow).filled
      exact ⟨List.ne_nil_of_mem hc, (hrows line hrow).line⟩

section
variable (hplain : u.IsPlain) {shown : String} (h : u.listing = .ok shown)
include hplain h

theorem exists_rows_of_listing : ∃ rows,
    List.Forall₂ (fun s row => u.row u.targets u.lineStarts s = .ok row) (steps u.words) rows ∧
      (∀ row ∈ rows, IsRow row) ∧
      shown.toList = unlines ((u.header :: rows).map String.toList) := by
  obtain ⟨rows, rfl, hsteps⟩ := lists_of_listing h
  refine ⟨rows, hsteps, fun row hrow => ?_, toList_join _⟩
  obtain ⟨s, hs, hrow⟩ := exists_of_mem_right hsteps hrow
  exact isRow_of_row hplain hs hrow

theorem exists_shows_of_isPartOf {part : List Char} (hpart : IsPartOf shown.toList part) :
    ∃ rows, u.Shows part rows := by
  obtain ⟨rows, hsteps, hrows, hshown⟩ := exists_rows_of_listing hplain h
  have hblock := u.isBlock_rows hrows
  rw [hshown] at hpart
  refine ⟨rows, ?_⟩
  constructor
  case listing =>
    rw [terminated_of_isPartOf hblock hpart, ← hshown, String.ofList_toList]
    exact h
  case lines => exact lines_of_isPartOf hblock hpart
  case header => exact u.prefix_header
  case steps => exact hsteps
  case rows => exact hrows

end

theorem units_ne_nil (u : CodeUnit) : u.units ≠ [] := by
  cases u with
  | mk name file firstLine words lineTable constants names slots =>
      rw [units]
      exact List.cons_ne_nil _ _

/-- The paragraphs of a rendered text show the units, one each and in their order. -/
theorem shows_paragraphs (hplain : ∀ v ∈ u.units, v.IsPlain) {text : String}
    (h : u.render = .ok text) :
    List.Forall₂ (fun v part => ∃ rows, v.Shows part rows) u.units (paragraphs text.toList) := by
  obtain ⟨listings, hlistings, rfl⟩ := exists_of_map h
  have heach := (List.forall₂_and_left (p := (· ∈ u.units)) _ _).mpr
    ⟨fun v hv => hv, forall₂_of_mapM hlistings⟩
  have hne : listings.map String.toList ≠ [] := by
    intro hempty
    obtain rfl := List.map_eq_nil_iff.mp hempty
    exact u.units_ne_nil (List.forall₂_nil_right_iff.mp heach)
  have hparts : List.Forall₂ IsPartOf (listings.map String.toList)
      (paragraphs ("\n".intercalate listings).toList) := by
    rw [String.toList_intercalate]
    refine paragraphs_intercalate hne fun t ht => ?_
    obtain ⟨shown, hshown, rfl⟩ := List.mem_map.mp ht
    obtain ⟨v, -, hv, hlisting⟩ := exists_of_mem_right heach hshown
    obtain ⟨rows, -, hrows, hblock⟩ := exists_rows_of_listing (hplain v hv) hlisting
    exact ⟨_, v.isBlock_rows hrows, hblock⟩
  rw [List.forall₂_map_left_iff] at hparts
  refine (forall₂_trans heach hparts).imp ?_
  rintro v part ⟨shown, ⟨hv, hlisting⟩, hpart⟩
  exact exists_shows_of_isPartOf (hplain v hv) hlisting hpart

/-- **Taking a rendered text apart.**  Units whose steps are instructions are rendered unless one of
these has an argument that is too long to be written, and then the paragraphs of the text show the
units, one each and in their order. -/
theorem render_sections (hdecodes : ∀ v ∈ u.units, v.Decodes) (hplain : ∀ v ∈ u.units, v.IsPlain) :
    ((∀ v ∈ u.units, ∀ n ∈ v.arguments, IsShort n) →
      ∃ text, u.render = .ok text ∧
        List.Forall₂ (fun v part => ∃ rows, v.Shows part rows) u.units (paragraphs text.toList)) ∧
    ((∃ v ∈ u.units, ∃ n ∈ v.arguments, ¬ IsShort n) → u.render = .error .tooManyDigits) := by
  have hwrites := writes_render_of_decodes hdecodes
  constructor
  · intro hshort
    obtain ⟨text, htext⟩ := hwrites.ok_of_short fun n hn => by
      obtain ⟨v, hv, hn⟩ := List.mem_flatMap.mp hn
      exact hshort v hv n hn
    exact ⟨text, htext, shows_paragraphs hplain htext⟩
  · rintro ⟨v, hv, n, hn, hlong⟩
    exact hwrites.error_of_long (List.mem_flatMap.mpr ⟨v, hv, hn⟩) hlong

/-- A text that looks like a section does not pass for one, and the unit nested in a unit has a
section of its own. -/
theorem render_sections_nested :
    let inner : CodeUnit := .loading [.int 7]
    let outer : CodeUnit := .loading [.text "\n\nDisassembly of <code object x>", .code inner]
    ∃ text first second firstRows secondRows, outer.render = .ok text ∧
      paragraphs text.toList = [first, second] ∧ outer.Shows first firstRows ∧
      inner.Shows second secondRows := by
  intro inner outer
  have hunits : outer.units = [outer, inner] := rfl
  obtain ⟨text, htext, hparts⟩ := (@render_sections outer (by decide +kernel) (by decide)).1
    (by decide +kernel)
  rw [hunits] at hparts
  obtain ⟨first, rest, ⟨firstRows, hfirst⟩, hrest, hsplit⟩ := List.forall₂_cons_left_iff.mp hparts
  obtain ⟨second, none, ⟨secondRows, hsecond⟩, hnone, rfl⟩ := List.forall₂_cons_left_iff.mp hrest
  obtain rfl := List.forall₂_nil_left_iff.mp hnone
  exact ⟨text, first, second, firstRows, secondRows, htext, hsplit, hfirst, hsecond⟩

end CodeUnit

/-! ### An argument that is too long -/

/-- A unit of extensions only. -/
def CodeUnit.extended (length : Nat) : CodeUnit where
  name := "<module>"
  file := "f"
  firstLine := 1
  words := ⟨144, 128⟩ :: List.replicate length ⟨144, 0⟩
  lineTable := []
  constants := []
  names := []
  slots := []

theorem stepsFrom_extension (offset : Nat) (extension : Int) (a : UInt8) (ws : List Word) :
    stepsFrom offset 0 extension (⟨144, a⟩ :: ws) =
      ⟨offset, Opcode.ofNumber 144, some (extension + a.toNat)⟩ ::
        stepsFrom (offset + 2) 0 (carried (extension + a.toNat)) ws :=
  rfl

/-- What extensions hand on grows without bound once it is negative. -/
theorem exists_argument_of_replicate (offset : Nat) (extension : Int) (h : extension ≤ 0)
    (k : Nat) : ∃ s ∈ stepsFrom offset 0 extension (List.replicate (k + 1) ⟨144, 0⟩),
      s.argument = some (extension * 256 ^ k) := by
  induction k generalizing offset extension with
  | zero =>
      rw [List.replicate_succ, stepsFrom_extension]
      refine ⟨_, List.mem_cons_self, congrArg some ?_⟩
      exact (Int.add_zero extension).trans (Int.mul_one extension).symm
  | succ k ih =>
      have hcarried : carried (extension + (0 : UInt8).toNat) = extension * 256 := by
        show carried (extension + 0) = extension * 256
        unfold carried
        dsimp only
        rw [if_neg (by omega), Int.add_zero]
      obtain ⟨s, hs, hargument⟩ := ih (offset + 2) (extension * 256) (by omega)
      rw [List.replicate_succ, stepsFrom_extension, hcarried]
      refine ⟨s, List.mem_cons_of_mem _ hs, ?_⟩
      rw [hargument, Int.mul_assoc, ← Int.pow_succ']

namespace CodeUnit

/-- The contribution of the third extension is the first that is negative. -/
theorem mem_arguments_extended (k : Nat) :
    -0x80000000 * 256 ^ k ∈ (extended (k + 3)).arguments := by
  obtain ⟨s, hs, hargument⟩ :=
    exists_argument_of_replicate 6 (-0x80000000) (by decide) k
  have hthird : carried (carried (carried (0 + (128 : UInt8).toNat) + (0 : UInt8).toNat) +
      (0 : UInt8).toNat) = -0x80000000 := by
    decide
  have hmem : s ∈ steps (extended (k + 3)).words := by
    unfold extended steps
    rw [List.replicate_succ, List.replicate_succ, stepsFrom_extension, stepsFrom_extension,
      stepsFrom_extension, hthird]
    exact List.mem_cons_of_mem _ (List.mem_cons_of_mem _ (List.mem_cons_of_mem _ hs))
  refine List.mem_flatMap.mpr ⟨s, hmem, ?_⟩
  rw [hargument]
  exact List.mem_singleton_self _

/-- A unit of extensions only refers to nothing. -/
theorem decodes_of_extensions {u : CodeUnit} (h : ∀ w ∈ u.words, w.operation = 144) :
    u.Decodes := by
  intro s hs
  obtain ⟨w, hw, hopcode⟩ := exists_word_of_mem_stepsFrom hs
  have hoperand : s.opcode.operand = .extension := by
    rw [hopcode, h w hw]
    rfl
  cases ha : s.argument with
  | none => exact ⟨_, instruction_of_none _ ha⟩
  | some a =>
      rw [instruction_of_some _ ha, hoperand]
      exact ⟨_, rfl⟩

theorem operation_of_mem_extended {length : Nat} :
    ∀ w ∈ (extended length).words, w.operation = 144 := by
  intro w hw
  rcases List.mem_cons.mp hw with rfl | hw
  · rfl
  · rw [(List.mem_replicate.mp hw).2]

theorem decodes_extended (length : Nat) : (extended length).Decodes :=
  decodes_of_extensions operation_of_mem_extended

/-- Instructions with an argument that is too long to be written are not rendered. -/
theorem render_fails_of_extended :
    let u : CodeUnit := .extended 1785
    (∀ v ∈ u.units, v.Decodes) ∧ (∀ v ∈ u.units, v.IsPlain) ∧ u.render = .error .tooManyDigits := by
  intro u
  have hunits : u.units = [u] := rfl
  have hdecodes : ∀ v ∈ u.units, v.Decodes := by
    intro v hv
    rw [hunits] at hv
    obtain rfl := List.mem_singleton.mp hv
    exact decodes_extended 1785
  have hplain : ∀ v ∈ u.units, v.IsPlain := by
    intro v hv
    rw [hunits] at hv
    obtain rfl := List.mem_singleton.mp hv
    decide
  refine ⟨hdecodes, hplain, ?_⟩
  have hlong : ¬ IsShort (-0x80000000 * 256 ^ 1782) := by decide +kernel
  have hmem : -0x80000000 * 256 ^ 1782 ∈ u.units.flatMap arguments :=
    List.mem_flatMap.mpr ⟨u, hunits ▸ List.mem_singleton_self u, mem_arguments_extended 1782⟩
  exact (writes_render_of_decodes hdecodes).error_of_long hmem hlong

end CodeUnit

end CodeListing
