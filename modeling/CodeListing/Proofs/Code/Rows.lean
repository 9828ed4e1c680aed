import CodeListing.Proofs.Code.Content

/-! # The rows of a listing

A row is on one line, it is not blank, and it does not pass for a header (`IsRow`).  A unit is plain
if the names and the texts of numbers that it shows as they are hold no line feed
(`CodeUnit.IsPlain`).  Then every line that shows an instruction of the unit is a row
(`CodeUnit.isRow_of_row`): it begins with the number of a line or with blanks, and a colon stands
behind its offset. -/

namespace CodeListing

/-- A unit whose names, which are shown as they are, hold no line feed, and neither do the texts of
its numbers. -/
structure CodeUnit.IsPlain (u : CodeUnit) : Prop where
  names : ∀ name ∈ u.names, IsLine name
  slots : ∀ name ∈ u.slots, IsLine name
  numbers : ∀ text ∈ numbersIn u.constants, IsLine text

instance (u : CodeUnit) : Decidable u.IsPlain :=
  decidable_of_iff ((∀ name ∈ u.names, IsLine name) ∧ (∀ name ∈ u.slots, IsLine name) ∧
      ∀ text ∈ numbersIn u.constants, IsLine text)
    ⟨fun ⟨names, slots, numbers⟩ => ⟨names, slots, numbers⟩,
      fun ⟨names, slots, numbers⟩ => ⟨names, slots, numbers⟩⟩

theorem CodeUnit.IsPlain.givenIn {u : CodeUnit} (h : u.IsPlain) : u.GivenIn notFeed where
  names name hname := isLine_iff.mp (h.names name hname)
  slots name hname := isLine_iff.mp (h.slots name hname)
  numbers text htext := isLine_iff.mp (h.numbers text htext)

/-- How the header of every unit begins. -/
def headerStart : List Char := "Disassembly of".toList

/-- A line that is not blank and does not pass for a header. -/
structure IsRow (row : String) : Prop where
  line : IsLine row
  filled : ∃ c ∈ row.toList, isBlank c = false
  plain : ¬ headerStart <+: row.toList

namespace Instruction
variable (i : Instruction)

theorem lineNumber_ne_nil (line : Option Int) : lineNumber line ≠ [] := by
  cases line with
  | none => exact List.cons_ne_nil _ _
  | some l =>
      intro h
      have hlength := congrArg List.length h
      rw [lineNumber, List.length_leftpad] at hlength
      simp at hlength

theorem isRow_layOut (line : Option Int) (hname : MadeOf notFeed i.name) {argument : List Char}
    (hargument : ∀ c ∈ argument, notFeed c = true) {operand : String}
    (hoperand : MadeOf notFeed operand) :
    IsRow (i.layOut (lineNumber line) argument operand) := by
  have hcolon : ':' ∈ (i.rest argument operand).toList := by
    unfold rest
    simp
  have hkept : ':' ∈ (i.layOut (lineNumber line) argument operand).toList := by
    rw [layOut_eq, toList_trimEnd, String.toList_append]
    exact mem_dropEnd (List.mem_append_right _ hcolon) (by decide)
  constructor
  case line =>
    exact isLine_iff.mpr (i.madeOf_layOut notFeed_of_printable line hname hargument hoperand)
  case filled => exact ⟨':', hkept, by decide⟩
  case plain =>
    intro hstart
    rw [layOut_eq] at hstart
    obtain ⟨c, cs, hc⟩ := List.exists_cons_of_ne_nil (lineNumber_ne_nil line)
    have hprefix : headerStart <+:
        (String.ofList (lineNumber line) ++ i.rest argument operand).toList := by
      refine hstart.trans ?_
      rw [toList_trimEnd]
      exact prefix_dropEnd _ _
    rw [String.toList_append, String.toList_ofList, hc, List.cons_append] at hprefix
    have hhead : 'D' = c := (List.cons_prefix_cons.mp hprefix).1
    have hmem : c ∈ lineNumber line := hc ▸ List.mem_cons_self
    rw [← hhead] at hmem
    exact absurd (mem_lineNumber hmem) (by decide)

end Instruction

namespace CodeUnit
variable {u : CodeUnit} {targets : List Int} {s : Step}

theorem isRow_of_row (hplain : u.IsPlain) (hs : s ∈ steps u.words) {starts : List (Nat × Int)}
    {row : String} (h : u.row targets starts s = .ok row) : IsRow row := by
  obtain ⟨i, argument, operand, rfl, hname, hargument, hoperand⟩ :=
    exists_layOut_of_row notFeed_of_printable hplain.givenIn hs h
  exact i.isRow_layOut _ hname hargument hoperand

end CodeUnit
end CodeListing
