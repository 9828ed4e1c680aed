import CodeListing.Code.Instruction
import CodeListing.Code.LineTable

/-! # Listings

The listing of a unit is a header with its label and one line for each of its instructions
(`CodeUnit.listing`).  The listing of a unit with everything nested in it has such a part for each
unit, parts being separated by an empty line (`CodeUnit.render`): first the unit itself, then, in
the order of its constants, each constant that is a unit with everything nested in that one
(`CodeUnit.units`).  Units are not looked for inside tuples and sets.

Units may be nested to any depth.  A reader that needs room on a stack for each level of nesting
can run out of it; here the room is taken to suffice, and nothing fails because of depth alone. -/

namespace CodeListing

mutual

/-- A unit followed by all units nested in it. -/
def CodeUnit.units : CodeUnit → List CodeUnit
  | ⟨name, file, firstLine, words, lineTable, constants, names, slots⟩ =>
    ⟨name, file, firstLine, words, lineTable, constants, names, slots⟩ :: unitsIn constants

/-- The unit that a constant is, followed by all units nested in it. -/
def Constant.units : Constant → List CodeUnit
  | .code u => u.units
  | _ => []

/-- The units among some constants, each followed by all units nested in it. -/
def unitsIn : List Constant → List CodeUnit
  | [] => []
  | k :: ks => k.units ++ unitsIn ks

end

namespace CodeUnit
variable (u : CodeUnit)

/-- The offsets at which source lines start, with the lines. -/
def lineStarts : List (Nat × Int) := LineTable.lineStarts u.firstLine u.lineTable

/-- The first line of the listing of a unit. -/
def header : String := "Disassembly of " ++ u.label ++ ":"

/-- The line of a step, where `targets` are the offsets that jumps lead to and `starts` those at
which source lines start. -/
def row (targets : List Int) (starts : List (Nat × Int)) (s : Step) : Except Fault String := do
  (← u.instruction targets s).text (starts.lookup s.offset)

/-- The lines of the instructions of a unit. -/
def body : Except Fault (List String) :=
  let ss := steps u.words
  ss.mapM (u.row (ss.filterMap Step.target?) u.lineStarts)

/-- The listing of a unit without those nested in it. -/
def listing : Except Fault String := do
  return String.join ((u.header :: (← u.body)).map (· ++ "\n"))

/-- The listing of a unit and of all units nested in it. -/
def render : Except Fault String := do
  return "\n".intercalate (← u.units.mapM listing)

end CodeUnit
end CodeListing
