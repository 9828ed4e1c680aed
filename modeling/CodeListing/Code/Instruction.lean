import CodeListing.Code.Opcode
import CodeListing.Code.Unit
import CodeListing.Text.Blank

/-! # Instructions

The words of a unit are read one after the other.  Words that hold cached data of the operation
before them are passed over; every other word is an instruction at its own offset (`Step`).  An
argument wider than a byte is built up by `extension` instructions, which are listed themselves
too: each contributes its argument, moved up by one byte, to the argument of the next instruction,
and a contribution of `2 ^ 31` or more is lowered by `2 ^ 32`, once (`carried`).

An argument refers to a table of the unit, to a table of the machine or to another offset, and the
operand of the instruction is the text of what it refers to (`CodeUnit.operandOf`).  An index that
is negative counts from the end of a table (`fromEitherEnd?`), except in the table of slots; an
index beyond the table is a fault, a different one if it does not even fit into a register.

`Instruction.text` is the line that shows an instruction: its source line, a mark where a jump leads
to it, its offset, its name, its argument and its operand, without blanks at the end. -/

namespace CodeListing

/-- An operation at an offset, with its complete argument. -/
structure Step where
  offset : Nat
  opcode : Opcode
  argument : Option Int
deriving DecidableEq, Repr

/-- What an extension with the given argument contributes to the next argument. -/
def carried (argument : Int) : Int :=
  let n := argument * 256
  if 0x80000000 ≤ n then n - 0x100000000 else n

/-- The steps of the words from `offset` on, of which the first `skip` hold cached data; `extension`
is contributed to the first argument. -/
def stepsFrom (offset skip : Nat) (extension : Int) : List Word → List Step
  | [] => []
  | w :: ws =>
    match skip with
    | skip + 1 => stepsFrom (offset + 2) skip extension ws
    | 0 =>
      let o := Opcode.ofNumber w.operation.toNat
      if o.hasArgument then
        let a := extension + w.argument.toNat
        ⟨offset, o, some a⟩ ::
          stepsFrom (offset + 2) o.caches (if o.operand = .extension then carried a else 0) ws
      else ⟨offset, o, none⟩ :: stepsFrom (offset + 2) o.caches 0 ws

def steps (words : List Word) : List Step := stepsFrom 0 0 0 words

/-- The offset that a step jumps to. -/
def Step.target? (s : Step) : Option Int :=
  match s.opcode.operand, s.argument with
  | .forward, some a => some (s.offset + 2 + 2 * a)
  | .backward, some a => some (s.offset + 2 - 2 * a)
  | _, _ => none

/-- The element at an index, where a negative index counts from the end. -/
def fromEitherEnd? {α : Type} (xs : List α) (i : Int) : Option α :=
  if 0 ≤ i then xs[i.toNat]?
  else if -(xs.length : Int) ≤ i then xs[(xs.length + i).toNat]?
  else none

/-- The comparisons of the machine. -/
def comparisons : List String := ["<", "<=", "==", "!=", ">", ">="]

/-- The binary operators without assignment. -/
def plainOperators : List String :=
  ["+", "&", "//", "<<", "@", "*", "%", "|", "**", ">>", "-", "/", "^"]

/-- The binary operators of the machine. -/
def operators : List String := plainOperators ++ plainOperators.map (· ++ "=")

/-- How a value is converted before it is formatted, by the lowest two bits of the argument, and
whether a format is given, by the third. -/
def conversionText (a : Int) : String :=
  let how := match (a % 4).toNat with
    | 1 => "str"
    | 2 => "repr"
    | 3 => "ascii"
    | _ => ""
  if a / 4 % 2 = 1 then
    if how = "" then "with format" else how ++ ", with format"
  else how

/-- The parts of a function that the lowest four bits of the argument name. -/
def functionParts (a : Int) : String :=
  ", ".intercalate <|
    (["defaults", "kwdefaults", "annotations", "closure"].zipIdx.filter fun p =>
      a.shiftRight p.2 % 2 = 1).map (·.1)

/-- An instruction as it is shown: `value` is the constant that the argument refers to. -/
structure Instruction where
  offset : Int
  name : String
  argument : Option Int
  value : Option Constant
  operand : String
  isTarget : Bool

/-- The element of a table at an index, or a fault. -/
def lookUp {α : Type} (beyond : Fault) (xs : List α) (i : Int) : Except Fault α :=
  match fromEitherEnd? xs i with
  | some x => .ok x
  | none => .error (if fitsRegister i then beyond else .indexTooWide)

/-- The name of a slot, or a fault. -/
def lookUpSlot (names : List String) (i : Int) : Except Fault String :=
  match i with
  | .ofNat n =>
    match names[n]? with
    | some name => .ok name
    | none => .error (if n < 0x80000000 then .outOfTuple else .slotTooWide)
  | .negSucc n => .error (if n < 0x80000000 then .outOfTuple else .slotTooWide)

/-- An integer in decimal, if it has no more digits than are written. -/
def writtenDecimal (n : Int) : Except Fault (List Char) :=
  if fitsDigitLimit n then .ok (Numeral.decimal n) else .error .tooManyDigits

namespace CodeUnit
variable (u : CodeUnit)

/-- The constant that an argument refers to, and the text of the operand. -/
def operandOf (kind : OperandKind) (target : Option Int) (a : Int) :
    Except Fault (Option Constant × String) :=
  match kind with
  | .plain | .extension => .ok (none, "")
  | .constant => do
    let k ← lookUp .outOfTuple u.constants a
    return (some k, ← k.shown)
  | .name => do return (none, ← lookUp .outOfTuple u.names a)
  | .globalName => do
    let n ← lookUp .outOfTuple u.names (a / 2)
    return (none, if a % 2 = 1 ∧ n ≠ "" then "NULL + " ++ n else n)
  | .forward | .backward => do
    return (none, "to " ++ String.ofList (← writtenDecimal (target.getD 0)))
  | .slot => do return (none, ← lookUpSlot u.slots a)
  | .comparison => do return (none, ← lookUp .outOfTuple comparisons a)
  | .arithmetic => do return (none, ← lookUp .outOfList operators a)
  | .conversion => .ok (none, conversionText a)
  | .closureParts => .ok (none, functionParts a)

/-- The instruction of a step, where `targets` are the offsets that jumps lead to. -/
def instruction (targets : List Int) (s : Step) : Except Fault Instruction := do
  let (value, operand) ← match s.argument with
    | none => pure (none, "")
    | some a => u.operandOf s.opcode.operand s.target? a
  return {
    offset := s.offset
    name := s.opcode.name
    argument := s.argument
    value, operand
    isTarget := (s.offset : Int) ∈ targets }

end CodeUnit

namespace Instruction
variable (i : Instruction)

/-- The operand as it is shown: a unit by its label, a set that is loaded with its items in
ascending order. -/
def operandText : Except Fault String :=
  match i.value with
  | some (.code u) => .ok u.label
  | some (.set items) =>
    if i.name = "LOAD_CONST" then do
      let xs ← shownItems items
      return bracedSet (xs.mergeSort fun a b => decide (a ≤ b))
    else .ok i.operand
  | _ => .ok i.operand

/-- The number of a source line as it is shown, or the blanks in its place. -/
def lineText : Option Int → Except Fault (List Char)
  | some l => do return (← writtenDecimal l).leftpad 4 ' '
  | none => .ok (List.replicate 4 ' ')

/-- The line of an instruction with its line number, its argument and its operand already in
text. -/
def layOut (number argument : List Char) (operand : String) : String :=
  trimEnd <|
    String.ofList number ++ (if i.isTarget then " >> " else "    ") ++
      String.ofList (Numeral.signedHexWide 8 i.offset) ++ ": " ++
      String.ofList (i.name.toList.rightpad 20 ' ') ++ String.ofList argument ++
      (if operand = "" then "" else "; " ++ operand)

/-- The argument of an instruction as it is shown. -/
def argumentText : Except Fault (List Char) :=
  match i.argument with
  | some a => do return ' ' :: (← writtenDecimal a).rightpad 6 ' '
  | none => .ok []

def text (line : Option Int) : Except Fault String := do
  return i.layOut (← lineText line) (← i.argumentText) (← i.operandText)

end Instruction
end CodeListing
