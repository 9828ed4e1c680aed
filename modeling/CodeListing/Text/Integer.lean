import CodeListing.Text.Blank
import CodeListing.Text.DecimalDigit

/-! # Reading an integer

An integer is written as an optional sign directly before its digits, the digits being decimal
digits of any script with single underscores allowed between them, and blanks may surround the
whole (`readInteger?`).  There is no other base and no other mark.  More than `digitLimit` digits,
leading zeros counted, are refused, as is the decimal form of a number of more digits than that
(`fitsDigitLimit`). -/

namespace CodeListing

/-- The largest number of decimal digits that is converted between text and number. -/
def digitLimit : Nat := 4300

/-- Whether the decimal form of `n` has at most `digitLimit` digits. -/
def fitsDigitLimit (n : Int) : Bool := n.natAbs < Nat.pow 10 digitLimit

/-- The values of the digits that follow a digit. -/
def digitsAfter? : List Char → Option (List Nat)
  | [] => some []
  | '_' :: c :: cs => do
    let d ← digitValue? c
    let ds ← digitsAfter? cs
    return d :: ds
  | c :: cs => do
    let d ← digitValue? c
    let ds ← digitsAfter? cs
    return d :: ds

/-- The values of the digits of an unsigned number; at least one is needed. -/
def digits? : List Char → Option (List Nat)
  | [] => none
  | c :: cs => do
    let d ← digitValue? c
    let ds ← digitsAfter? cs
    return d :: ds

/-- The number written by decimal digits, the most significant first. -/
def ofDigits (ds : List Nat) : Nat := ds.foldl (fun n d => 10 * n + d) 0

/-- An unsigned number within the limit. -/
def readNatural? (cs : List Char) : Option Nat := do
  let ds ← digits? cs
  if ds.length ≤ digitLimit then some (ofDigits ds) else none

/-- An integer without blanks around it. -/
def readSigned? : List Char → Option Int
  | '-' :: cs => (readNatural? cs).map fun n => -(n : Int)
  | '+' :: cs => (readNatural? cs).map fun n => (n : Int)
  | cs => (readNatural? cs).map fun n => (n : Int)

/-- The integer that a text denotes, if it denotes one. -/
def readInteger? (s : String) : Option Int := readSigned? (trim isBlankAroundNumber s.toList)

end CodeListing
