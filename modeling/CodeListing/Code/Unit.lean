import CodeListing.Text.Escape
import CodeListing.Text.Integer
import CodeListing.Text.Quote
import CodeListing.Fault

/-! # Compiled units

A compiled unit (`CodeUnit`) has a name, the file and line it comes from, its instructions as words
of two bytes, a table that assigns lines to words, and the tables that the instructions refer to:
constants, names, and the names of its slots.  A constant may itself be a unit, so units nest.

`CodeUnit.label` names a unit without saying where it is stored, so equal sources have equal labels.
`Constant.shown` writes a constant as the disassembled language would; it fails on an integer with
more digits than are converted to text, at any depth.  It fails for nothing else, since the stack is
taken to have room for tuples and sets of any depth. -/

namespace CodeListing

/-- An operation and the byte of its argument. -/
structure Word where
  operation : UInt8
  argument : UInt8
deriving DecidableEq, Repr

mutual

/-- A constant of a unit; a floating-point or complex number is given by its text. -/
inductive Constant where
  | none
  | truth (b : Bool)
  | ellipsis
  | int (n : Int)
  | number (shown : String)
  | text (s : String)
  | bytes (bs : List UInt8)
  | tuple (items : List Constant)
  | set (items : List Constant)
  | code (unit : CodeUnit)

structure CodeUnit where
  name : String
  file : String
  firstLine : Int
  words : List Word
  lineTable : List UInt8
  constants : List Constant
  names : List String
  slots : List String

end

/-- The name under which a unit is shown. -/
def CodeUnit.label (u : CodeUnit) : String :=
  "<code object " ++ escape u.name ++ ", file \"" ++ escape u.file ++ "\", line " ++
    Numeral.text u.firstLine ++ ">"

/-- A tuple of items already in text. -/
def tupleText : List String → String
  | [x] => "(" ++ x ++ ",)"
  | xs => "(" ++ ", ".intercalate xs ++ ")"

/-- A set of items already in text, between braces. -/
def bracedSet (xs : List String) : String :=
  "frozenset(\x7b" ++ ", ".intercalate xs ++ "\x7d)"

/-- A set of items already in text. -/
def setText : List String → String
  | [] => "frozenset()"
  | xs => bracedSet xs

mutual

def Constant.shown : Constant → Except Fault String
  | .none => .ok "None"
  | .truth b => .ok (if b then "True" else "False")
  | .ellipsis => .ok "Ellipsis"
  | .int n => if fitsDigitLimit n then .ok (Numeral.text n) else .error .tooManyDigits
  | .number shown => .ok shown
  | .text s => .ok (quoteText s)
  | .bytes bs => .ok (quoteBytes bs)
  | .tuple items => do return tupleText (← shownItems items)
  | .set items => do return setText (← shownItems items)
  | .code u => .ok u.label

/-- The texts of several constants, or the first failure among them. -/
def shownItems : List Constant → Except Fault (List String)
  | [] => .ok []
  | k :: ks => do return (← k.shown) :: (← shownItems ks)

end

end CodeListing
