import CodeListing.Decimal.Shortest
import CodeListing.Text.Quote

/-! # Values of any kind

A caller may hand over a value of any kind where a level, a name or a message is expected, and is
told what it handed over.  `Value` holds such a value, the entries of a dictionary in the order in
which they were made.  `Value.quoted` writes a value as the disassembled language would, a text
between quotes; `Value.plain` is the same except that a text stands for itself.  `Value.typeName`
is the name of its type, and `Value.integer?` reads a value as an integer, truth values counting
as zero and one.

Integers in a value are written with all of their digits.  The limit on digits that holds for the
constants of a unit is not kept here, so every value has a text. -/

namespace CodeListing

inductive Value where
  | null
  | truth (b : Bool)
  | int (n : Int)
  | float (x : Float)
  | text (s : String)
  | list (items : List Value)
  | dict (entries : List (String × Value))

namespace Value

def typeName : Value → String
  | null => "NoneType"
  | truth _ => "bool"
  | int _ => "int"
  | float _ => "float"
  | text _ => "str"
  | list _ => "list"
  | dict _ => "dict"

def truthText (b : Bool) : String := if b then "True" else "False"

mutual

/-- A value with its texts between quotes. -/
def quoted : Value → String
  | null => "None"
  | truth b => truthText b
  | int n => Numeral.text n
  | float x => Decimal.text x
  | text s => quoteText s
  | list items => "[" ++ ", ".intercalate (quotedItems items) ++ "]"
  | dict entries => "\x7b" ++ ", ".intercalate (quotedEntries entries) ++ "\x7d"

/-- The items of a list, each with its texts between quotes. -/
def quotedItems : List Value → List String
  | [] => []
  | v :: vs => quoted v :: quotedItems vs

/-- The entries of a dictionary, each with its texts between quotes. -/
def quotedEntries : List (String × Value) → List String
  | [] => []
  | (k, v) :: es => (quoteText k ++ ": " ++ quoted v) :: quotedEntries es

end

/-- A value with a text standing for itself. -/
def plain : Value → String
  | text s => s
  | v => quoted v

/-- The integer that a value counts as. -/
def integer? : Value → Option Int
  | truth b => some (if b then 1 else 0)
  | int n => some n
  | _ => none

/-- Whether a value is nothing, zero, or without content. -/
def isEmpty : Value → Bool
  | null => true
  | truth b => !b
  | int n => n = 0
  | float x => x == 0
  | text s => s = ""
  | list items => items.isEmpty
  | dict entries => entries.isEmpty

end Value
end CodeListing
