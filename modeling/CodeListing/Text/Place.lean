import CodeListing.Text.Context

/-! # Places in a text

A column is usually an integer, and then its place is an index (`index?`).  It may also be a number
in binary floating point.  Such a column counts in the same way, with the rounding of its own
arithmetic, and one past the end of the line still means the end of the line, which is an index;
any other place that it gives stays a number of its own kind, whether or not it has a fraction
(`Place.ofColumn`).

The window around a number is that of the line it lies in, from the start of the line to its end.  A
number between the end of one line and the start of the next lies in none (`windowAround?`). -/

namespace CodeListing

/-- A place in a text, given by an index or by a number in binary floating point. -/
inductive Place where
  | index (i : Int)
  | number (x : Float)

/-- The window of the line that a number lies in; its column is that of the index before. -/
def windowAround? (text : List Char) (x : Float) : Option Window :=
  if 0 ≤ x then
    match window? text x.floor.toUInt64.toNat, window? text x.ceil.toUInt64.toNat with
    | some w, some w' => if w.number = w'.number then some w else none
    | _, _ => none
  else none

namespace Place

/-- The place of a column of the line that lies between two indices. -/
def ofColumn (span : Nat × Nat) (column : Float) : Place :=
  let x := span.1.toFloat + column - 1
  if span.2.toFloat < x then index span.2 else number x

def window? (text : List Char) : Place → Option Window
  | index i => CodeListing.window? text i
  | number x => windowAround? text x

@[simp] theorem window?_index (text : List Char) (i : Int) :
    (index i).window? text = CodeListing.window? text i := rfl

end Place
end CodeListing
