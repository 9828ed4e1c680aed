/-! # Line tables

A line table is a sequence of entries, each for a run of one to eight words.  The first byte of an
entry has its high bit set (the very first byte of the table starts an entry in any case) and holds
the kind of the entry and its number of words; the bytes up to the next such byte belong to it.

Lines are counted from the first line of the unit.  By its kind an entry leaves the line as it is,
moves it by a fixed amount, or moves it by a signed number that follows in groups of six bits, the
lowest first (`signedNumber`).  Lines and numbers are kept in registers of 32 bits: a line beyond
them wraps around, and a group moved up by 32 bits or more is moved by the rest of that amount only.
An entry of the last kind has no line, and neither has one whose line is negative.

`ranges` gives the bytes covered by each run of entries with the same line, and `lineStarts` the
offsets at which a line starts that differs from the last line seen.  A reader may as well go
through the entries one by one (`rangesFrom`): lines start at the same offsets, and an offset has
the same line. -/

namespace CodeListing.LineTable

/-- An entry: its first byte and all bytes of the table behind it. -/
structure Entry where
  head : UInt8
  rest : List UInt8
deriving DecidableEq, Repr

/-- Entries that start at bytes with the high bit set. -/
def entriesFrom : List UInt8 → List Entry
  | [] => []
  | b :: bs => if b < 128 then entriesFrom bs else ⟨b, bs⟩ :: entriesFrom bs

def entries : List UInt8 → List Entry
  | [] => []
  | b :: bs => ⟨b, bs⟩ :: entriesFrom bs

/-- The bits of the groups from some bytes on, the first moved up by `shift`. -/
def numberFrom (shift : UInt32) : List UInt8 → UInt32
  | [] => 0
  | b :: bs =>
    let group := (b.toUInt32 &&& 63) <<< shift
    if b &&& 64 = 0 then group else group ||| numberFrom (shift + 6) bs

/-- A number in groups of six bits, of which all but the last have the seventh bit set. -/
def number (bs : List UInt8) : UInt32 := numberFrom 0 bs

/-- A number whose lowest bit is its sign. -/
def signedNumber (bs : List UInt8) : Int :=
  let n := number bs
  let magnitude := ((n >>> 1).toNat : Int)
  if n &&& 1 = 1 then -magnitude else magnitude

/-- A line as its register holds it. -/
def wrapped (line : Int) : Int := line.bmod 0x100000000

namespace Entry
variable (e : Entry)

def kind : Nat := e.head.toNat / 8 % 16

/-- The number of bytes of code that an entry covers. -/
def width : Nat := 2 * (e.head.toNat % 8 + 1)

/-- How far an entry moves the line. -/
def delta : Int :=
  if e.kind = 11 then 1
  else if e.kind = 12 then 2
  else if e.kind = 13 ∨ e.kind = 14 then signedNumber e.rest
  else 0

/-- Whether an entry says that its words have no line. -/
def isLineless : Bool := e.head.toNat / 8 = 31

end Entry

/-- A range of offsets, the first included and the last not, with the line of its instructions. -/
structure Range where
  start : Nat
  stop : Nat
  line : Option Int
deriving DecidableEq, Repr

/-- The range of each entry, where the first starts at `offset` and `line` is the line so far. -/
def rangesFrom (offset : Nat) (line : Int) : List Entry → List Range
  | [] => []
  | e :: es =>
    let next := wrapped (line + e.delta)
    let shown := if e.isLineless || next < 0 then none else some next
    ⟨offset, offset + e.width, shown⟩ :: rangesFrom (offset + e.width) next es

/-- Neighbouring ranges with the same line become one. -/
def merge : List Range → List Range
  | [] => []
  | r :: rs =>
    match merge rs with
    | [] => [r]
    | s :: ss => if r.line = s.line then ⟨r.start, s.stop, r.line⟩ :: ss else r :: s :: ss

/-- The ranges of a table, for a unit with the given first line. -/
def ranges (firstLine : Int) (table : List UInt8) : List Range :=
  merge (rangesFrom 0 firstLine (entries table))

/-- The starts of ranges whose line differs from the last line seen. -/
def startsFrom (last : Option Int) : List Range → List (Nat × Int)
  | [] => []
  | r :: rs =>
    match r.line with
    | none => startsFrom last rs
    | some l => if last = some l then startsFrom last rs else (r.start, l) :: startsFrom (some l) rs

/-- The offsets at which lines start, with the lines. -/
def lineStarts (firstLine : Int) (table : List UInt8) : List (Nat × Int) :=
  startsFrom none (ranges firstLine table)

end CodeListing.LineTable
