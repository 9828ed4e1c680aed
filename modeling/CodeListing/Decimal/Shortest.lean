import CodeListing.Text.Numeral

/-! # The shortest decimal that reads back

A finite floating-point value is `mantissa * 2 ^ exponent`.  The reals that round to it form an
interval that reaches half-way to the values below and above, its ends included exactly when the
mantissa is even; below a power of two the gap is half as wide (`Binary.narrowBelow`).

Every such value has a finite decimal expansion, so the search runs over natural numbers: the
value and both ends are written over one power of ten (`Binary.scaled`), and for one digit, two
digits and so on up to seventeen the neighbours of the value among the decimals with that many
digits are compared with the ends (`Scaled.reads`).  The first number of digits at which one lies
inside wins, of two neighbours inside the nearer, and of two equally near ones the even one
(`Scaled.shortest`). -/

namespace CodeListing.Decimal

/-- A finite value without its sign. -/
structure Binary where
  mantissa : Nat
  exponent : Int
  narrowBelow : Bool
deriving DecidableEq, Repr

/-- The value with the given bits, which must not be those of an infinity or of no number. -/
def Binary.ofBits (bits : UInt64) : Binary :=
  let exponent := ((bits >>> 52) &&& 0x7ff).toNat
  let fraction := (bits &&& 0xfffffffffffff).toNat
  if exponent = 0 then ⟨fraction, -1074, false⟩
  else ⟨0x10000000000000 + fraction, (exponent : Int) - 1075, fraction == 0 && exponent > 1⟩

/-- A value and the ends of its interval, all counted in units of `10 ^ unit`. -/
structure Scaled where
  unit : Int
  low : Nat
  value : Nat
  high : Nat
  closed : Bool
deriving DecidableEq, Repr

/-- A value over a power of ten, in quarters of the gap between values. -/
def Binary.scaled (b : Binary) : Scaled :=
  let q := b.exponent - 2
  let scale := if q < 0 then Nat.pow 5 (-q).toNat else 1 <<< q.toNat
  { unit := min q 0
    low := (4 * b.mantissa - if b.narrowBelow then 1 else 2) * scale
    value := 4 * b.mantissa * scale
    high := (4 * b.mantissa + 2) * scale
    closed := b.mantissa % 2 == 0 }

/-- Whether a number of units lies in the interval. -/
def Scaled.reads (s : Scaled) (n : Nat) : Bool :=
  if s.closed then s.low ≤ n && n ≤ s.high else s.low < n && n < s.high

/-- A decimal, `digits * 10 ^ exponent`. -/
structure Scientific where
  digits : Nat
  exponent : Int
deriving DecidableEq, Repr

/-- The better of the two neighbours of the value among the multiples of `10 ^ drop` units. -/
def Scaled.neighbour? (s : Scaled) (drop : Nat) : Option Scientific :=
  let step := Nat.pow 10 drop
  let down := s.value / step
  let up := down + 1
  let exponent := s.unit + drop
  if s.reads (down * step) then
    if s.reads (up * step) then
      let toDown := s.value - down * step
      let toUp := up * step - s.value
      if toUp < toDown || (toUp == toDown && down % 2 == 1) then some ⟨up, exponent⟩
      else some ⟨down, exponent⟩
    else some ⟨down, exponent⟩
  else if s.reads (up * step) then some ⟨up, exponent⟩
  else none

/-- The decimal with the fewest digits that lies in the interval. -/
def Scaled.shortest (s : Scaled) : Scientific :=
  let length := (Numeral.natural s.value).length
  ((List.range 17).findSome? fun n => s.neighbour? (length - (n + 1))).getD ⟨s.value, s.unit⟩

/-- Zeros at the end of the digits, moved into the exponent; `fuel` bounds their number. -/
def stripZeros : Nat → Scientific → Scientific
  | 0, d => d
  | fuel + 1, d =>
    if d.digits % 10 = 0 && d.digits ≠ 0 then stripZeros fuel ⟨d.digits / 10, d.exponent + 1⟩ else d

/-- A decimal written out, positionally when the exponent of its leading digit lies between -4 and
15 and with an exponent of at least two digits otherwise. -/
def layOut (d : Scientific) : List Char :=
  let ds := Numeral.natural d.digits
  let leading := d.exponent + ds.length - 1
  if -4 ≤ leading ∧ leading < 16 then
    if 0 ≤ d.exponent then ds ++ List.replicate d.exponent.toNat '0' ++ ['.', '0']
    else
      let point := d.exponent + ds.length
      if 0 < point then ds.take point.toNat ++ '.' :: ds.drop point.toNat
      else '0' :: '.' :: (List.replicate (-point).toNat '0' ++ ds)
  else
    let mantissa := match ds with
      | [] => []
      | [c] => [c]
      | c :: cs => c :: '.' :: cs
    let sign := if leading < 0 then '-' else '+'
    mantissa ++ 'e' :: sign :: (Numeral.natural leading.natAbs).leftpad 2 '0'

/-- The text of a floating-point value. -/
def text (x : Float) : String :=
  let bits := x.toBits
  let magnitude := bits &&& 0x7fffffffffffffff
  let sign := if bits ≠ magnitude then ['-'] else []
  if magnitude > 0x7ff0000000000000 then "nan"
  else if magnitude = 0x7ff0000000000000 then String.ofList (sign ++ ['i', 'n', 'f'])
  else if magnitude = 0 then String.ofList (sign ++ ['0', '.', '0'])
  else
    let d := (Binary.ofBits magnitude).scaled.shortest
    String.ofList (sign ++ layOut (stripZeros (Numeral.natural d.digits).length d))

end CodeListing.Decimal
