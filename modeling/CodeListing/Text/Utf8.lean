import CodeListing.Text.Numeral

/-! # Reading encoded text

The bytes of a source are strict UTF-8: the shortest form of every code point, no surrogates,
nothing above `U+10FFFF`, and a byte order mark is a character like any other.  `decode` walks
over the bytes once; between two bytes it knows which ranges the bytes still missing from the
character must lie in (`Pending`).

The first sequence that is not well formed is reported with the positions of its bytes
(`Malformed`): a byte that starts no character, a lead byte with its valid continuation bytes
before a byte that does not continue them, or those bytes before the end of the data.

`unifyLineEnds` turns a carriage return with a line feed after it, and any other carriage return,
into one line feed. -/

namespace CodeListing.Utf8

/-- What is wrong with a sequence of bytes. -/
inductive Defect where
  | invalidStart
  | invalidContinuation
  | unexpectedEnd
deriving DecidableEq, Repr

/-- The first malformed sequence of some bytes: its first byte, the position of that byte, and the
position of its last byte. -/
structure Malformed where
  defect : Defect
  byte : UInt8
  first : Nat
  last : Nat
deriving DecidableEq, Repr

def Defect.reason : Defect → String
  | invalidStart => "invalid start byte"
  | invalidContinuation => "invalid continuation byte"
  | unexpectedEnd => "unexpected end of data"

/-- The text of a malformed sequence: the byte of a single one, or the positions of several. -/
def Malformed.message (m : Malformed) : String :=
  let where_ :=
    if m.first = m.last then
      "byte 0x" ++ String.ofList (Numeral.hexWide 2 m.byte.toNat) ++ " in position " ++
        Numeral.text m.first
    else "bytes in position " ++ Numeral.text m.first ++ "-" ++ Numeral.text m.last
  "'utf-8' codec can't decode " ++ where_ ++ ": " ++ m.defect.reason

/-- A character of which some bytes are still missing: the position and value of its lead byte, the
bits so far, and the range of each missing byte, the next one first. -/
structure Pending where
  position : Nat
  lead : UInt8
  bits : Nat
  next : Nat × Nat
  later : List (Nat × Nat)
deriving DecidableEq, Repr

/-- The range of a byte that continues a character without further condition. -/
def continuation : Nat × Nat := (0x80, 0xbf)

/-- What a byte at the start of a character leads to: the bits it carries and the ranges of the
bytes that must follow, or nothing if no character starts with it. -/
def leadOf (b : Nat) : Option (Nat × List (Nat × Nat)) :=
  if b < 0x80 then some (b, [])
  else if b < 0xc2 then none
  else if b < 0xe0 then some (b - 0xc0, [continuation])
  else if b = 0xe0 then some (0, [(0xa0, 0xbf), continuation])
  else if b = 0xed then some (0xd, [(0x80, 0x9f), continuation])
  else if b < 0xf0 then some (b - 0xe0, [continuation, continuation])
  else if b = 0xf0 then some (0, [(0x90, 0xbf), continuation, continuation])
  else if b < 0xf4 then some (b - 0xf0, [continuation, continuation, continuation])
  else if b = 0xf4 then some (4, [(0x80, 0x8f), continuation, continuation])
  else none

/-- The characters of the bytes from position `pos` on. -/
def decodeFrom (pos : Nat) : Option Pending → List UInt8 → Except Malformed (List Char)
  | none, [] => .ok []
  | some p, [] => .error ⟨.unexpectedEnd, p.lead, p.position, pos - 1⟩
  | none, b :: bs =>
    match leadOf b.toNat with
    | none => .error ⟨.invalidStart, b, pos, pos⟩
    | some (bits, []) => (decodeFrom (pos + 1) none bs).map (Char.ofNat bits :: ·)
    | some (bits, next :: later) => decodeFrom (pos + 1) (some ⟨pos, b, bits, next, later⟩) bs
  | some p, b :: bs =>
    if p.next.1 ≤ b.toNat ∧ b.toNat ≤ p.next.2 then
      let bits := 64 * p.bits + (b.toNat - 0x80)
      match p.later with
      | [] => (decodeFrom (pos + 1) none bs).map (Char.ofNat bits :: ·)
      | next :: later => decodeFrom (pos + 1) (some { p with bits, next, later }) bs
    else .error ⟨.invalidContinuation, p.lead, p.position, pos - 1⟩

def decode (bytes : List UInt8) : Except Malformed (List Char) := decodeFrom 0 none bytes

/-- Every line end as one line feed. -/
def unifyLineEnds : List Char → List Char
  | [] => []
  | '\r' :: '\n' :: cs => '\n' :: unifyLineEnds cs
  | c :: cs => (if c = '\r' then '\n' else c) :: unifyLineEnds cs

end CodeListing.Utf8
