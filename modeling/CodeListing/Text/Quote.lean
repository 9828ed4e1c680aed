import CodeListing.Text.Numeral
import CodeListing.Text.Printable

/-! # Quoted literals

The literal of a text or of a string of bytes, as a reader of the disassembled language would
write it.  A literal stands between apostrophes, or between double quotes when it holds an
apostrophe and no double quote (`quoteFor`).  Inside, the backslash and the quote in use get a
backslash, tab, line feed and carriage return are written by their letters, printable characters
stand for themselves, and the rest are written in hexadecimal, with two, four or eight digits as
the code point needs.  In a literal of bytes only printable ASCII stands for itself. -/

namespace CodeListing

/-- The quote around a literal that holds these characters. -/
def quoteFor (cs : List Char) : Char := if '\'' ∈ cs ∧ '"' ∉ cs then '"' else '\''

/-- A code point in hexadecimal, behind a backslash and the letter that tells the width. -/
def numericEscape (n : Nat) : List Char :=
  if n < 0x100 then '\\' :: 'x' :: Numeral.hexWide 2 n
  else if n < 0x10000 then '\\' :: 'u' :: Numeral.hexWide 4 n
  else '\\' :: 'U' :: Numeral.hexWide 8 n

/-- One character of a literal in the given quotes; `keeps` tells which stand for themselves. -/
def quoteChar (keeps : Char → Bool) (quote c : Char) : List Char :=
  if c = quote ∨ c = '\\' then ['\\', c]
  else if c = '\t' then ['\\', 't']
  else if c = '\n' then ['\\', 'n']
  else if c = '\r' then ['\\', 'r']
  else if keeps c then [c]
  else numericEscape c.toNat

/-- A literal with its quotes. -/
def quoteChars (keeps : Char → Bool) (cs : List Char) : List Char :=
  let quote := quoteFor cs
  quote :: (cs.flatMap (quoteChar keeps quote) ++ [quote])

def quoteText (s : String) : String := String.ofList (quoteChars isPrintable s.toList)

def quoteBytes (bs : List UInt8) : String :=
  String.ofList ('b' :: quoteChars isPrintableAscii (bs.map fun b => Char.ofNat b.toNat))

end CodeListing
