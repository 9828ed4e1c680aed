import CodeListing.Text.Numeral
import CodeListing.Text.Printable

/-! # Escaped text

Text of unknown origin is shown inside a line of output, so it is written with printable ASCII
only.  `escapeChar` writes one character: tab, carriage return, line feed, the backslash and both
quotes get a backslash and a letter or themselves, the other characters from `0x20` to `0x7e`
stand for themselves, and every other one is written as its code point in hexadecimal between
`\u{` and `}`.  `escape` writes a text character by character, so the escape of a concatenation
is the concatenation of the escapes (`escape_append`). -/

namespace CodeListing

/-- A character written by its code point. -/
def codePointEscape (c : Char) : List Char :=
  '\\' :: 'u' :: '{' :: (Numeral.hex c.toNat ++ ['}'])

/-- One character in escaped form. -/
def escapeChar (c : Char) : List Char :=
  if c = '\t' then ['\\', 't']
  else if c = '\r' then ['\\', 'r']
  else if c = '\n' then ['\\', 'n']
  else if c = '\\' then ['\\', '\\']
  else if c = '\'' then ['\\', '\'']
  else if c = '"' then ['\\', '"']
  else if isPrintableAscii c then [c]
  else codePointEscape c

/-- The escaped form of a list of characters. -/
def escapeChars (cs : List Char) : List Char := cs.flatMap escapeChar

def escape (s : String) : String := String.ofList (escapeChars s.toList)

@[simp] theorem escapeChars_nil : escapeChars [] = [] := rfl

@[simp] theorem escapeChars_cons (c : Char) (cs : List Char) :
    escapeChars (c :: cs) = escapeChar c ++ escapeChars cs := rfl

theorem escapeChars_append (cs ds : List Char) :
    escapeChars (cs ++ ds) = escapeChars cs ++ escapeChars ds := by
  simp [escapeChars]

@[simp] theorem toList_escape (s : String) : (escape s).toList = escapeChars s.toList := by
  simp [escape]

theorem escape_append (s t : String) : escape (s ++ t) = escape s ++ escape t := by
  apply String.toList_injective
  simp [escapeChars_append]

end CodeListing
