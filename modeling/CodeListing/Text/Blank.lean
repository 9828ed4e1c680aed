import CodeListing.Text.Printable

/-! # Blank characters

Two sets of characters count as blank.  `isBlank` is the wide set: the characters from tab to
carriage return, the four information separators, the space, the next-line control and the spaces
and separators that Unicode puts between words, lines and paragraphs; the trailing ones are
dropped from a line of output (`trimEnd`).  `isBlankAroundNumber` is the same set without the four
information separators, and is what may surround a number (`trim`). -/

namespace CodeListing

/-- The ranges of blank characters, in ascending order. -/
def blankRanges : List (Nat × Nat) := [
  (0x09, 0x0d), (0x1c, 0x20), (0x85, 0x85), (0xa0, 0xa0), (0x1680, 0x1680), (0x2000, 0x200a),
  (0x2028, 0x2029), (0x202f, 0x202f), (0x205f, 0x205f), (0x3000, 0x3000)]

def isBlank (c : Char) : Bool := inRanges blankRanges c.toNat

/-- Whether a character may stand around a number. -/
def isBlankAroundNumber (c : Char) : Bool :=
  isBlank c && !(0x1c ≤ c.toNat && c.toNat ≤ 0x1f)

/-- A list of characters without those at its end that satisfy `p`. -/
def dropEnd (p : Char → Bool) (cs : List Char) : List Char := (cs.reverse.dropWhile p).reverse

/-- A text without the blanks at its end. -/
def trimEnd (s : String) : String := String.ofList (dropEnd isBlank s.toList)

/-- A list of characters without those at both ends that satisfy `p`. -/
def trim (p : Char → Bool) (cs : List Char) : List Char := dropEnd p (cs.dropWhile p)

@[simp] theorem toList_trimEnd (s : String) : (trimEnd s).toList = dropEnd isBlank s.toList := by
  simp [trimEnd]

end CodeListing
