/-! # Lines of a text

`cut` takes a text apart at a character: the parts between its occurrences are one more than the
occurrences (`length_cut`).  Cut at its line feeds, a text gives its `pieces`; a text that ends in
a line feed has an empty last piece.  `lines` leaves that empty last piece out, so an empty text
has no line.

A position is an index into the text or a line and a column, both counted from one.
`lineSpan?` gives the indices at which a piece starts and ends, and `index?` turns a line and a
column into an index: a column that is absent or zero means the start of the line, and a column
past the end of the line means its end. -/

namespace CodeListing

/-- The parts of a text between the occurrences of a character. -/
def cut (mark : Char) : List Char → List (List Char)
  | [] => [[]]
  | c :: cs =>
    if c = mark then [] :: cut mark cs
    else match cut mark cs with
      | [] => [[c]]
      | p :: ps => (c :: p) :: ps

/-- The parts of a text between its line feeds. -/
def pieces (text : List Char) : List (List Char) := cut '\n' text

/-- The parts of a text between its line feeds, without an empty one at the end. -/
def lines (text : List Char) : List (List Char) :=
  let ps := pieces text
  if ps.getLast? = some [] then ps.dropLast else ps

/-- The start and the end of the piece with number `k`, counted from zero, when the first of the
pieces starts at `start`. -/
def spanFrom? (start : Nat) : Nat → List (List Char) → Option (Nat × Nat)
  | _, [] => none
  | 0, p :: _ => some (start, start + p.length)
  | k + 1, p :: ps => spanFrom? (start + p.length + 1) k ps

/-- The indices at which a line starts and ends, the lines being counted from one. -/
def lineSpan? (text : List Char) (line : Int) : Option (Nat × Nat) :=
  if line < 1 then none else spanFrom? 0 (line - 1).toNat (pieces text)

/-- The index of a column of the line that lies between two indices. -/
def indexWithin (span : Nat × Nat) (column : Option Int) : Int :=
  let c := match column with
    | none => 1
    | some c => if c = 0 then 1 else c
  min (span.1 + c - 1) span.2

/-- The index of a line and a column; there is none where the text has no such line. -/
def index? (text : List Char) (line column : Option Int) : Option Int := do
  let l ← line
  let span ← lineSpan? text l
  return indexWithin span column

@[simp] theorem cut_nil (mark : Char) : cut mark [] = [[]] := rfl

theorem cut_ne_nil (mark : Char) (text : List Char) : cut mark text ≠ [] := by
  cases text with
  | nil => simp
  | cons c cs =>
    unfold cut
    split
    · simp
    · split <;> simp

theorem length_cut (mark : Char) (text : List Char) :
    (cut mark text).length = text.count mark + 1 := by
  induction text with
  | nil => rfl
  | cons c cs ih =>
    unfold cut
    split
    · next h => subst h; simp [ih]
    · next h =>
      have hne := cut_ne_nil mark cs
      split
      · contradiction
      · next p ps hp => simp [hp] at ih; simp [h, ih]

end CodeListing
