import CodeListing.Text.Lines
import CodeListing.Text.Numeral

/-! # The lines around a position

A position in a text is shown by a window: the line that spans it, marked `>>`, with up to three
lines on either side, marked `||`.  A line spans the indices from its start to its end, the end
included, so no position belongs to two lines, and a position past the last line or before the
text belongs to none (`window?`).

Every line is shown with its number, right-aligned to the width of the number three below the
marked one (`Window.gutter`).  Between the marked line and those after it stand a caret under the
position and the message under the caret (`Window.pointer`), then one bare line. -/

namespace CodeListing

/-- How many lines are shown on either side of the marked one. -/
def contextLines : Nat := 3

/-- A line of a text with its neighbours; `column` counts from zero. -/
structure Window where
  before : List (List Char)
  number : Nat
  line : List Char
  column : Nat
  after : List (List Char)
deriving DecidableEq, Repr

/-- The window around an index, where `passed` holds the lines before, the nearest first, and
`start` is the index at which the next line starts. -/
def windowFrom? (loc : Int) (passed : List (List Char)) (start : Nat) :
    List (List Char) → Option Window
  | [] => none
  | l :: ls =>
    if start ≤ loc ∧ loc ≤ start + l.length then
      some {
        before := (passed.take contextLines).reverse
        number := passed.length + 1
        line := l
        column := (loc - start).toNat
        after := ls.take contextLines }
    else windowFrom? loc (l :: passed) (start + l.length + 1) ls

def window? (text : List Char) (loc : Int) : Option Window := windowFrom? loc [] 0 (lines text)

namespace Window
variable (w : Window)

/-- The width of the line numbers. -/
def gutter : Nat := (Numeral.natural (w.number + contextLines)).length

/-- One line of the text with its number and its mark. -/
def row (mark : String) (number : Nat) (line : List Char) : String :=
  String.ofList (' ' :: (Numeral.natural number).leftpad w.gutter ' ')
    ++ " " ++ mark ++ "  " ++ String.ofList line

/-- Consecutive lines of the text, the first with the given number. -/
def rows (mark : String) : Nat → List (List Char) → List String
  | _, [] => []
  | n, l :: ls => w.row mark n l :: rows mark (n + 1) ls

/-- A line without a number, with text under the position. -/
def pointer (text : String) : String :=
  String.ofList (List.replicate w.gutter ' ') ++ "  :: "
    ++ String.ofList (List.replicate (w.column + 1) ' ') ++ text

/-- What is shown down to the marked line. -/
def upper : List String :=
  w.rows "||" (w.number - w.before.length) w.before ++ [w.row ">>" w.number w.line]

/-- What is shown down to the caret. -/
def leading : List String := w.upper ++ [w.pointer "^"]

/-- What is shown from the message on. -/
def trailing (message : String) : List String :=
  [w.pointer message, String.ofList (List.replicate w.gutter ' ') ++ "  :: "]
    ++ w.rows "||" (w.number + 1) w.after

def render (message : String) : List String := w.leading ++ w.trailing message

end Window
end CodeListing
