import CodeListing.Text.Place
import CodeListing.Trace

/-! # Explaining an error of the compiler

A diagnostic may say where in the source it belongs.  If the source has such a place
(`Diagnostic.placeIn`), the error is explained by the lines around it (`explain`).

A backend is free in what it gives as a line and a column.  Truth values count as integers, and a
diagnostic without a line belongs nowhere; a column that is absent or empty counts as the first one.
A line of any other kind is a fault, and so is such a column if the line exists.  A column in
floating point has its place, but no caret can be set there: the lines down to the marked one are
shown, and then it is a fault (`sayPlace`). -/

namespace CodeListing

/-- The line that a value stands for. -/
def lineNumber : Value → Except Fault (Option Int)
  | .null => .ok none
  | .float x =>
    if x < 1 then .ok none
    else .error (.wrongType "'float' object cannot be interpreted as an integer")
  | v =>
    match v.integer? with
    | some n => .ok (some n)
    | none => .error <| .wrongType
        ("'<' not supported between instances of '" ++ v.typeName ++ "' and 'int'")

/-- The place that a value stands for as a column of the line between two indices. -/
def placeWithin (span : Nat × Nat) (column : Value) : Except Fault Place :=
  match column.integer? with
  | some n => .ok (.index (indexWithin span (some n)))
  | none =>
    if column.isEmpty then .ok (.index (indexWithin span none))
    else match column with
      | .float x => .ok (.ofColumn span x)
      | v => .error <| .wrongType
          ("unsupported operand type(s) for +: 'int' and '" ++ v.typeName ++ "'")

/-- The place in a text that two values stand for as its line and its column. -/
def placeOf (text : List Char) (line column : Value) : Except Fault (Option Place) := do
  match (← lineNumber line).bind (lineSpan? text) with
  | none => return none
  | some span => return some (← placeWithin span column)

/-- The place of a diagnostic in a source. -/
def Diagnostic.placeIn (d : Diagnostic) (source : List Char) : Except Fault (Option Place) :=
  placeOf source d.line d.column

/-- Says the lines of a window with a message, which has to be a text. -/
def sayWindow (w : Window) : Value → Trace Unit
  | .text message => Trace.sayAll (w.render message)
  | other => do
    Trace.sayAll w.leading
    Trace.fail <| .foreign <| .wrongType
      ("can only concatenate str (not \"" ++ other.typeName ++ "\") to str")

/-- Says the lines around a place of a text with a message, if the place lies in a line. -/
def sayPlace (text : List Char) (place : Place) (message : Value) : Trace Unit :=
  match place, place.window? text with
  | _, none => pure ()
  | .index _, some w => sayWindow w message
  | .number _, some w => do
    Trace.sayAll w.upper
    Trace.fail <| .foreign <| .wrongType "can't multiply sequence by non-int of type 'float'"

/-- Says the lines around the place of an error of the compiler. -/
def explain (source : String) : Failure → Trace Unit
  | .user ⟨.compilation d, _⟩ => do
    match ← Trace.ofExcept ((d.placeIn source.toList).mapError .foreign) with
    | none => pure ()
    | some place => sayPlace source.toList place d.message
  | _ => pure ()

end CodeListing
