import CodeListing.Text.Escape
import CodeListing.Trace

/-! # Reports

A report is a heading with the name of the source, in escaped form, and the display of what it was
compiled to.  The text is complete before anything is written, so a display that fails leaves the
output as it was.  It is written at once, with a line feed at its end, and flushed. -/

namespace CodeListing

/-- The line above a display. -/
def reportHeading (name : String) : String := "dis(\"" ++ escape name ++ "\"):"

def reportText (display name : String) : String := reportHeading name ++ "\n" ++ display

/-- A text with a line feed at its end. -/
def terminated (text : String) : String :=
  if text.toList.getLast? = some '\n' then text else text ++ "\n"

/-- Writes the report of a display. -/
def report (display : Except Fault String) (name : String) : Trace Unit := do
  let shown ← Trace.ofExcept (display.mapError .foreign)
  Trace.emit (.write (terminated (reportText shown name)))
  Trace.emit .flush

end CodeListing
