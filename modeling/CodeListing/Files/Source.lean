import CodeListing.Files.Canonical
import CodeListing.Text.Utf8
import CodeListing.Trace

/-! # Loading a source

A source is read first and its path resolved afterwards, so a file that is missing is reported as
unreadable.  Reading takes the content of the file for encoded text.  Resolving is left to a
`Resolver`, by default the one that finds the canonical path; a system fault or a fault at run time
of the resolver is reported to the user, and any other passes through.  The last component of the
resolved path is the name under which the source is shown, and a path without one is an error. -/

namespace CodeListing

/-- A way to resolve a path. -/
abbrev Resolver := String → Except Fault String

/-- A source that has been read, the path it resolves to and the name it is shown under. -/
structure Source where
  path : Path
  name : String
  text : String

namespace FileSystem
variable (fs : FileSystem)

/-- The text of the file that a path leads to. -/
def readText (path : String) : Except Failure String :=
  if hasNull path then .error (.foreign .nullInPath)
  else match fs.read path with
    | .error r => .error (.user (.unreadable path (r.fault path)))
    | .ok bytes =>
      match Utf8.decode bytes with
      | .error m => .error (.user (.unreadable path (.unconvertible .decoding m.message)))
      | .ok cs => .ok (String.ofList (Utf8.unifyLineEnds cs))

end FileSystem

/-- How a fault of a resolver is reported. -/
def resolutionFailure (path : String) (f : Fault) : Failure :=
  match f with
  | .system .. | .runtime .. => .user (.unresolved path f)
  | _ => .foreign f

/-- The path that a resolver answers. -/
def resolvePath (resolver : Resolver) (path : String) : Trace Path :=
  ⟨[.resolve path],
    match resolver path with
    | .ok answer => .ok (.ofText answer)
    | .error f => .error (resolutionFailure path f)⟩

def Source.load (fs : FileSystem) (resolver : Resolver) (path : String) : Trace Source := do
  let text ← Trace.ofExcept (fs.readText path)
  Trace.log .debug ("Read " ++ Numeral.text text.length ++ " character(s) from " ++ path)
  let resolved ← resolvePath resolver path
  if resolved.name = "" then Trace.fail (.user (.nameless resolved.text))
  else
    Trace.log .debug ("Resolved " ++ path ++ " to " ++ resolved.text)
    return ⟨resolved, resolved.name, text⟩

end CodeListing
