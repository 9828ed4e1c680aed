import CodeListing.Command.Run

/-! # The command line

Runs the command on the words of the command line.  The file that the words name is read from disk
and put where its path leads from the root; no host compiler is attached, so compiling ends with the
fault of `detached`. -/

namespace CodeListing

/-- A host that answers nothing. -/
def detached : Host where
  parse _ _ := .error (.runtime .unimplemented "no host compiler is attached")
  compile _ _ _ _ := .error (.runtime .unimplemented "no host compiler is attached")

/-- The path that the words of a command line name. -/
def namedPath? (words : List String) : Option String :=
  match Configuration.ofArguments words with
  | .ok ⟨.given path, _, _, _⟩ => some path.text
  | _ => none

/-- A file system with one file, whose path leads to it from the root. -/
def fileSystemOf (path : String) (content : Option (List UInt8)) : FileSystem :=
  let location := (components path).filter fun c => c ≠ "" && c ≠ "."
  match content with
  | some bytes => ⟨Node.put (.file bytes) location (.directory []), []⟩
  | none => ⟨.directory [], []⟩

/-- The content of a file on disk. -/
def contentOnDisk (path : String) : IO (Option (List UInt8)) := do
  try
    return some (← IO.FS.readBinFile path).toList
  catch _ => return none

end CodeListing

open CodeListing in
def main (words : List String) : IO UInt32 := do
  let fs ← match namedPath? words with
    | some path => pure (fileSystemOf path (← contentOnDisk path))
    | none => pure (fileSystemOf "" none)
  let (s, t) := command .initial detached fs words
  IO.print t.output
  IO.eprint (t.messages s.verbosity)
  match t.result with
  | .ok .returned => return 0
  | .ok (.exit status) => return status.toUInt32
  | .error e =>
    IO.eprintln (e.name ++ ": " ++ e.message)
    return 1
