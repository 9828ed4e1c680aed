import CodeListing.Files.Walk

/-! # Canonical paths

The canonical form of a path is absolute and has no link and no dots in it.  It is found by a walk
of its own that keeps what it has walked so far in writing (`Trail`): the names from the root, or a
number of steps upwards from the working directory and the names below.  The node of every name is
inspected in its directory (`FileSystem.inspect`), and a refusal names the trail to it.

Where a name is a link, the walk first goes through the target to its end and then goes on from
there.  It remembers for each link where it led to, and does not go through it again; a link that is
met while it is still being gone through is a loop.  Links that lead into links are gone through to
a depth of `depthLimit`. -/

namespace CodeListing

/-- What has been walked: from the root when `up?` is absent, and otherwise from the directory that
many steps above the working directory. -/
structure Trail where
  up? : Option Nat
  names : List String
deriving DecidableEq, Repr

namespace Trail

def root : Trail := ⟨none, []⟩

def here : Trail := ⟨some 0, []⟩

def child (t : Trail) (name : String) : Trail := ⟨t.up?, t.names ++ [name]⟩

def parent (t : Trail) : Trail :=
  if t.names = [] then ⟨t.up?.map (· + 1), []⟩ else ⟨t.up?, t.names.dropLast⟩

/-- The location that a trail leads to from a working directory. -/
def location (t : Trail) (workingDirectory : List String) : List String :=
  match t.up? with
  | none => t.names
  | some k => workingDirectory.take (workingDirectory.length - k) ++ t.names

def text (t : Trail) : String :=
  match t.up? with
  | none => "/" ++ "/".intercalate t.names
  | some k => "/".intercalate (List.replicate k ".." ++ t.names)

/-- The trail from which a path leads on. -/
def startOf (t : Trail) (path : String) : Trail := if isAbsolute path then root else t

end Trail

/-- The links met so far, each with the trail it led to, or none while it is being gone through. -/
abbrev Links := List (Trail × Option Trail)

/-- How deep links may lead into links. -/
def depthLimit : Nat := 1000

namespace FileSystem
variable (fs : FileSystem)

/-- The node of a name in the directory at a trail. -/
def inspect (t : Trail) (name : String) : Except Fault Node :=
  let refuse (r : Refusal) : Except Fault Node := .error (r.fault (t.child name).text)
  if hasNull name then .error .nullInPath
  else if pathLimit < (t.child name).text.utf8ByteSize then refuse .nameTooLong
  else match fs.root.find? (t.location fs.workingDirectory) with
    | some (.directory es) =>
      if isTooLong name then refuse .nameTooLong
      else match es.lookup name with
        | some n => .ok n
        | none => refuse .missing
    | some _ => refuse .notDirectory
    | none => refuse .missing

/-- The fault of a link that is met while it is being gone through: what opening it is refused for,
too many links being a loop. -/
def loopFault (t : Trail) (name : String) : Fault :=
  let path := (t.child name).text
  let loop := Fault.runtime .general ("Symlink loop from " ++ quoteText path)
  match walk .reach fs.root linkLimit (t.location fs.workingDirectory) [name] with
  | .error .tooManyLinks => loop
  | .error r => r.fault path
  | .ok _ => loop

/-- The trail that some components lead to from a trail; `enter` goes through a link. -/
def traceWith (enter : Links → Trail → List String → Except Fault (Trail × Links)) (links : Links)
    (t : Trail) : List String → Except Fault (Trail × Links)
  | [] => .ok (t, links)
  | c :: cs =>
    if c = "" ∨ c = "." then traceWith enter links t cs
    else if c = ".." then traceWith enter links t.parent cs
    else do
      match ← fs.inspect t c with
      | .link target =>
        let link := t.child c
        match links.lookup link with
        | some (some done) => traceWith enter links done cs
        | some none => .error (fs.loopFault t c)
        | none =>
          let (done, links) ← enter ((link, none) :: links) (t.startOf target) (components target)
          traceWith enter ((link, some done) :: links) done cs
      | _ => traceWith enter links (t.child c) cs

/-- The trail that some components lead to, with links into links to a given depth. -/
def trace : Nat → Links → Trail → List String → Except Fault (Trail × Links)
  | 0 => fs.traceWith fun _ _ _ =>
    .error (.runtime .recursion "maximum recursion depth exceeded")
  | depth + 1 => fs.traceWith (trace depth)

/-- The location of the canonical form of a path. -/
def canonicalLocation (path : String) : Except Fault (List String) := do
  let (t, _) ← fs.trace depthLimit [] (Trail.here.startOf path) (components path)
  return t.location fs.workingDirectory

def canonicalize (path : String) : Except Fault String := do
  return "/" ++ "/".intercalate (← fs.canonicalLocation path)

end FileSystem
end CodeListing
