import CodeListing.Files.Walk

/-! # Changing a file system

Files, directories and links are made, removed and entered under paths.  A file that is written
through a link goes where the link leads, even if nothing is there yet, while a link or a directory
is made, and a file removed, at the path itself (`FileSystem.slot`).

A directory is made together with those that lead to it.  The paths of these are the beginnings of
its path that end in a component (`ancestry`); the shortest one without a directory is made first,
and a double dot goes up from a directory that has just been made.

An `Edit` may fail, and it leaves what it has done so far (`FileSystem.edit`). -/

namespace CodeListing

/-- A change of a file system. -/
inductive Edit where
  | write (path : String) (content : List UInt8)
  | makeDirectory (path : String)
  | link (path target : String)
  | remove (path : String)
  | enter (path : String)

/-- The beginnings of a path that end in a component, the longest first, each with that component;
the components of the path are given in reverse. -/
def beginnings : List String → List (String × String)
  | [] => []
  | c :: cs =>
    if c = "" then beginnings cs else ("/".intercalate (c :: cs).reverse, c) :: beginnings cs

/-- The paths that lead to a path, the longest first, each with its last component; the longest one
is the path itself. -/
def ancestry (path : String) : List (String × String) :=
  match beginnings (components path).reverse with
  | [] => []
  | (_, c) :: above => (path, c) :: above

namespace FileSystem

/-- A file system with a node at a location. -/
def putAt (fs : FileSystem) (location : List String) (n : Node) : FileSystem :=
  { fs with root := Node.put n location fs.root }

/-- Whether there is a directory at a location. -/
def hasDirectory (fs : FileSystem) (location : List String) : Bool :=
  (fs.root.find? location).any Node.isDirectory

/-- Where a path ends, a link at its end not being followed: a name in a directory, and whether
slashes come behind the name. -/
structure Slot where
  directory : List String
  name : String
  slashed : Bool
deriving DecidableEq, Repr

namespace Slot
variable (s : Slot)

def location : List String := s.directory ++ [s.name]

/-- Whether the name is none of a node, but leads to a directory. -/
def isDots : Bool := s.name = "" || s.name = "." || s.name = ".."

end Slot

section
variable (fs : FileSystem)

/-- The location that the leading components of a path lead to. -/
def walkFrom (path : String) (cs : List String) : Except Refusal (List String) :=
  walk .reach fs.root linkLimit (startOf fs.workingDirectory path) cs

def slot (path : String) : Except Refusal Slot := do
  if let some r := pathRefusal? path then .error r
  let cs := (components path).reverse
  let bare := cs.dropWhile (· = "")
  let here ← fs.walkFrom path bare.tail.reverse
  if ¬ fs.hasDirectory here then .error .notDirectory
  else if isTooLong (bare.headD "") then .error .nameTooLong
  else return ⟨here, bare.headD "", cs.head? = some ""⟩

/-- Whether a slot leads to a node or to a directory. -/
def isTaken (s : Slot) : Bool := s.isDots || (fs.root.find? s.location).isSome

def write (path : String) (content : List UInt8) : Except Refusal FileSystem := do
  let location ← fs.locate .make path
  if fs.hasDirectory location then .error .isDirectory
  else return fs.putAt location (.file content)

def link (path target : String) : Except Refusal FileSystem := do
  if let some r := pathRefusal? target then .error r
  let slot ← fs.slot path
  if fs.isTaken slot then .error .alreadyThere
  else if slot.slashed then .error .missing
  else return fs.putAt slot.location (.link target)

def remove (path : String) : Except Refusal FileSystem := do
  let slot ← fs.slot path
  if slot.isDots || fs.hasDirectory slot.location then .error .isDirectory
  else if (fs.root.find? slot.location).isNone then .error .missing
  else if slot.slashed then .error .notDirectory
  else return { fs with root := Node.remove slot.location fs.root }

def enter (path : String) : Except Refusal FileSystem := do
  let location ← fs.locate .reach path
  if fs.hasDirectory location then return { fs with workingDirectory := location }
  else .error .notDirectory

/-- Makes a directory where nothing is. -/
def makeOne (path : String) : Except Refusal FileSystem := do
  let slot ← fs.slot path
  if fs.isTaken slot then .error .alreadyThere
  else return fs.putAt slot.location (.directory [])

/-- Whether a path leads to a node. -/
def reaches (path : String) : Bool := ¬ hasNull path && (fs.locate .reach path).isOk

/-- Whether a path leads to a directory. -/
def reachesDirectory (path : String) : Bool :=
  match fs.locate .reach path with
  | .ok location => fs.hasDirectory location
  | .error _ => false

/-- The file system after a change of a path, or as it was and the fault of the change. -/
def settle (paths : List String) (fault : Refusal → Fault) (r : Except Refusal FileSystem) :
    FileSystem × Option Fault :=
  if paths.any hasNull then (fs, some .nullInPath)
  else match r with
    | .ok changed => (changed, none)
    | .error r => (fs, some (fault r))

/-- Makes a directory unless there is one. -/
def ensureOne (path : String) : FileSystem × Option Fault :=
  if fs.reachesDirectory path then (fs, none) else fs.settle [path] (·.fault path) (fs.makeOne path)

end

/-- Whether a fault says that something is there. -/
def isAlreadyThere : Fault → Bool
  | .system .alreadyThere .. => true
  | _ => false

/-- Makes the directory of the first of some paths, each of which leads to the one before it.  What
is already there in the place of a leading directory is found out in the next step. -/
def ensureChain (fs : FileSystem) : List (String × String) → FileSystem × Option Fault
  | [] => (fs, none)
  | (path, name) :: above =>
    if above.head?.all fun a => fs.reaches a.1 then fs.ensureOne path
    else
      let (fs, fault?) := ensureChain fs above
      if fault?.all isAlreadyThere then
        if name = "." then (fs, none) else fs.ensureOne path
      else (fs, fault?)

/-- Makes a directory and those that lead to it. -/
def ensureDirectory (fs : FileSystem) (path : String) : FileSystem × Option Fault :=
  match ancestry path with
  | [] => fs.ensureOne path
  | chain => fs.ensureChain chain

/-- The file system after a change, and the fault of the change if it fails. -/
def edit (fs : FileSystem) : Edit → FileSystem × Option Fault
  | .write path content => fs.settle [path] (·.fault path) (fs.write path content)
  | .makeDirectory path => fs.ensureDirectory path
  | .link path target =>
    fs.settle [path, target] (·.linkFault path target) (fs.link path target)
  | .remove path => fs.settle [path] (·.fault path) (fs.remove path)
  | .enter path => fs.settle [path] (·.fault path) (fs.enter path)

end FileSystem
end CodeListing
