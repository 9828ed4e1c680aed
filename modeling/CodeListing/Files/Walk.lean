import CodeListing.Files.Path
import CodeListing.Files.Tree

/-! # Opening a file

To open a file, the system walks along the components of its path.  Before each component it has to
stand in a directory.  An empty component and a single dot stay there, a double dot goes to the
directory above (the root is above itself), and a name leads to the node of that name.  Where that
is a link, the components of its target are put in front of the components that remain, and the walk
goes on from the same directory, or from the root if the target starts there.  After `linkLimit`
links the next one is refused.

A name for which there is no node ends the walk.  It is refused, unless a file is to be made and
nothing remains behind the name (`Purpose.atMissing`); a name of a file to be made is refused where
a slash comes behind it (`Purpose.forbids`).  No walk is begun along a path that is empty or too
long. -/

namespace CodeListing

/-- How many links are followed on the way to one node. -/
def linkLimit : Nat := 40

/-- The location from which a path leads on, seen from a directory. -/
def startOf (here : List String) (path : String) : List String :=
  if isAbsolute path then [] else here

/-- What a walk is for: to reach a node, or to reach the place of a file that may be made there. -/
inductive Purpose where
  | reach
  | make
deriving DecidableEq, Repr

/-- How a walk ends at a location without a node, by the components that remain. -/
def Purpose.atMissing (location : List String) : Purpose → List String →
    Except Refusal (List String)
  | make, [] => .ok location
  | _, _ => .error .missing

/-- Whether a last name is refused for the slashes behind it, which leave empty components. -/
def Purpose.forbids : Purpose → List String → Bool
  | make, cs => cs ≠ [] && cs.all (· = "")
  | reach, _ => false

/-- The location that some components lead to from a location; `follow` goes on at a link. -/
def walkWith (follow : List String → List String → Except Refusal (List String)) (p : Purpose)
    (root : Node) (here : List String) : List String → Except Refusal (List String)
  | [] => .ok here
  | c :: cs =>
    if (root.find? here).any Node.isDirectory then
      if c = "" ∨ c = "." then walkWith follow p root here cs
      else if c = ".." then walkWith follow p root here.dropLast cs
      else if p.forbids cs then .error .isDirectory
      else if isTooLong c then .error .nameTooLong
      else match root.find? (here ++ [c]) with
        | none => p.atMissing (here ++ [c]) cs
        | some (.link target) => follow (startOf here target) (components target ++ cs)
        | some _ => walkWith follow p root (here ++ [c]) cs
    else .error .notDirectory

/-- The location that some components lead to from a location, with a number of links allowed. -/
def walk (p : Purpose) (root : Node) : Nat → List String → List String →
    Except Refusal (List String)
  | 0 => walkWith (fun _ _ => .error .tooManyLinks) p root
  | links + 1 => walkWith (walk p root links) p root

namespace FileSystem
variable (fs : FileSystem)

def locate (p : Purpose) (path : String) : Except Refusal (List String) :=
  match pathRefusal? path with
  | some r => .error r
  | none => walk p fs.root linkLimit (startOf fs.workingDirectory path) (components path)

def read (path : String) : Except Refusal (List UInt8) := do
  match fs.root.find? (← fs.locate .reach path) with
  | some (.file content) => .ok content
  | some (.directory _) => .error .isDirectory
  | _ => .error .missing

end FileSystem
end CodeListing
