import CodeListing.Fault
import CodeListing.Text.Quote

/-! # File trees

A file system is a tree of directories, files and symbolic links (`Node`).  A location is the list
of names that leads from the root to a node (`Node.find?`); it follows no link.  `Node.put` and
`Node.remove` change what is found at one location.

A `FileSystem` has a root and a working directory.  Operations on it are refused for one of six
reasons (`Refusal`), each with a number and a text, and the fault that results names the path in
quotes. -/

namespace CodeListing

inductive Node where
  | file (content : List UInt8)
  | link (target : String)
  | directory (entries : List (String × Node))

namespace Node

def entries : Node → List (String × Node)
  | directory es => es
  | _ => []

def isDirectory : Node → Bool
  | directory _ => true
  | _ => false

/-- The node under a name in a directory. -/
def child? (n : Node) (name : String) : Option Node := n.entries.lookup name

/-- The node at a location. -/
def find? : List String → Node → Option Node
  | [], n => some n
  | name :: names, n => (n.child? name).bind (find? names)

/-- A directory in which a name stands for a node. -/
def setChild (n : Node) (name : String) (child : Node) : Node :=
  directory ((name, child) :: n.entries.filter fun e => e.1 ≠ name)

/-- A tree with a node at a location, the directories that lead there included. -/
def put (new : Node) : List String → Node → Node
  | [], _ => new
  | name :: names, n => n.setChild name (put new names ((n.child? name).getD (directory [])))

/-- A tree without the node at a location. -/
def remove : List String → Node → Node
  | [], n => n
  | [name], n => directory (n.entries.filter fun e => e.1 ≠ name)
  | name :: names, n =>
    match n.child? name with
    | none => n
    | some c => n.setChild name (remove names c)

@[simp] theorem find?_nil (n : Node) : find? [] n = some n := rfl

theorem find?_append (names more : List String) (n : Node) :
    find? (names ++ more) n = (find? names n).bind (find? more) := by
  induction names generalizing n with
  | nil => rfl
  | cons name names ih =>
    simp only [List.cons_append, find?]
    cases n.child? name with
    | none => rfl
    | some c => simpa using ih c

theorem child?_setChild_self (name : String) (c n : Node) :
    (n.setChild name c).child? name = some c := by
  simp [setChild, child?, entries]

end Node

structure FileSystem where
  root : Node
  workingDirectory : List String

/-- Why an operation on a file system is refused. -/
inductive Refusal where
  | missing
  | alreadyThere
  | notDirectory
  | isDirectory
  | nameTooLong
  | tooManyLinks
deriving DecidableEq, Repr

namespace Refusal

def number : Refusal → Int
  | missing => 2
  | alreadyThere => 17
  | notDirectory => 20
  | isDirectory => 21
  | nameTooLong => 36
  | tooManyLinks => 40

def text : Refusal → String
  | missing => "No such file or directory"
  | alreadyThere => "File exists"
  | notDirectory => "Not a directory"
  | isDirectory => "Is a directory"
  | nameTooLong => "File name too long"
  | tooManyLinks => "Too many levels of symbolic links"

/-- The fault of a refused operation on a path. -/
def fault (r : Refusal) (path : String) : Fault :=
  .system (.ofNumber r.number) r.number (r.text ++ ": " ++ quoteText path)

/-- The fault of a link that is not made. -/
def linkFault (r : Refusal) (path target : String) : Fault :=
  .system (.ofNumber r.number) r.number
    (r.text ++ ": " ++ quoteText target ++ " -> " ++ quoteText path)

end Refusal

/-- The longest name of a node, in bytes. -/
def nameLimit : Nat := 255

/-- Whether a name is longer than any node's. -/
def isTooLong (name : String) : Bool := nameLimit < name.utf8ByteSize

/-- The longest path, in bytes. -/
def pathLimit : Nat := 4095

/-- Why no walk along a path is begun. -/
def pathRefusal? (path : String) : Option Refusal :=
  if path = "" then some .missing
  else if pathLimit < path.utf8ByteSize then some .nameTooLong
  else none

end CodeListing
