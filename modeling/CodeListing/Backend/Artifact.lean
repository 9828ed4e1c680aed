import CodeListing.Code.Listing
import CodeListing.Failure

/-! # Artifacts

What a backend produces is an object of some class, and only objects of a class below
`Class.artifact` can be displayed.  A `Class` is given by its name and its parent, so being a
subclass is a walk upwards (`Class.isSubclassOf`).  An `Artifact` is an object together with what
displaying it gives; a compiled unit displays as its listing (`Artifact.ofCode`). -/

namespace CodeListing

inductive Class where
  | root (name : String)
  | sub (name : String) (parent : Class)
deriving DecidableEq, Repr

namespace Class

def name : Class → String
  | root name => name
  | sub name _ => name

/-- Whether a class is another one or below it. -/
def isSubclassOf : Class → Class → Bool
  | root name, other => root name = other
  | sub name parent, other => sub name parent = other || parent.isSubclassOf other

/-- The class of everything that can be displayed. -/
def artifact : Class := root "BaseArtifact"

def code : Class := sub "CodeArtifact" artifact

end Class

/-- An object of a class, with what displaying it gives. -/
structure Artifact where
  type : Class
  display : Except Fault String

def Artifact.ofCode (u : CodeUnit) : Artifact := ⟨.code, u.render⟩

end CodeListing
