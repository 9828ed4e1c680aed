import CodeListing.Fault
import CodeListing.Text.Escape

/-! # Failures

A run ends early for one of four reasons (`Failure`).  A `UserError` is reported to the user: it
has a message and says what kind of problem it is.  A `Misuse` means that the parts of the program
were put together wrongly.  A `Diagnostic` is what a backend says about a source it cannot compile;
the compiler turns it into a user error before it goes further.  Any other `Fault` of a
collaborator passes through as it is.

Every failure has a name (`Failure.name`), a text (`Failure.message`) and the names of the failures
that led to it, the nearest first (`Failure.causes`).  A message that quotes a value writes its
integers with all of their digits, however many these are. -/

namespace CodeListing

/-- What a backend says about a source that it cannot compile; `cause` is the fault behind it.
Message, line and column are kept as the backend gave them. -/
structure Diagnostic where
  message : Value
  line : Value
  column : Value
  cause : Option Fault

/-- The text of a diagnostic: its message, which has to be a text. -/
def Diagnostic.text (d : Diagnostic) : Except Fault String :=
  match d.message with
  | .text s => .ok s
  | v => .error (.wrongType ("__repr__ returned non-string (type " ++ v.typeName ++ ")"))

/-- The kinds of problems reported to the user. -/
inductive ProblemKind where
  | general
  | usage
  | invalidMode
  | unreadable
  | unresolved
  | nameless
  | compilation
deriving DecidableEq, Repr

/-- The problems reported to the user, each with what belongs to its kind. -/
inductive Problem where
  | general
  | usage
  | invalidMode (token : Value)
  | unreadable (path : String) (cause : Option Fault)
  | unresolved (path : String) (cause : Option Fault)
  | nameless (path : String)
  | compilation (diagnostic : Diagnostic)

/-- An error reported to the user. -/
structure UserError where
  problem : Problem
  message : String

/-- The ways in which the parts of the program are put together wrongly. -/
inductive Misuse where
  | messageNotText
  | invalidLevel (level : Value)
  | unknownBackend (name : String)
  | wrongProduct (backend typeName : String)
  | unspecified (className : String) (keywords : List String)
  | nameNotText
  | duplicateName (name : String)
  | notType
  | notArtifact (typeName : String)

inductive Failure where
  | user (e : UserError)
  | misuse (m : Misuse)
  | diagnosed (d : Diagnostic)
  | foreign (f : Fault)

namespace ProblemKind

/-- The name of the class of a kind of problems. -/
def name : ProblemKind → String
  | general => "Error"
  | usage => "UsageError"
  | invalidMode => "InvalidModeError"
  | unreadable => "SourceReadError"
  | unresolved => "PathResolutionError"
  | nameless => "MissingFileNameError"
  | compilation => "CompilationError"

def all : List ProblemKind :=
  [general, usage, invalidMode, unreadable, unresolved, nameless, compilation]

/-- The kind of problems whose class has a name. -/
def ofName? (name : String) : Option ProblemKind := all.find? fun k => k.name = name

end ProblemKind

namespace Problem

def kind : Problem → ProblemKind
  | general => .general
  | usage => .usage
  | invalidMode _ => .invalidMode
  | unreadable .. => .unreadable
  | unresolved .. => .unresolved
  | nameless _ => .nameless
  | compilation _ => .compilation

def name (p : Problem) : String := p.kind.name

end Problem

namespace Misuse

def message : Misuse → String
  | messageNotText => "Invalid exception message: must be a string"
  | invalidLevel level => "Invalid optimization level: " ++ level.quoted
  | unknownBackend name => "Unknown compiler backend: " ++ name
  | wrongProduct backend typeName =>
    "Backend " ++ backend ++ " returned an object of type " ++ typeName
  | unspecified className keywords =>
    className ++ " does not specify: " ++ ", ".intercalate keywords ++
      ". Pass them as keyword arguments to the class."
  | nameNotText => "Backend name must be a string"
  | duplicateName name => "Duplicate backend name: " ++ name
  | notType => "The value of \"artifact_class\" argument must be a \"type\"."
  | notArtifact typeName => typeName ++ " is not a subclass of compiler.BaseArtifact"

end Misuse

namespace UserError

/-- An error with a message of any kind, which has to be a text. -/
def make (problem : Problem) : Value → Except Misuse UserError
  | .text message => .ok ⟨problem, message⟩
  | _ => .error .messageNotText

def usage (message : String) : UserError := ⟨.usage, "bcdump: error: " ++ message⟩

def invalidMode (token : Value) (shown : String) : UserError :=
  ⟨.invalidMode token, "Invalid mode name `" ++ escape shown ++ "`"⟩

def unreadable (path : String) (cause : Fault) : UserError :=
  ⟨.unreadable path cause, "Unable to read " ++ path ++ ": " ++ cause.message⟩

def unresolved (path : String) (cause : Fault) : UserError :=
  ⟨.unresolved path cause, "Unable to resolve path: " ++ path ++ ": " ++ cause.message⟩

def nameless (path : String) : UserError :=
  ⟨.nameless path, "Expected source path to have filename: " ++ path⟩

def compilation (d : Diagnostic) : UserError :=
  ⟨.compilation d, "Failed to compile bytecode. " ++ d.message.plain⟩

end UserError

namespace Failure

def name : Failure → String
  | user e => e.problem.name
  | misuse _ => "InternalError"
  | diagnosed _ => "Diagnostic"
  | foreign f => f.name

def message : Failure → String
  | user e => e.message
  | misuse m => m.message
  | diagnosed d => d.message.plain
  | foreign f => f.message

/-- The names of the failures that led to one, the nearest first. -/
def causes : Failure → List String
  | user ⟨.unreadable _ cause, _⟩ => (cause.map Fault.name).toList
  | user ⟨.unresolved _ cause, _⟩ => (cause.map Fault.name).toList
  | user ⟨.compilation d, _⟩ => "Diagnostic" :: (d.cause.map Fault.name).toList
  | diagnosed d => (d.cause.map Fault.name).toList
  | _ => []

end Failure
end CodeListing
