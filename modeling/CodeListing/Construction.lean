import CodeListing.Failure

/-! # Failures from their parts

The parts of a failure may be given as a list of values, in the order of its `Signature`
(`UserError.ofParts`, `Diagnostic.ofParts`).  A list that the signature does not admit is a fault,
which names the parts that are missing or counts all those given, the failure itself included
(`Signature.mismatch`). -/

namespace CodeListing

/-- What a failure is made of: parts that are required, with their names, and a number of optional
ones behind them.  `owner` is the name of the class that says so. -/
structure Signature where
  owner : String
  required : List String
  optional : Nat
deriving DecidableEq, Repr

/-- Some words as they are listed in a sentence. -/
def enumeration : List String → String
  | [] => ""
  | [a] => a
  | [a, b] => a ++ " and " ++ b
  | a :: more => a ++ ", " ++ go more
where
  /-- The words behind the first, of which the last follows an `and`. -/
  go : List String → String
    | [] => ""
    | [b] => "and " ++ b
    | b :: more => b ++ ", " ++ go more

namespace Signature
variable (s : Signature)

/-- How many parts are admitted at most, the failure itself included. -/
def limit : Nat := s.required.length + s.optional + 1

/-- What is said of the parts that are missing behind a number of parts. -/
def missingText (given : Nat) : String :=
  let missing := (s.required.drop given).map fun name => "'" ++ name ++ "'"
  "missing " ++ Numeral.text missing.length ++ " required positional argument"
    ++ (if missing.length = 1 then "" else "s") ++ ": " ++ enumeration missing

/-- What is said of too many parts. -/
def excessText (given : Nat) : String :=
  let admitted :=
    if s.optional = 0 then Numeral.text s.limit
    else "from " ++ Numeral.text (s.required.length + 1 : Nat) ++ " to " ++ Numeral.text s.limit
  "takes " ++ admitted ++ " positional arguments but " ++ Numeral.text (given + 1 : Nat)
    ++ " were given"

/-- The fault of a number of parts that is not admitted. -/
def mismatch (given : Nat) : Fault :=
  .wrongType <| s.owner ++ ".__init__() "
    ++ if given < s.required.length then s.missingText given else s.excessText given

end Signature

/-- What a problem of a kind is made of. -/
def ProblemKind.signature : ProblemKind → Signature
  | general | usage => ⟨"Error", ["msg"], 0⟩
  | invalidMode => ⟨"InvalidModeError", ["token", "msg"], 0⟩
  | unreadable => ⟨"SourceReadError", ["path", "msg"], 0⟩
  | unresolved => ⟨"PathResolutionError", ["path", "msg"], 0⟩
  | nameless => ⟨"MissingFileNameError", ["path", "msg"], 0⟩
  | compilation => ⟨"CompilationError", ["diagnostic"], 0⟩

/-- An error of a kind from its parts; no value is a diagnostic. -/
def UserError.ofParts (kind : ProblemKind) (parts : List Value) : Except Failure UserError :=
  let made (problem : Problem) (message : Value) : Except Failure UserError :=
    (UserError.make problem message).mapError .misuse
  match kind, parts with
  | .general, [message] => made .general message
  | .usage, [message] => made .usage message
  | .invalidMode, [token, message] => made (.invalidMode token) message
  | .unreadable, [path, message] => made (.unreadable path.plain none) message
  | .unresolved, [path, message] => made (.unresolved path.plain none) message
  | .nameless, [path, message] => made (.nameless path.plain) message
  | .compilation, [v] => .error (.foreign (.lacking v.typeName "msg"))
  | kind, parts => .error (.foreign (kind.signature.mismatch parts.length))

/-- What a diagnostic is made of. -/
def Diagnostic.signature : Signature := ⟨"Diagnostic", ["msg"], 2⟩

/-- A diagnostic from its parts. -/
def Diagnostic.ofParts : List Value → Except Fault Diagnostic
  | [message] => .ok ⟨message, .null, .null, none⟩
  | [message, line] => .ok ⟨message, line, .null, none⟩
  | [message, line, column] => .ok ⟨message, line, column, none⟩
  | parts => .error (signature.mismatch parts.length)

end CodeListing
