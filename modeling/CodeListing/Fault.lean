import CodeListing.Value

/-! # Faults of collaborators

The compiler, the file system and whatever else a run depends on may fail in ways of their own.
`Fault` sorts such failures by the families that are told apart when they are handled: a source that
is rejected, a value that cannot be converted, a failure at run time, and a refusal by the operating
system; a key that is absent is shown as it is quoted, and all others are known by their name only.
`Fault.name` is the name of the exact class and `Fault.message` the text that goes with it.

The operating system numbers its refusals, and a refusal with a number of its own kind belongs to
that kind (`SystemKind.ofNumber`). -/

namespace CodeListing

/-- How a source is rejected. -/
inductive Rejection where
  | grammar
  | indentation
  | tabs
deriving DecidableEq, Repr

/-- How a value fails to convert. -/
inductive Unconvertible where
  | value
  | unicode
  | decoding
deriving DecidableEq, Repr

/-- How something fails at run time. -/
inductive RuntimeKind where
  | general
  | recursion
  | unimplemented
deriving DecidableEq, Repr

/-- How the operating system refuses. -/
inductive SystemKind where
  | general
  | permission
  | missing
  | noProcess
  | interrupted
  | noChild
  | wouldBlock
  | alreadyThere
  | notDirectory
  | isDirectory
  | brokenPipe
  | connection
  | connectionAborted
  | connectionReset
  | connectionRefused
  | timeout
deriving DecidableEq, Repr

inductive Fault where
  | rejected (kind : Rejection) (message filename line column : Value)
  | unconvertible (kind : Unconvertible) (message : String)
  | runtime (kind : RuntimeKind) (message : String)
  | system (kind : SystemKind) (number : Option Int) (message : String)
  | absentKey (key : Option Value)
  | other (name message : String)

def Rejection.name : Rejection → String
  | grammar => "SyntaxError"
  | indentation => "IndentationError"
  | tabs => "TabError"

def Unconvertible.name : Unconvertible → String
  | value => "ValueError"
  | unicode => "UnicodeError"
  | decoding => "UnicodeDecodeError"

def RuntimeKind.name : RuntimeKind → String
  | general => "RuntimeError"
  | recursion => "RecursionError"
  | unimplemented => "NotImplementedError"

def SystemKind.name : SystemKind → String
  | general => "OSError"
  | permission => "PermissionError"
  | missing => "FileNotFoundError"
  | noProcess => "ProcessLookupError"
  | interrupted => "InterruptedError"
  | noChild => "ChildProcessError"
  | wouldBlock => "BlockingIOError"
  | alreadyThere => "FileExistsError"
  | notDirectory => "NotADirectoryError"
  | isDirectory => "IsADirectoryError"
  | brokenPipe => "BrokenPipeError"
  | connection => "ConnectionError"
  | connectionAborted => "ConnectionAbortedError"
  | connectionReset => "ConnectionResetError"
  | connectionRefused => "ConnectionRefusedError"
  | timeout => "TimeoutError"

/-- The numbers of refusals that have a kind of their own. -/
def SystemKind.numbered : List (Int × SystemKind) :=
  [(1, permission), (2, missing), (3, noProcess), (4, interrupted), (10, noChild), (11, wouldBlock),
    (13, permission), (17, alreadyThere), (20, notDirectory), (21, isDirectory), (32, brokenPipe),
    (103, connectionAborted), (104, connectionReset), (108, brokenPipe), (110, timeout),
    (111, connectionRefused), (114, wouldBlock), (115, wouldBlock)]

/-- The kind of a refusal with the given number. -/
def SystemKind.ofNumber (n : Int) : SystemKind := (numbered.lookup n).getD general

/-- The last component of a slash-separated name. -/
def lastComponent (name : String) : String :=
  String.ofList (name.toList.reverse.takeWhile (· ≠ '/')).reverse

/-- Whether an integer fits into 64 bits. -/
def fitsRegister (n : Int) : Bool := -0x8000000000000000 ≤ n && n < 0x8000000000000000

namespace Fault

def name : Fault → String
  | rejected kind .. => kind.name
  | unconvertible kind _ => kind.name
  | runtime kind _ => kind.name
  | system kind .. => kind.name
  | absentKey _ => "KeyError"
  | other name _ => name

/-- The number of a line as a rejection names it; one that does not fit into 64 bits counts as
-1. -/
def lineText (line : Int) : String :=
  Numeral.text (if fitsRegister line then line else -1)

/-- The place that a rejection names behind its message: a file of which it knows the name, and a
line that is an integer. -/
def placeText : Value → Value → String
  | .text file, .int line => s!" ({lastComponent file}, line {lineText line})"
  | .text file, _ => s!" ({lastComponent file})"
  | _, .int line => s!" (line {lineText line})"
  | _, _ => ""

def message : Fault → String
  | rejected _ message filename line _ => message.plain ++ placeText filename line
  | unconvertible _ message => message
  | runtime _ message => message
  | system _ number message =>
    match number with
    | some n => s!"[Errno {Numeral.text n}] {message}"
    | none => message
  | absentKey key => (key.map Value.quoted).getD ""
  | other _ message => message

/-- The fault of an operation that a collaborator leaves out. -/
def unimplemented : Fault := runtime .unimplemented ""

/-- The fault of an index beyond a fixed table. -/
def outOfTuple : Fault := other "IndexError" "tuple index out of range"

/-- The fault of an index beyond a list. -/
def outOfList : Fault := other "IndexError" "list index out of range"

/-- The fault of an index into a table that does not fit into 64 bits. -/
def indexTooWide : Fault := other "IndexError" "cannot fit 'int' into an index-sized integer"

/-- The fault of the number of a slot that does not fit into 32 bits. -/
def slotTooWide : Fault := other "OverflowError" "Python int too large to convert to C int"

/-- The fault of a number too long to be written. -/
def tooManyDigits : Fault :=
  unconvertible .value ("Exceeds the limit (4300 digits) for integer string conversion; " ++
    "use sys.set_int_max_str_digits() to increase the limit")

/-- The fault of a path that holds the null character. -/
def nullInPath : Fault := unconvertible .value "embedded null byte"

/-- The fault of a value of the wrong type. -/
def wrongType (message : String) : Fault := other "TypeError" message

/-- The fault of a value of some type that lacks a part. -/
def lacking (typeName part : String) : Fault :=
  other "AttributeError" ("'" ++ typeName ++ "' object has no attribute '" ++ part ++ "'")

end Fault
end CodeListing
