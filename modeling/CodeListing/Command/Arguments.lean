import CodeListing.Backend.Registry
import CodeListing.Command.Token
import CodeListing.Files.Path
import CodeListing.Text.Integer

/-! # Arguments of the command

The words of the command line give a source, a mode, a level of optimization and a verbosity
(`Configuration`).  They are read from left to right.  A flag that takes a value takes the text
attached to it or the argument behind it; a later value replaces an earlier one, and each use of the
flag for verbosity counts.  Letters of flags may share one dash (`letters`).  Words that no flag
takes are set aside.  At the end the source is required, nothing may have been set aside, and the
mode is resolved last.

A terminator attached to a flag as its value is dropped and leaves the flag with an empty list
(`Setting.dropped`).  This is the older of two rules in use; under the newer one the terminator is
the value, as any other text would be. -/

namespace CodeListing

/-- What a flag was set to: a value, or nothing because the text attached to it was dropped. -/
inductive Setting (α : Type) where
  | given (value : α)
  | dropped
deriving DecidableEq, Repr

/-- What is to be done. -/
structure Configuration where
  source : Setting Path
  mode : Mode
  level : Value
  verbose : Nat

/-- A source as it is shown. -/
def Setting.shown : Setting Path → String
  | .given path => path.text
  | .dropped => "[]"

/-- Why a text does not fit a flag. -/
inductive Unfit where
  | notInteger (text : String)
  | outOfRange
  | emptyPath
deriving DecidableEq, Repr

def Unfit.message : Unfit → String
  | notInteger text => "invalid optimization level: " ++ quoteText text
  | outOfRange => "optimization level must be between 0 and " ++ Numeral.text maxLevel
  | emptyPath => "source path must not be empty"

def readLevel (text : String) : Except Unfit Nat :=
  match readInteger? text with
  | none => .error (.notInteger text)
  | some (.ofNat n) => if n ≤ maxLevel then .ok n else .error .outOfRange
  | some (.negSucc _) => .error .outOfRange

def readPath (text : String) : Except Unfit Path :=
  if text = "" then .error .emptyPath else .ok (.ofText text)

/-- Why reading the arguments ends early: help is asked for, or there is an error. -/
inductive Stop where
  | help
  | error (e : UserError)

def Stop.usage (message : String) : Stop := .error (.usage message)

/-- A usage error about a flag. -/
def Stop.aboutFlag (f : Flag) (message : String) : Stop :=
  .usage ("argument " ++ f.label ++ ": " ++ message)

/-- The error of text attached to a flag that takes none. -/
def Stop.ignored (f : Flag) (attached : String) : Stop :=
  .aboutFlag f ("ignored explicit argument " ++ quoteText attached)

/-- What has been read so far. -/
structure Draft where
  source : Option (Setting Path)
  mode : Setting String
  level : Value
  verbose : Nat
  unused : List String

namespace Draft

def initial : Draft := ⟨none, .given "exec", .int 0, 0, []⟩

/-- A word that no flag takes is set aside. -/
def setAside (d : Draft) (word : String) : Draft := { d with unused := d.unused ++ [word] }

/-- A flag is set to the value of a text. -/
def set (d : Draft) (f : Flag) (text : String) : Except Stop Draft :=
  match f with
  | .source =>
    match readPath text with
    | .ok path => .ok { d with source := some (.given path) }
    | .error u => .error (.aboutFlag f u.message)
  | .mode => .ok { d with mode := .given text }
  | .level =>
    match readLevel text with
    | .ok n => .ok { d with level := .int n }
    | .error u => .error (.aboutFlag f u.message)
  | .help | .verbose => .ok d

/-- A flag is left with an empty list. -/
def drop (d : Draft) (f : Flag) : Draft :=
  match f with
  | .source => { d with source := some .dropped }
  | .mode => { d with mode := .dropped }
  | .level => { d with level := .list [] }
  | .help | .verbose => d

/-- A flag is set to the text attached to it. -/
def setAttached (d : Draft) (f : Flag) (text : String) : Except Stop Draft :=
  if text = "--" then .ok (d.drop f) else d.set f text

/-- Flags without values are obeyed in order. -/
def obey (d : Draft) : List Flag → Except Stop Draft
  | [] => .ok d
  | .help :: _ => .error .help
  | _ :: fs => obey { d with verbose := d.verbose + 1 } fs

end Draft

/-- The flags whose letters share one dash with a first one. -/
def letters (f : Flag) : List Char → Except Stop (List Flag)
  | [] => .ok [f]
  | c :: cs =>
    match Flag.ofLetter? c with
    | some g => (letters g cs).map (f :: ·)
    | none => .error (.ignored f (String.ofList (c :: cs)))

/-- The flags without values that one word stands for. -/
def flagsOf (f : Flag) (letter : Bool) : Option String → Except Stop (List Flag)
  | none => .ok [f]
  | some text =>
    if letter && text ≠ "" then letters f text.toList else .error (.ignored f text)

/-- Reads the words from left to right. -/
def readTokens (d : Draft) : List Token → Except Stop Draft
  | [] => .ok d
  | .argument word :: ts => readTokens (d.setAside word) ts
  | .terminator :: ts => readTokens (d.setAside "--") ts
  | .unknown word :: ts => readTokens (d.setAside word) ts
  | .flag f letter attached :: ts =>
    if f.takesValue then
      match attached with
      | some text => do readTokens (← d.setAttached f text) ts
      | none =>
        match ts with
        | .argument text :: ts => do readTokens (← d.set f text) ts
        | _ => .error (.aboutFlag f "expected one argument")
    else do readTokens (← d.obey (← flagsOf f letter attached)) ts

/-- The mode that is set. -/
def resolveMode : Setting String → Except UserError Mode
  | .given token => Mode.resolve token
  | .dropped => .error (.invalidMode (.list []) "")

/-- The configuration that is left when all words have been read. -/
def Draft.finish (d : Draft) : Except Stop Configuration :=
  match d.source with
  | none => .error (.usage "the following arguments are required: --file-source")
  | some source =>
    if d.unused ≠ [] then
      .error (.usage ("unrecognized arguments: " ++ " ".intercalate d.unused))
    else
      match resolveMode d.mode with
      | .ok mode => .ok ⟨source, mode, d.level, d.verbose⟩
      | .error e => .error (.error e)

/-- The configuration that a command line asks for. -/
def Configuration.ofArguments (words : List String) : Except Stop Configuration := do
  (← readTokens .initial (Token.scan words)).finish

/-- How the command is used, in short. -/
def usageText : String :=
  "usage: bcdump [-h] --file-source path [--mode MODE] [--optimize level]\n" ++
  "              [--verbose]"

/-- How the command is used. -/
def helpText : String := usageText ++ "\n\n" ++
  "Compile a source file and print the disassembly of the resulting bytecode.\n" ++
  "\n" ++
  "options:\n" ++
  "  -h, --help          show this help message and exit\n" ++
  "  --file-source path  The source file to compile.\n" ++
  "  --mode MODE         The mode of execution: exec, eval, single or block-expr.\n" ++
  "                      Defaults to exec.\n" ++
  "  --optimize level    Optimization level (0-255). Defaults to 0.\n" ++
  "  --verbose, -v       Set verbosity level. Can be used multiple times for\n" ++
  "                      increasing verbosity.\n"

end CodeListing
