import CodeListing.Text.DecimalDigit
import CodeListing.Text.Lines

/-! # Words of a command line

Every word of a command line is taken for one of four things (`Token`).  The first `--` is a
terminator, and all words behind it are plain arguments.  Otherwise a word is, in this order: an
argument if it is empty, does not start with a dash, or is a dash alone; a flag if it is written as
one; a flag with text attached if it is one up to its first equals sign, or if its first two
characters are a short flag; an argument if it looks like a negative number or holds a blank; and an
unknown flag.

Text behind the equals sign of a short flag counts as attached to it like any other: in `-v=v` the
second letter is a further flag.  There are readers of command lines, newer than the one followed
here, that refuse such text where the flag takes no value. -/

namespace CodeListing

/-- The flags of the command line. -/
inductive Flag where
  | help
  | source
  | mode
  | level
  | verbose
deriving DecidableEq, Repr

namespace Flag

/-- The flag written as a word. -/
def ofWord? (word : String) : Option Flag :=
  if word = "-h" ∨ word = "--help" then some help
  else if word = "--file-source" then some source
  else if word = "--mode" then some mode
  else if word = "--optimize" then some level
  else if word = "-v" ∨ word = "--verbose" then some verbose
  else none

/-- The flag of a single letter behind a dash. -/
def ofLetter? (c : Char) : Option Flag :=
  if c = 'h' then some help else if c = 'v' then some verbose else none

/-- How messages name a flag. -/
def label : Flag → String
  | help => "-h/--help"
  | source => "--file-source"
  | mode => "--mode"
  | level => "--optimize"
  | verbose => "--verbose/-v"

def takesValue : Flag → Bool
  | help | verbose => false
  | source | mode | level => true

end Flag

/-- What a word is taken for.  A flag has a single letter or a whole word, and possibly text
attached to it. -/
inductive Token where
  | argument (word : String)
  | terminator
  | flag (f : Flag) (letter : Bool) (attached : Option String)
  | unknown (word : String)
deriving DecidableEq, Repr

namespace Token

/-- Whether characters are decimal digits, at least one. -/
def areDigits (cs : List Char) : Bool := cs ≠ [] && cs.all fun c => (digitValue? c).isSome

/-- Whether a word looks like a negative number: a dash and an integer or a decimal fraction, and
perhaps a line feed. -/
def looksNegative : List Char → Bool
  | '-' :: cs =>
    let number := if cs.getLast? = some '\n' then cs.dropLast else cs
    match cut '.' number with
    | [whole] => areDigits whole
    | [whole, fraction] => (whole = [] || areDigits whole) && areDigits fraction
    | _ => false
  | _ => false

/-- The parts of a word before and behind its first equals sign. -/
def splitEquals? (cs : List Char) : Option (String × String) :=
  let before := cs.takeWhile (· ≠ '=')
  match cs.dropWhile (· ≠ '=') with
  | [] => none
  | _ :: after => some (String.ofList before, String.ofList after)

/-- Whether a flag is written with a single letter. -/
def isLetterFlag (word : String) : Bool := word.length = 2

/-- The flag with text attached that a word is. -/
def attachedFlag? (word : String) : Option Token :=
  let byEquals := do
    let (before, after) ← splitEquals? word.toList
    let f ← Flag.ofWord? before
    return flag f (isLetterFlag before) (some after)
  byEquals.or <|
    match word.toList with
    | '-' :: c :: cs => (Flag.ofLetter? c).map fun f => flag f true (some (String.ofList cs))
    | _ => none

/-- What a word is taken for before the terminator. -/
def classify (word : String) : Token :=
  if word.toList.head? ≠ some '-' then argument word
  else match Flag.ofWord? word with
    | some f => flag f (isLetterFlag word) none
    | none =>
      if word = "-" then argument word
      else match attachedFlag? word with
        | some t => t
        | none =>
          if looksNegative word.toList || ' ' ∈ word.toList then argument word else unknown word

/-- What the words of a command line are taken for. -/
def scan : List String → List Token
  | [] => []
  | word :: words =>
    if word = "--" then terminator :: words.map argument else classify word :: scan words

end Token
end CodeListing
