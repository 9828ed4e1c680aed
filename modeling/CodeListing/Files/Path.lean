import CodeListing.Text.Lines

/-! # Paths

A path is a text; `components` are its parts between slashes.  A `Path` is its normal form: what it
starts from and the components that name something, empty ones and single dots being left out and
double dots being kept.  Exactly two slashes in front are kept apart from one slash, and more than
two count as one.  `Path.text` writes the normal form, and `Path.name` is its last component, which
is empty where there is none. -/

namespace CodeListing

def components (path : String) : List String :=
  (cut '/' path.toList).map String.ofList

/-- Whether a path holds the null character, which no name has. -/
def hasNull (path : String) : Bool := '\x00' ∈ path.toList

def isAbsolute (path : String) : Bool := path.toList.head? = some '/'

/-- What a path starts from. -/
inductive Anchor where
  | here
  | root
  | doubleRoot
deriving DecidableEq, Repr

structure Path where
  anchor : Anchor
  parts : List String
deriving DecidableEq, Repr

namespace Path

/-- Where a path starts, by the slashes in front of it. -/
def anchorOf (path : String) : Anchor :=
  match (path.toList.takeWhile (· = '/')).length with
  | 0 => .here
  | 2 => .doubleRoot
  | _ => .root

/-- The normal form of a path. -/
def ofText (path : String) : Path :=
  ⟨anchorOf path, (components path).filter fun c => c ≠ "" && c ≠ "."⟩

/-- The slashes in front of a path. -/
def anchorText : Anchor → String
  | .here => ""
  | .root => "/"
  | .doubleRoot => "//"

/-- A path in writing; the place it starts from is a single dot when nothing follows. -/
def text (p : Path) : String :=
  let shown := anchorText p.anchor ++ "/".intercalate p.parts
  if shown = "" then "." else shown

def name (p : Path) : String := p.parts.getLast?.getD ""

end Path
end CodeListing
