import CodeListing.Code.Unit

/-! # The host compiler

The host takes a source apart into statements and compiles a source or a sequence of statements into
a unit.  It also goes through the nodes of statements, down to the innermost, and gives a place to
those that were added without one.  Each of these may fail, and nothing else is known about the
host, so a `Host` is three functions.  A `HostCall` is a record of one use of the first two.

Of a statement only what a rewriting of the last one needs is kept: its kind, its place and, for an
expression and for the assignment to a name, what is evaluated.  The nodes inside are not kept, so
of going through them only the end is: the host may give up on statements that are nested too
deeply for it (`Host.complete`). -/

namespace CodeListing

/-- The place of a node of a source: line and column of its start and of its end. -/
structure Span where
  line : Int
  column : Int
  endLine : Int
  endColumn : Int
deriving DecidableEq, Repr

inductive Statement where
  | expression (value : String) (span : Span)
  | assignment (target : String) (targetSpan : Span) (value : String) (span : Span)
  | other (kind : String) (span : Span)
deriving DecidableEq, Repr

/-- The statements of a source, in order. -/
abbrev Statements := List Statement

/-- What the host compiles. -/
inductive Compiland where
  | text (source : String)
  | statements (ss : Statements)
deriving DecidableEq, Repr

/-- What the host takes a source for. -/
inductive Form where
  | exec
  | eval
  | single
deriving DecidableEq, Repr

def Form.token : Form → String
  | exec => "exec"
  | eval => "eval"
  | single => "single"

/-- A level of optimization as it was asked for: a number, or a truth value in its place. -/
inductive Level where
  | number (n : Nat)
  | truth (b : Bool)
deriving DecidableEq, Repr

namespace Level

def toNat : Level → Nat
  | number n => n
  | truth b => b.toNat

def value : Level → Value
  | number n => .int n
  | truth b => .truth b

/-- The level of a value, if it counts as a number that is not negative. -/
def ofValue? : Value → Option Level
  | .int (.ofNat n) => some (number n)
  | .truth b => some (truth b)
  | _ => none

/-- A level that is lowered to a limit if it is above. -/
def capped (l : Level) (limit : Nat) : Level := if l.toNat ≤ limit then l else number limit

theorem toNat_capped (l : Level) (limit : Nat) : (l.capped limit).toNat = min l.toNat limit := by
  unfold capped
  split
  · next h => exact (Nat.min_eq_left h).symm
  · next h => exact (Nat.min_eq_right (Nat.le_of_not_le h)).symm

end Level

inductive HostCall where
  | parse (source file : String)
  | compile (what : Compiland) (file : String) (form : Form) (level : Level)
deriving DecidableEq, Repr

structure Host where
  parse : String → String → Except Fault Statements
  compile : Compiland → String → Form → Level → Except Fault CodeUnit
  complete : Statements → Except Fault Unit := fun _ => .ok ()

end CodeListing
