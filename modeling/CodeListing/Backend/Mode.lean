import CodeListing.Failure

/-! # Modes of compilation

A source is compiled as a whole program, as one expression, as one interactive statement, or as a
block whose last expression is its result.  Each mode has one token, and no other text stands for a
mode (`Mode.resolve`), nor does any other value (`Mode.ofValue`). -/

namespace CodeListing

inductive Mode where
  | exec
  | eval
  | single
  | blockExpr
deriving DecidableEq, Repr

namespace Mode

def token : Mode → String
  | exec => "exec"
  | eval => "eval"
  | single => "single"
  | blockExpr => "block-expr"

def ofToken? (token : String) : Option Mode :=
  if token = "exec" then some exec
  else if token = "eval" then some eval
  else if token = "single" then some single
  else if token = "block-expr" then some blockExpr
  else none

/-- The mode of a token, or the error for a text that is none. -/
def resolve (token : String) : Except UserError Mode :=
  match ofToken? token with
  | some m => .ok m
  | none => .error (.invalidMode (.text token) token)

/-- The mode that a value is the token of, or the fault of a value that is none. -/
def ofValue (v : Value) : Except Fault Mode :=
  match v with
  | .text token => (ofToken? token).elim (.error (fault v)) .ok
  | _ => .error (fault v)
where
  fault (v : Value) : Fault :=
    .unconvertible .value (v.quoted ++ " is not a valid ExecutionMode")

@[simp] theorem ofToken?_token (m : Mode) : ofToken? m.token = some m := by
  cases m <;> decide

theorem ofToken?_eq_some_iff {t : String} {m : Mode} : ofToken? t = some m ↔ t = m.token := by
  constructor
  · intro h
    simp only [ofToken?] at h
    split at h
    · next ht => cases h; exact ht
    · split at h
      · next ht => cases h; exact ht
      · split at h
        · next ht => cases h; exact ht
        · split at h
          · next ht => cases h; exact ht
          · cases h
  · rintro rfl
    exact ofToken?_token m

end Mode
end CodeListing
