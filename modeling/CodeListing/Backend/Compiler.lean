import CodeListing.Backend.Native

/-! # Compiling with a backend

The compiler hands a request to a backend and vouches for what comes back: a diagnostic becomes an
error for the user that keeps it, and an object that does not belong to the class of the backend is
a misuse.  Other failures pass through. -/

namespace CodeListing

/-- A failure of a backend as it is reported. -/
def surfaced : Failure → Failure
  | .diagnosed d => .user (.compilation d)
  | e => e

/-- The object of a backend, if it belongs to the class of the backend. -/
def Backend.accept (b : Backend) (a : Artifact) : Except Failure Artifact :=
  if a.type.isSubclassOf b.product then .ok a
  else .error (.misuse (.wrongProduct b.name a.type.name))

/-- Compiles a request with a backend. -/
def Backend.run (b : Backend) (host : Host) (q : Request) : Trace Artifact := do
  Trace.log .info ("Compiling " ++ q.name ++ " in " ++ q.mode.token ++ " mode with " ++ b.name ++
    " backend...")
  let a ← (b.compile host q).mapFailure surfaced
  Trace.ofExcept (b.accept a)

end CodeListing
