import CodeListing.Proofs.Backend.Outcome
import CodeListing.Proofs.Backend.Registration
import Mathlib.Data.List.Induction

/-! # What is delivered under a name

A request is compiled with the backend registered under a name (`Registry.compile`).  Whatever that
backend does, what comes back is of one of four kinds (`Delivers`): an object of the class that was
registered for the name, a misuse if the object is not of that class, an error for the user that
keeps the diagnostic, or any other failure as it is.

The class is that of the definition which registered the name, while the way of compiling may be
inherited from a backend with another class (`Registry.Origin`, `origin_of_find?`).  So nothing can
be said about the object from the way it was compiled; it is the look at it that counts, and that a
sound registry only has classes of objects that can be displayed (`Registry.compile_delivers`). -/

namespace CodeListing

namespace Backend
variable (b : Backend) (host : Host) (q : Request)

/-- The log record with which a backend begins. -/
def opening : Event :=
  .record .info ("Compiling " ++ q.name ++ " in " ++ q.mode.token ++ " mode with " ++ b.name ++
    " backend...")

end Backend

namespace Registry

/-- Compiles a request with the backend registered under a name. -/
def compile (r : Registry) (host : Host) (name : String) (q : Request) : Trace Artifact := do
  let b ← Trace.ofExcept ((r.get name).mapError .misuse)
  b.run host q

variable {r : Registry} {d : Definition} {name : String} {b : Backend}

theorem find?_singleton {other : String} {b' : Backend}
    (h : find? ⟨[(other, b')]⟩ name = some b) : name = other ∧ b' = b := by
  have hmem := mem_of_find? h
  obtain ⟨hname, hbackend⟩ := Prod.mk.inj (List.mem_singleton.mp hmem)
  exact ⟨hname, hbackend.symm⟩

/-- A backend that inherits its way of compiling from one with a wider class is held to its own. -/
example :
    let wide : Class := .sub "Text" .artifact
    let inherited : Compile := .answering fun _ => .ok ⟨wide, .ok "text"⟩
    let first : Definition :=
      ⟨"Wide", some (.text "wide"), some (.type wide), [], none, some inherited⟩
    let second : Definition :=
      ⟨"Narrow", some (.text "narrow"), some (.type (.sub "Short" wide)), [],
        some ⟨"Wide", "wide", wide, inherited⟩, none⟩
    ((Registry.initial.afterAll [first, second]).compile .idle "narrow"
      ⟨"x", .exec, "f", ⟨.number 0, by decide⟩⟩).result =
      .error (.misuse (.wrongProduct "narrow" "Text")) :=
  rfl

end Registry
end CodeListing
