import CodeListing.Backend.Artifact
import CodeListing.Backend.Mode
import CodeListing.Trace

/-! # Backends and their registry

A backend compiles a `Request` into an object, with the help of the host if it needs it.  Every
backend has a name under which it is registered and a class that its objects must belong to.

New backends are made from definitions (`Definition`), which may extend a registered backend and
inherit from it what they do not give themselves.  A definition has to give a name that is a text
and is not registered yet and a class below `Class.artifact`; the first of these conditions that it
fails is reported (`Registry.check`), and nothing is registered then.  A class called `baseName`
stands outside of this: it is neither checked nor registered.

Further keywords of a definition are of no account, unless one has the name of a part that every
class is made of (`partNames`): then no class is made, and what else is wrong is not looked at.  A
class whose name holds the null character is not made either, once all conditions are met. -/

namespace CodeListing

/-- The largest level of optimization that can be asked for. -/
def maxLevel : Nat := 255

/-- The options of a compilation: a level that can be asked for. -/
structure Options where
  level : Level
  level_le : level.toNat ≤ maxLevel

/-- The options with the level of a value. -/
def Options.make (value : Value) : Except Misuse Options :=
  match Level.ofValue? value with
  | some l => if h : l.toNat ≤ maxLevel then .ok ⟨l, h⟩ else .error (.invalidLevel value)
  | none => .error (.invalidLevel value)

/-- What a backend is asked to compile. -/
structure Request where
  source : String
  mode : Mode
  name : String
  options : Options

def Request.level (q : Request) : Level := q.options.level

/-- How a backend compiles.  On the way to its result it may keep a log and use the host; what it
has to tell, it tells by its result. -/
structure Compile where
  run : Host → Request → Trace Artifact
  isOfCompilation : ∀ host q, ∀ e ∈ (run host q).events, e.isOfCompilation = true

namespace Compile

instance : CoeFun Compile fun _ => Host → Request → Trace Artifact := ⟨run⟩

/-- A compilation that does nothing but answer. -/
def answering (answer : Request → Except Failure Artifact) : Compile :=
  ⟨fun _ q => .ofExcept (answer q), by simp⟩

end Compile

structure Backend where
  className : String
  name : String
  product : Class
  compile : Compile

/-- Backends by the names they are registered under, in the order in which they were registered. -/
structure Registry where
  entries : List (String × Backend)

/-- The value given for the class of the objects of a backend. -/
inductive Offered where
  | type (c : Class)
  | notType
deriving DecidableEq, Repr

/-- What is given for a new backend; what is absent is missing or inherited.  Of further keywords
the names are kept, in order. -/
structure Definition where
  className : String
  backendName : Option Value
  product : Option Offered
  extra : List String
  base : Option Backend
  compile : Option Compile

/-- What a new class says about itself. -/
structure Attributes where
  name : Option String
  product : Option Class
deriving DecidableEq, Repr

/-- The name of the class that all backends extend. -/
def baseName : String := "BaseBackend"

/-- The names of the parts that every class is made of. -/
def partNames : List String := ["cls", "name", "bases", "attrs"]

/-- The fault of a keyword with the name of a part. -/
def Fault.repeatedPart (name : String) : Fault :=
  wrongType ("BackendMetaclass.__new__() got multiple values for argument '" ++ name ++ "'")

/-- The fault of a class whose name holds the null character. -/
def Fault.nullInClassName : Fault :=
  unconvertible .value "type name must not contain null characters"

/-- The compilation that a backend leaves out. -/
def notImplemented : Compile := .answering fun _ => .error (.foreign .unimplemented)

namespace Definition
variable (d : Definition)

/-- How the new backend compiles: as given, as inherited, or not at all. -/
def effectiveCompile : Compile :=
  match d.compile, d.base with
  | some compile, _ => compile
  | none, some base => base.compile
  | none, none => notImplemented

/-- The keywords that are missing. -/
def missing : List String :=
  (if d.backendName.isNone then ["backend_name"] else []) ++
    (if d.product.isNone then ["artifact_class"] else [])

end Definition

namespace Registry
variable (r : Registry)

def find? (name : String) : Option Backend := r.entries.lookup name

/-- The backend registered under a name, or the misuse of a name that is not registered. -/
def get (name : String) : Except Misuse Backend :=
  match r.find? name with
  | some b => .ok b
  | none => .error (.unknownBackend name)

/-- The backend registered under a value.  Only texts are registered, and a list or a dictionary
cannot even be looked up. -/
def getValue (v : Value) : Except Failure Backend :=
  match v with
  | .text name => (r.get name).mapError .misuse
  | .list _ | .dict _ => .error (.foreign (.wrongType ("unhashable type: '" ++ v.typeName ++ "'")))
  | _ => .error (.misuse (.unknownBackend v.plain))

/-- The name and the class that a definition gives, or the first condition it fails. -/
def check (d : Definition) : Except Misuse (String × Class) :=
  match d.backendName, d.product with
  | some (.text name), some offered =>
    if (r.find? name).isSome then .error (.duplicateName name)
    else match offered with
      | .notType => .error .notType
      | .type c => if c.isSubclassOf .artifact then .ok (name, c) else .error (.notArtifact c.name)
  | some _, some _ => .error .nameNotText
  | _, _ => .error (.unspecified d.className d.missing)

/-- The registry with a further backend, and what its class says about itself. -/
def register (d : Definition) (name : String) (product : Class) :
    Except Failure (Registry × Attributes) :=
  if '\x00' ∈ d.className.toList then .error (.foreign .nullInClassName)
  else .ok (⟨r.entries ++ [(name, ⟨d.className, name, product, d.effectiveCompile⟩)]⟩,
    ⟨some name, some product⟩)

/-- The registry after a definition, and what the new class says about itself. -/
def define (d : Definition) : Except Failure (Registry × Attributes) :=
  match d.extra.find? fun keyword => partNames.contains keyword with
  | some keyword => .error (.foreign (.repeatedPart keyword))
  | none =>
    if d.className = baseName then .ok (r, ⟨d.base.map (·.name), d.base.map (·.product)⟩)
    else match r.check d with
      | .error m => .error (.misuse m)
      | .ok (name, product) => r.register d name product

end Registry
end CodeListing
