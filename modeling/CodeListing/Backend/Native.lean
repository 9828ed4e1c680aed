import CodeListing.Backend.Block
import CodeListing.Backend.Registry

/-! # The backend of the host compiler

The default backend hands the source to the host.  Levels above `highestLevel` are lowered to it,
and a block is taken apart first, so that its last expression can be bound, and then compiled from
its statements.  Where a statement was rewritten the host completes the places of the statements,
and if it does not come to the end of them they are not compiled (`Native.bindResult`).

When the host rejects a source the backend says where; when the host cannot convert a value or
recurses too deeply, the backend says so without a place; any other fault of the host passes through
(`Native.diagnose`).  Values of a fault are written as they are, integers with all of their
digits. -/

namespace CodeListing.Native

/-- The highest level that the host knows. -/
def highestLevel : Nat := 2

def form : Mode → Form
  | .exec => .exec
  | .eval => .eval
  | .single => .single
  | .blockExpr => .exec

/-- The text of a rejection: its kind, its message, and its place if it has a line. -/
def rejectionText (kind : Rejection) (message filename line : Value) : String :=
  let text := kind.name ++ ": " ++ message.plain
  match line with
  | .null => text
  | _ => text ++ " (" ++ filename.plain ++ ", line " ++ line.plain ++ ")"

/-- What the backend makes of a fault of the host. -/
def diagnose (f : Fault) : Failure :=
  match f with
  | .rejected kind message filename line column =>
    .diagnosed ⟨.text (rejectionText kind message filename line), line, column, some f⟩
  | .unconvertible .. | .runtime .recursion _ =>
    .diagnosed ⟨.text (f.name ++ ": " ++ f.message), .null, .null, some f⟩
  | _ => .foreign f

def parse (host : Host) (source file : String) : Trace Statements :=
  ⟨[.call (.parse source file)], (host.parse source file).mapError .foreign⟩

/-- Statements with their result bound, if they have one and the host completes their places. -/
def bindResult (host : Host) (ss : Statements) : Except Fault Statements :=
  if hasResult ss then (host.complete (bindLast ss)).map fun _ => bindLast ss else .ok ss

/-- The statements of a block, the last of which binds its value. -/
def parseBlock (host : Host) (source file : String) : Trace Statements := do
  Trace.ofExcept ((bindResult host (← parse host source file)).mapError .foreign)

/-- The unit of a source or of statements. -/
def compileUnit (host : Host) (what : Compiland) (file : String) (form : Form) (level : Level) :
    Trace CodeUnit :=
  ⟨[.call (.compile what file form level)],
    (host.compile what file form level).mapError .foreign⟩

/-- A failure of the host as the backend reports it. -/
def diagnoseFailure : Failure → Failure
  | .foreign f => diagnose f
  | e => e

/-- What the host is to compile. -/
def compiland (host : Host) (q : Request) : Trace Compiland :=
  match q.mode with
  | .blockExpr => do return .statements (← parseBlock host q.source q.name)
  | _ => pure (.text q.source)

/-- Notes that a level was lowered. -/
def noteCapped (asked used : Level) : Trace Unit :=
  if used = asked then pure ()
  else .log .debug ("Optimization level " ++ Numeral.text asked.toNat ++ " clamped to " ++
    Numeral.text used.toNat)

/-- Compiles a request with the host. -/
def compileRequest (host : Host) (q : Request) : Trace Artifact := do
  let level := q.level.capped highestLevel
  noteCapped q.level level
  let unit ← Trace.mapFailure diagnoseFailure do
    compileUnit host (← compiland host q) q.name (form q.mode) level
  return .ofCode unit

theorem isOfCompilation_of_mem_noteCapped {asked used : Level} {e : Event}
    (h : e ∈ (noteCapped asked used).events) : e.isOfCompilation = true := by
  unfold noteCapped at h
  split at h
  · simp at h
  · obtain rfl := List.mem_singleton.mp h
    rfl

theorem isOfCompilation_of_mem_compiland {host : Host} {q : Request} {e : Event}
    (h : e ∈ (compiland host q).events) : e.isOfCompilation = true := by
  unfold compiland at h
  split at h
  · rcases Trace.mem_events_bind h with h | ⟨_, -, h⟩
    · rcases Trace.mem_events_bind h with h | ⟨_, -, h⟩
      · obtain rfl := List.mem_singleton.mp h
        rfl
      · simp at h
    · simp at h
  · simp at h

theorem isOfCompilation_of_mem_compileRequest (host : Host) (q : Request) :
    ∀ e ∈ (compileRequest host q).events, e.isOfCompilation = true := by
  intro e he
  rcases Trace.mem_events_bind he with h | ⟨_, -, h⟩
  · exact isOfCompilation_of_mem_noteCapped h
  · rcases Trace.mem_events_bind h with h | ⟨_, -, h⟩
    · rcases Trace.mem_events_bind h with h | ⟨_, -, h⟩
      · exact isOfCompilation_of_mem_compiland h
      · obtain rfl := List.mem_singleton.mp h
        rfl
    · simp at h

def compile : Compile := ⟨compileRequest, isOfCompilation_of_mem_compileRequest⟩

/-- The backend of the host compiler. -/
def backend : Backend := ⟨"CPythonBackend", "cpython", .code, compile⟩

end CodeListing.Native

namespace CodeListing

/-- The registry with the backend of the host compiler only. -/
def Registry.initial : Registry := ⟨[(Native.backend.name, Native.backend)]⟩

/-- The name of the backend that is used unless another is asked for. -/
def defaultBackend : String := "cpython"

end CodeListing
