import CodeListing.Backend.Compiler
import CodeListing.Command.Arguments
import CodeListing.Command.Explain
import CodeListing.Files.Source
import CodeListing.Report

/-! # A run

A run loads the source, compiles it with a backend and writes the report (`run`).  The level of
optimization is checked once the source is loaded, and `Compiling...` is said when both have
succeeded.  An error of the compiler is explained before the run fails with it (`explain`).

The command (`command`) reads its arguments first.  From then on log records are shown as the
verbosity asks, also in later runs of the same `Session`.  A usage error ends the command with the
status 2, any other error reported to the user with the status 1, after its message; other failures
pass through. -/

namespace CodeListing

/-- Loads the source of a configuration. -/
def loadSource (fs : FileSystem) (resolver : Resolver) : Setting Path → Trace Source
  | .given path => Source.load fs resolver path.text
  | .dropped => Trace.fail <| .foreign <| .wrongType
      "expected str, bytes or os.PathLike object, not list"

/-- Compiles the source of a configuration with a backend and writes the report. -/
def run (host : Host) (fs : FileSystem) (resolver : Resolver) (backend : Backend)
    (c : Configuration) : Trace Unit := do
  Trace.log .info ("Reading " ++ c.source.shown ++ "...")
  let source ← loadSource fs resolver c.source
  let options ← Trace.ofExcept ((Options.make c.level).mapError .misuse)
  Trace.say "Compiling..."
  let artifact ←
    (backend.run host ⟨source.text, c.mode, source.name, options⟩).onFailure (explain source.text)
  Trace.log .info "Writing disassembly..."
  report artifact.display source.name

/-- What stays from one run to the next: the registered backends and the verbosity. -/
structure Session where
  registry : Registry
  verbosity : Verbosity

/-- The session before the first run. -/
def Session.initial : Session := ⟨.initial, .warning⟩

/-- How the command ends: it returns, or it exits with a status. -/
inductive Ending where
  | returned
  | exit (status : Nat)
deriving DecidableEq, Repr

/-- The verbosity that a number of flags asks for. -/
def Verbosity.ofCount : Nat → Verbosity
  | 0 => .warning
  | 1 => .info
  | _ => .debug

/-- The status with which an error reported to the user ends the command. -/
def Problem.status : Problem → Nat
  | usage => 2
  | _ => 1

/-- Says an error, after the usage if that was not followed, and ends the command. -/
def reportError (e : UserError) : Trace Ending := do
  match e.problem with
  | .usage => Trace.say usageText
  | _ => pure ()
  Trace.say e.message
  return .exit e.problem.status

/-- Ends the command after a run. -/
def conclude (t : Trace Unit) : Trace Ending :=
  match t.result with
  | .ok () => ⟨t.events, .ok .returned⟩
  | .error (.user e) => ⟨t.events ++ (reportError e).events, (reportError e).result⟩
  | .error e => ⟨t.events, .error e⟩

/-- Runs with the default backend and the default resolver. -/
def runDefault (registry : Registry) (host : Host) (fs : FileSystem) (c : Configuration) :
    Trace Unit := do
  let backend ← Trace.ofExcept ((registry.get defaultBackend).mapError .misuse)
  run host fs fs.canonicalize backend c

/-- The command. -/
def command (s : Session) (host : Host) (fs : FileSystem) (words : List String) :
    Session × Trace Ending :=
  match Configuration.ofArguments words with
  | .error .help => (s, do Trace.emit (.write helpText); return .exit 0)
  | .error (.error e) => (s, reportError e)
  | .ok c =>
    ({ s with verbosity := .ofCount c.verbose }, conclude (runDefault s.registry host fs c))

end CodeListing
