import CodeListing.Backend.Host
import CodeListing.Failure

/-! # What a run does

A run is described by what it does, in order, and by how it ends (`Trace`).  The events are writes
to the output and flushes of it, lines of messages to the user, log records with their level, and
uses of the host and of the resolver of paths.  Whether a log record is shown depends on the
verbosity and on nothing else, so records are part of every trace and `Verbosity.shows` decides
about them afterwards.

Traces are put together in sequence; the first failure ends a sequence (`Trace.bind`).  `output` and
`messages` are what a trace leaves on the output and among the messages. -/

namespace CodeListing

inductive LogLevel where
  | debug
  | info
deriving DecidableEq, Repr

/-- From which level on log records are shown. -/
inductive Verbosity where
  | warning
  | info
  | debug
deriving DecidableEq, Repr

/-- Whether records of a level are shown. -/
def Verbosity.shows : Verbosity → LogLevel → Bool
  | debug, _ => true
  | info, .info => true
  | _, _ => false

inductive Event where
  | write (text : String)
  | flush
  | message (line : String)
  | record (level : LogLevel) (line : String)
  | call (c : HostCall)
  | resolve (path : String)
deriving DecidableEq, Repr

namespace Event

/-- What an event leaves on the output. -/
def output : Event → String
  | write text => text
  | _ => ""

/-- What an event leaves among the messages. -/
def messages (v : Verbosity) : Event → String
  | message line => line ++ "\n"
  | record level line => if v.shows level then line ++ "\n" else ""
  | _ => ""

/-- The use of the host that an event is. -/
def call? : Event → Option HostCall
  | call c => some c
  | _ => none

/-- Whether an event belongs to a compilation: a log record or a use of the host. -/
def isOfCompilation : Event → Bool
  | record .. | call _ => true
  | _ => false

end Event

/-- Events in order, and a result or a failure. -/
structure Trace (α : Type) where
  events : List Event
  result : Except Failure α

namespace Trace

protected def pure {α : Type} (a : α) : Trace α := ⟨[], .ok a⟩

/-- One trace after another, unless the first fails. -/
protected def bind {α β : Type} (t : Trace α) (f : α → Trace β) : Trace β :=
  match t.result with
  | .ok a => ⟨t.events ++ (f a).events, (f a).result⟩
  | .error e => ⟨t.events, .error e⟩

instance : Monad Trace where
  pure := Trace.pure
  bind := Trace.bind

def emit (e : Event) : Trace Unit := ⟨[e], .ok ()⟩

def say (line : String) : Trace Unit := emit (.message line)

def log (level : LogLevel) (line : String) : Trace Unit := emit (.record level line)

def fail {α : Type} (e : Failure) : Trace α := ⟨[], .error e⟩

/-- A result or a failure, without events. -/
def ofExcept {α : Type} (r : Except Failure α) : Trace α := ⟨[], r⟩

/-- A trace with its failure turned into another. -/
def mapFailure {α : Type} (f : Failure → Failure) (t : Trace α) : Trace α :=
  ⟨t.events, t.result.mapError f⟩

/-- A trace with a further one after its failure; the failure stays unless the further one fails. -/
def onFailure {α : Type} (t : Trace α) (handler : Failure → Trace Unit) : Trace α :=
  match t.result with
  | .ok _ => t
  | .error e =>
    let h := handler e
    match h.result with
    | .ok () => ⟨t.events ++ h.events, .error e⟩
    | .error e' => ⟨t.events ++ h.events, .error e'⟩

/-- All lines of some messages. -/
def sayAll (lines : List String) : Trace Unit := ⟨lines.map .message, .ok ()⟩

section laws
variable {α β : Type}

@[simp] theorem pure_events (a : α) : (pure a : Trace α).events = [] := rfl

@[simp] theorem pure_result (a : α) : (pure a : Trace α).result = .ok a := rfl

@[simp] theorem emit_events (e : Event) : (emit e).events = [e] := rfl

@[simp] theorem emit_result (e : Event) : (emit e).result = .ok () := rfl

@[simp] theorem say_events (line : String) : (say line).events = [.message line] := rfl

@[simp] theorem say_result (line : String) : (say line).result = .ok () := rfl

@[simp] theorem log_events (level : LogLevel) (line : String) :
    (log level line).events = [.record level line] := rfl

@[simp] theorem log_result (level : LogLevel) (line : String) :
    (log level line).result = .ok () := rfl

@[simp] theorem fail_events (e : Failure) : (fail e : Trace α).events = [] := rfl

@[simp] theorem fail_result (e : Failure) : (fail e : Trace α).result = .error e := rfl

@[simp] theorem ofExcept_events (r : Except Failure α) : (ofExcept r).events = [] := rfl

@[simp] theorem ofExcept_result (r : Except Failure α) : (ofExcept r).result = r := rfl

@[simp] theorem mapFailure_events (f : Failure → Failure) (t : Trace α) :
    (t.mapFailure f).events = t.events := rfl

@[simp] theorem mapFailure_result (f : Failure → Failure) (t : Trace α) :
    (t.mapFailure f).result = t.result.mapError f := rfl

theorem bind_of_ok {t : Trace α} {a : α} (h : t.result = .ok a) (f : α → Trace β) :
    t >>= f = ⟨t.events ++ (f a).events, (f a).result⟩ := by
  show Trace.bind t f = _
  simp only [Trace.bind, h]

theorem bind_of_error {t : Trace α} {e : Failure} (h : t.result = .error e) (f : α → Trace β) :
    t >>= f = ⟨t.events, .error e⟩ := by
  show Trace.bind t f = _
  simp only [Trace.bind, h]

theorem mem_events_bind {t : Trace α} {f : α → Trace β} {e : Event} (h : e ∈ (t >>= f).events) :
    e ∈ t.events ∨ ∃ a, t.result = .ok a ∧ e ∈ (f a).events := by
  cases hr : t.result with
  | ok a =>
    rw [bind_of_ok hr] at h
    exact (List.mem_append.mp h).imp id fun h => ⟨a, rfl, h⟩
  | error _ =>
    rw [bind_of_error hr] at h
    exact .inl h

end laws

/-- What a trace leaves on the output. -/
def output {α : Type} (t : Trace α) : String := String.join (t.events.map Event.output)

/-- What a trace leaves among the messages. -/
def messages {α : Type} (v : Verbosity) (t : Trace α) : String :=
  String.join (t.events.map (Event.messages v))

/-- The uses of the host, in order. -/
def calls {α : Type} (t : Trace α) : List HostCall := t.events.filterMap Event.call?

end Trace
end CodeListing
