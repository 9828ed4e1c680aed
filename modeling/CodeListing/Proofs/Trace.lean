import CodeListing.Backend.Compiler

/-! # Views of a trace

A trace is seen from two sides: `written` are its events on the output and `said` the lines of its
messages, both in order.  A compilation is seen from neither side: whatever a backend does, it
leaves the output alone and says nothing (`Backend.written_run`, `Backend.said_run`).  A trace
without events on the output leaves it empty (`output_eq_empty`).

Among the messages stand the log records that the verbosity shows, too.  `shown` are the lines and
these records in order, and what a trace leaves among the messages is made of them
(`messages_eq_join`). -/

namespace CodeListing

namespace Event

/-- Whether an event is one on the output. -/
def isOnOutput : Event → Bool
  | write _ | flush => true
  | _ => false

/-- The line of a message. -/
def line? : Event → Option String
  | message line => some line
  | _ => none

/-- Whether an event is a log record. -/
def isRecord : Event → Bool
  | record .. => true
  | _ => false

/-- Whether an event is shown among the messages. -/
def isShown (v : Verbosity) : Event → Bool
  | message _ => true
  | record level _ => v.shows level
  | _ => false

theorem isOnOutput_of_compilation {e : Event} (h : e.isOfCompilation = true) :
    e.isOnOutput = false := by
  cases e <;> first | rfl | cases h

theorem line?_of_compilation {e : Event} (h : e.isOfCompilation = true) : e.line? = none := by
  cases e <;> first | rfl | cases h

theorem output_of_not_isOnOutput {e : Event} (h : e.isOnOutput = false) : e.output = "" := by
  cases e <;> first | rfl | cases h

/-- The text of an event where it is shown among the messages. -/
def text : Event → String
  | message line => line ++ "\n"
  | record _ line => line ++ "\n"
  | _ => ""

theorem messages_of_isShown {v : Verbosity} {e : Event} (h : e.isShown v = true) :
    e.messages v = e.text := by
  cases e with
  | record level line => simp_all [isShown, messages, text]
  | message | write | flush | call | resolve => rfl

theorem messages_of_not_isShown {v : Verbosity} {e : Event} (h : e.isShown v = false) :
    e.messages v = "" := by
  cases e with
  | message => cases h
  | record level line => simp_all [isShown, messages]
  | write | flush | call | resolve => rfl

/-- What events leave in text is left by those of a kind, if the others leave nothing. -/
theorem join_map_eq_join_filter {p : Event → Bool} {text : Event → String}
    (h : ∀ e, p e = false → text e = "") (es : List Event) :
    String.join (es.map text) = String.join ((es.filter p).map text) := by
  induction es with
  | nil => rfl
  | cons e es ih =>
      by_cases hp : p e = true
      · rw [List.filter_cons_of_pos hp, List.map_cons, List.map_cons, String.join_cons,
          String.join_cons, ih]
      · have hempty := h e (Bool.eq_false_iff.mpr hp)
        rw [List.filter_cons_of_neg hp, List.map_cons, String.join_cons, ih, hempty,
          String.empty_append]

end Event

namespace Trace
variable {α : Type}

def written (t : Trace α) : List Event := t.events.filter Event.isOnOutput

def said (t : Trace α) : List String := t.events.filterMap Event.line?

/-- The lines of the messages and the log records of a verbosity, in order. -/
def shown (v : Verbosity) (t : Trace α) : List Event := t.events.filter (Event.isShown v)

theorem written_eq_nil {t : Trace α} (h : ∀ e ∈ t.events, e.isOnOutput = false) :
    t.written = [] := by
  unfold written
  rw [List.filter_eq_nil_iff]
  intro e he
  rw [h e he]
  exact Bool.false_ne_true

theorem said_eq_nil {t : Trace α} (h : ∀ e ∈ t.events, e.line? = none) : t.said = [] := by
  unfold said
  rw [List.filterMap_eq_nil_iff]
  exact h

theorem said_sayAll (ls : List String) : (sayAll ls).said = ls := by
  unfold said sayAll
  rw [List.filterMap_map]
  exact List.filterMap_some

theorem result_bind {β : Type} (t : Trace α) (f : α → Trace β) :
    (t >>= f).result = t.result >>= fun a => (f a).result := by
  cases h : t.result with
  | ok a =>
      rw [bind_of_ok h]
      rfl
  | error e =>
      rw [bind_of_error h]
      rfl

/-- The output holds what the events on it leave there. -/
theorem output_eq_join (t : Trace α) : t.output = String.join (t.written.map Event.output) :=
  Event.join_map_eq_join_filter (fun _ => Event.output_of_not_isOnOutput) t.events

theorem messages_eq_join (v : Verbosity) (t : Trace α) :
    t.messages v = String.join ((t.shown v).map Event.text) := by
  have htext : (t.shown v).map (Event.messages v) = (t.shown v).map Event.text := by
    apply List.map_congr_left
    intro e he
    exact Event.messages_of_isShown (List.mem_filter.mp he).2
  rw [← htext]
  exact Event.join_map_eq_join_filter (fun _ => Event.messages_of_not_isShown) t.events

/-- A trace without events on the output leaves the output empty. -/
theorem output_eq_empty {t : Trace α} (h : t.written = []) : t.output = "" := by
  rw [output_eq_join, h]
  rfl

end Trace

namespace Backend
variable (b : Backend) (host : Host) (q : Request)

/-- Compiling with a backend does nothing but keep a log and use the host. -/
theorem isOfCompilation_of_mem_run {e : Event} (h : e ∈ (b.run host q).events) :
    e.isOfCompilation = true := by
  rcases Trace.mem_events_bind h with h | ⟨_, -, h⟩
  · obtain rfl := List.mem_singleton.mp h
    rfl
  · rcases Trace.mem_events_bind h with h | ⟨_, -, h⟩
    · exact b.compile.isOfCompilation host q e h
    · cases h

theorem written_run : (b.run host q).written = [] :=
  Trace.written_eq_nil fun _ he =>
    Event.isOnOutput_of_compilation (b.isOfCompilation_of_mem_run host q he)

theorem said_run : (b.run host q).said = [] :=
  Trace.said_eq_nil fun _ he => Event.line?_of_compilation (b.isOfCompilation_of_mem_run host q he)

end Backend
end CodeListing
