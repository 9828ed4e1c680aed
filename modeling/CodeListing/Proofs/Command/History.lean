import CodeListing.Proofs.Command.Exit

/-! # What commands have in common

A command depends on what its words ask for, on the file system and on the host.  Two things are
left out of account here.  One is the verbosity that the words ask for: it decides which log records
are shown, and a run does not look at it (`run_of_alike`).  The other is what has taken place before
(`Act`): commands, runs and definitions of backends lead to another `Session`, but the default
backend is the same in all of them (`Session.reachable_afterAll`), and a command sets the verbosity
itself unless it has nothing to record (`shown_of_stop`).

So commands that ask for the same do the same and end alike, with the same lines among the messages,
and what is shown of the log grows with the verbosity (`command_differs_in_records`). -/

namespace CodeListing

namespace Trace
variable {α : Type} (t : Trace α)

/-- Apart from the log records the lines are shown that are said, whatever the verbosity is. -/
theorem filter_shown (v : Verbosity) :
    (t.shown v).filter (fun e => !e.isRecord) = t.said.map .message := by
  have hevents : ∀ es : List Event, es.filter (fun e => !e.isRecord && e.isShown v) =
      (es.filterMap Event.line?).map .message := by
    intro es
    induction es with
    | nil => rfl
    | cons e es ih =>
        cases e with
        | message line =>
            have hline : (Event.message line).line? = some line := rfl
            rw [List.filter_cons_of_pos rfl, List.filterMap_cons_some hline, List.map_cons, ih]
        | record | write | flush | call | resolve =>
            rw [List.filter_cons_of_neg Bool.false_ne_true, List.filterMap_cons_none rfl, ih]
  rw [shown, List.filter_filter]
  exact hevents t.events

theorem shown_eq_of_unrecorded (h : ∀ e ∈ t.events, e.isRecord = false) (v w : Verbosity) :
    t.shown v = t.shown w := by
  unfold shown
  apply List.filter_congr
  intro e he
  have hrecord := h e he
  cases e with
  | record => cases hrecord
  | message | write | flush | call | resolve => rfl

/-- The log records that are shown at a verbosity, in order. -/
def records (v : Verbosity) : List Event := (t.shown v).filter Event.isRecord

theorem records_eq_filter (v : Verbosity) :
    t.records v = t.events.filter fun e => e.isRecord && e.isShown v := by
  unfold records shown
  rw [List.filter_filter]

/-- Nothing is recorded for the lowest verbosity. -/
theorem records_warning : t.records .warning = [] := by
  rw [records_eq_filter, List.filter_eq_nil_iff]
  intro e _
  cases e with
  | record level => cases level <;> simp [Event.isShown, Verbosity.shows]
  | message | write | flush | call | resolve => simp [Event.isRecord]

/-- More flags show the records that fewer show, and others between them. -/
theorem records_sublist {m n : Nat} (h : m ≤ n) :
    (t.records (.ofCount m)).Sublist (t.records (.ofCount n)) := by
  have hlevel : ∀ level, (Verbosity.ofCount m).shows level = true →
      (Verbosity.ofCount n).shows level = true := by
    intro level hm
    match m, n with
    | 0, _ => cases level <;> cases hm
    | 1, 0 => omega
    | 1, 1 => exact hm
    | 1, _ + 2 => rfl
    | _ + 2, 0 => omega
    | _ + 2, 1 => omega
    | _ + 2, _ + 2 => rfl
  rw [records_eq_filter, records_eq_filter]
  apply List.monotone_filter_right
  intro e he
  cases e with
  | record level line => exact hlevel level he
  | message | write | flush | call | resolve => exact he

end Trace

/-! ### What has taken place before -/

/-- What can take place in a session. -/
inductive Act where
  | command (host : Host) (fs : FileSystem) (words : List String)
  | run (host : Host) (fs : FileSystem) (resolver : Resolver) (b : Backend) (c : Configuration)
  | define (d : Definition)

namespace Session

/-- The session after an act.  A run is handed its backend and leaves nothing behind. -/
def after (s : Session) : Act → Session
  | .command host fs words => (CodeListing.command s host fs words).1
  | .run .. => s
  | .define d => { s with registry := s.registry.after d }

/-- The session after some acts, one after the other. -/
def afterAll (s : Session) (acts : List Act) : Session := acts.foldl after s

theorem registry_command (s : Session) (host : Host) (fs : FileSystem) (words : List String) :
    (CodeListing.command s host fs words).1.registry = s.registry := by
  unfold CodeListing.command
  split <;> rfl

theorem reachable_after {s : Session} (h : s.registry.Reachable) (act : Act) :
    (s.after act).registry.Reachable := by
  cases act with
  | command host fs words =>
      have hregistry := s.registry_command host fs words
      exact hregistry ▸ h
  | run => exact h
  | define d =>
      cases hdefine : s.registry.define d with
      | ok p =>
          have hafter : (s.after (.define d)).registry = p.1 := Registry.after_of_ok hdefine
          rw [hafter]
          exact .defined h hdefine
      | error e =>
          have hafter : (s.after (.define d)).registry = s.registry :=
            Registry.after_of_error hdefine
          rw [hafter]
          exact h

/-- Whatever takes place, the backends of a session are those that definitions registered. -/
theorem reachable_afterAll {s : Session} (h : s.registry.Reachable) (acts : List Act) :
    (s.afterAll acts).registry.Reachable := by
  induction acts generalizing s with
  | nil => exact h
  | cons act acts ih => exact ih (reachable_after h act)

theorem reachable_initial (acts : List Act) : (initial.afterAll acts).registry.Reachable :=
  reachable_afterAll .initial acts

end Session

/-! ### What a command depends on -/

section
variable {host : Host} {fs : FileSystem} {words : List String} {c c' : Configuration}

theorem run_of_alike {resolver : Resolver} {b : Backend} (hsource : c.source = c'.source)
    (hmode : c.mode = c'.mode) (hlevel : c.level = c'.level) :
    run host fs resolver b c = run host fs resolver b c' := by
  unfold run
  rw [hsource, hmode, hlevel]

theorem verbosity_of_ok (h : Configuration.ofArguments words = .ok c) (s : Session) :
    (command s host fs words).1.verbosity = .ofCount c.verbose := by
  unfold command
  rw [h]

theorem shown_of_stop (stop : Stop) (v w : Verbosity) :
    (⟨stop.events, .ok (.exit stop.status)⟩ : Trace Ending).shown v =
      (⟨stop.events, .ok (.exit stop.status)⟩ : Trace Ending).shown w := by
  apply Trace.shown_eq_of_unrecorded
  intro e he
  cases stop with
  | help =>
      obtain rfl := List.mem_singleton.mp he
      rfl
  | error err =>
      obtain ⟨line, rfl⟩ := Stop.said_of_mem_events he
      rfl

/-- Commands that ask for the same have the same trace, in any two sessions. -/
theorem trace_of_alike {words' : List String} (h : Configuration.ofArguments words = .ok c)
    (h' : Configuration.ofArguments words' = .ok c') (hsource : c.source = c'.source)
    (hmode : c.mode = c'.mode) (hlevel : c.level = c'.level) (past past' : List Act) :
    (command (Session.initial.afterAll past) host fs words).2 =
      (command (Session.initial.afterAll past') host fs words').2 := by
  rw [command_of_ok host fs (Session.reachable_initial past) h,
    command_of_ok host fs (Session.reachable_initial past') h', run_of_alike hsource hmode hlevel]

/-- A command has the same trace whatever has taken place, and as much of it is shown. -/
theorem command_after (host : Host) (fs : FileSystem) (words : List String) (past : List Act) :
    let r := command (Session.initial.afterAll past) host fs words
    let r' := command .initial host fs words
    r.2 = r'.2 ∧ r.2.shown r.1.verbosity = r'.2.shown r'.1.verbosity := by
  intro r r'
  cases h : Configuration.ofArguments words with
  | error stop =>
      have hr : r.2 = ⟨stop.events, .ok (.exit stop.status)⟩ :=
        congrArg Prod.snd (command_of_stop host fs h)
      have hr' : r'.2 = ⟨stop.events, .ok (.exit stop.status)⟩ :=
        congrArg Prod.snd (command_of_stop host fs h)
      rw [hr, hr']
      exact ⟨rfl, shown_of_stop stop ..⟩
  | ok c =>
      have htrace : r.2 = r'.2 := trace_of_alike h h rfl rfl rfl past []
      have hv : r.1.verbosity = .ofCount c.verbose := verbosity_of_ok h _
      have hv' : r'.1.verbosity = .ofCount c.verbose := verbosity_of_ok h _
      refine ⟨htrace, ?_⟩
      rw [htrace, hv, hv']

end

/-- **Verbosity and history.**  Commands whose words ask for the same, apart from the verbosity, use
the host alike, write the same, end alike, and show the same once the log records are deleted, in
sessions with any past.  No record is shown without a flag for verbosity, and with more such flags
those are shown that fewer show, and others between them.  All that a command does, and all that it
shows, is the same as if nothing had taken place before. -/
theorem command_differs_in_records (host : Host) (fs : FileSystem) :
    (∀ (past past' : List Act) (words words' : List String) (c c' : Configuration),
      Configuration.ofArguments words = .ok c → Configuration.ofArguments words' = .ok c' →
      c.source = c'.source → c.mode = c'.mode → c.level = c'.level →
      let r := command (Session.initial.afterAll past) host fs words
      let r' := command (Session.initial.afterAll past') host fs words'
      let shown := r.2.shown r.1.verbosity
      let shown' := r'.2.shown r'.1.verbosity
      r.2.calls = r'.2.calls ∧ r.2.written = r'.2.written ∧ r.2.output = r'.2.output ∧
        r.2.result = r'.2.result ∧
        shown.filter (fun e => !e.isRecord) = shown'.filter (fun e => !e.isRecord) ∧
        (c.verbose = 0 → shown.filter Event.isRecord = []) ∧
        (c.verbose ≤ c'.verbose →
          (shown.filter Event.isRecord).Sublist (shown'.filter Event.isRecord))) ∧
    ∀ (past : List Act) (words : List String),
      let r := command (Session.initial.afterAll past) host fs words
      let r' := command .initial host fs words
      r.2 = r'.2 ∧ r.2.shown r.1.verbosity = r'.2.shown r'.1.verbosity ∧
        r.2.messages r.1.verbosity = r'.2.messages r'.1.verbosity := by
  constructor
  · intro past past' words words' c c' h h' hsource hmode hlevel r r' shown shown'
    have htrace : r.2 = r'.2 := trace_of_alike h h' hsource hmode hlevel past past'
    have hv : r.1.verbosity = .ofCount c.verbose := verbosity_of_ok h _
    have hv' : r'.1.verbosity = .ofCount c'.verbose := verbosity_of_ok h' _
    have hshown : shown = r.2.shown (.ofCount c.verbose) := by simp only [shown, hv]
    have hshown' : shown' = r.2.shown (.ofCount c'.verbose) := by
      simp only [shown', hv', htrace]
    refine ⟨by rw [htrace], by rw [htrace], by rw [htrace], by rw [htrace], ?_, ?_, ?_⟩
    · rw [hshown, hshown', Trace.filter_shown, Trace.filter_shown]
    · intro hzero
      rw [hshown, hzero]
      exact r.2.records_warning
    · intro hle
      rw [hshown, hshown']
      exact r.2.records_sublist hle
  · intro past words r r'
    obtain ⟨htrace, hshown⟩ := command_after host fs words past
    refine ⟨htrace, hshown, ?_⟩
    rw [Trace.messages_eq_join, Trace.messages_eq_join, hshown]

/-- Two commands ask for the same in other words, one of them after a definition that is refused and
a command that shows its whole log. -/
theorem command_differs_in_records_eval :
    let host : Host := .compilingTo (.loading [.none])
    let fs : FileSystem := .single "f" [120, 10]
    let past : List Act :=
      [.define ⟨"Again", some (.text "cpython"), some (.type .code), [], none, none⟩,
        .command .idle (.single "g" [40]) ["--file-source=g", "-vvv"]]
    let r := command (Session.initial.afterAll past) host fs
      ["--file-source", "f", "--mode=eval", "-v"]
    let r' := command (Session.initial.afterAll []) host fs
      ["-vv", "--mode", "eval", "--file-source=f"]
    r.2.calls = r'.2.calls ∧ r.2.output = r'.2.output ∧ r.2.result = r'.2.result ∧
      ((r.2.shown r.1.verbosity).filter Event.isRecord).Sublist
        ((r'.2.shown r'.1.verbosity).filter Event.isRecord) := by
  intro host fs past
  have hscan : Token.scan ["--file-source", "f", "--mode=eval", "-v"] =
      [.flag .source false none, .argument "f", .flag .mode false (some "eval"),
        .flag .verbose true none] := by decide +kernel
  have hscan' : Token.scan ["-vv", "--mode", "eval", "--file-source=f"] =
      [.flag .verbose true (some "v"), .flag .mode false none, .argument "eval",
        .flag .source false (some "f")] := by decide +kernel
  have hparse : Configuration.ofArguments ["--file-source", "f", "--mode=eval", "-v"] =
      .ok ⟨.given (.ofText "f"), .eval, .int 0, 1⟩ := by
    unfold Configuration.ofArguments
    rw [hscan]
    rfl
  have hparse' : Configuration.ofArguments ["-vv", "--mode", "eval", "--file-source=f"] =
      .ok ⟨.given (.ofText "f"), .eval, .int 0, 2⟩ := by
    unfold Configuration.ofArguments
    rw [hscan']
    rfl
  clear_value host fs past
  obtain ⟨hcalls, -, houtput, hresult, -, -, hrecords⟩ :=
    (command_differs_in_records host fs).1 past [] _ _ _ _ hparse hparse' rfl rfl rfl
  exact ⟨hcalls, houtput, hresult, hrecords (by decide)⟩

end CodeListing
