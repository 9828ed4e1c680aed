import CodeListing.Proofs.Backend.Registration
import CodeListing.Proofs.Code.Rendering
import CodeListing.Proofs.Run.Ending

/-! # How the command ends

The command returns with a report, exits for help, because of the usage or with a problem of the
user's, or lets a fault pass; `ExitContract` says when it does which, and what it leaves where.  The
trace of the command follows from how reading its words ends (`command_of_stop`) and, if it goes on
to the end, from how its run ends (`command_of_ok`).  The contract is kept unless a value was
dropped that the run needs (`exitContract_iff`). -/

namespace CodeListing

/-! ### From the run to the command -/

namespace Stop

/-- The status with which the command exits when its words are not read to the end. -/
def status : Stop → Nat
  | help => 0
  | error e => e.problem.status

/-- What the command leaves then. -/
def events : Stop → List Event
  | help => [.write helpText]
  | error e =>
    (if e.problem.kind = .usage then [.message usageText] else []) ++ [.message e.message]

theorem events_of_usage {e : UserError} (h : e.problem.kind = .usage) :
    (error e).events = [.message usageText, .message e.message] := by
  rw [events, if_pos h]
  rfl

theorem events_of_ne_usage {e : UserError} (h : e.problem.kind ≠ .usage) :
    (error e).events = [.message e.message] := by
  rw [events, if_neg h]
  rfl

/-- An error that ends the command is said, and nothing else is done. -/
theorem said_of_mem_events {e : UserError} {x : Event} (h : x ∈ (error e).events) :
    ∃ line, x = .message line := by
  by_cases hkind : e.problem.kind = .usage
  · rw [events_of_usage hkind] at h
    rcases List.mem_cons.mp h with rfl | h
    · exact ⟨_, rfl⟩
    · exact ⟨_, List.mem_singleton.mp h⟩
  · rw [events_of_ne_usage hkind] at h
    exact ⟨_, List.mem_singleton.mp h⟩

theorem status_error (e : UserError) :
    (error e).status = if e.problem.kind = .usage then 2 else 1 := by
  obtain ⟨problem, message⟩ := e
  cases problem <;> rfl

theorem status_eq_zero_iff (stop : Stop) : stop.status = 0 ↔ stop = help := by
  cases stop with
  | help => simp [status]
  | error e =>
      rw [status_error]
      split <;> simp

theorem status_eq_one_iff (stop : Stop) :
    stop.status = 1 ↔ ∃ e, stop = error e ∧ e.problem.kind ≠ .usage := by
  cases stop with
  | help => simp [status]
  | error e =>
      rw [status_error]
      split <;> simp [*]

theorem status_eq_two_iff (stop : Stop) :
    stop.status = 2 ↔ ∃ e, stop = error e ∧ e.problem.kind = .usage := by
  cases stop with
  | help => simp [status]
  | error e =>
      rw [status_error]
      split <;> simp [*]

theorem status_le (stop : Stop) : stop.status ≤ 2 := by
  cases stop with
  | help => exact Nat.zero_le 2
  | error e =>
      rw [status_error]
      split <;> omega

end Stop

theorem reportError_eq (e : UserError) :
    reportError e = ⟨(Stop.error e).events, .ok (.exit (Stop.error e).status)⟩ := by
  obtain ⟨problem, message⟩ := e
  cases problem <;> rfl

section
variable {t : Trace Unit}

theorem conclude_of_ok (h : t.result = .ok ()) : conclude t = ⟨t.events, .ok .returned⟩ := by
  unfold conclude
  rw [h]

theorem conclude_of_user {e : UserError} (h : t.result = .error (.user e))
    (hkind : e.problem.kind ≠ .usage) :
    conclude t = ⟨t.events ++ [.message e.message], .ok (.exit 1)⟩ := by
  have hreport : reportError e = ⟨[.message e.message], .ok (.exit 1)⟩ := by
    rw [reportError_eq, Stop.events_of_ne_usage hkind, Stop.status_error, if_neg hkind]
  unfold conclude
  rw [h]
  dsimp only
  rw [hreport]

theorem conclude_of_foreign {f : Fault} (h : t.result = .error (.foreign f)) :
    conclude t = ⟨t.events, .error (.foreign f)⟩ := by
  unfold conclude
  rw [h]

theorem conclude_of_misuse {m : Misuse} (h : t.result = .error (.misuse m)) :
    conclude t = ⟨t.events, .error (.misuse m)⟩ := by
  unfold conclude
  rw [h]

end

section
variable {s : Session} {words : List String} (host : Host) (fs : FileSystem)

/-- What ends the command while it reads its words does so in every file system and with every
host. -/
theorem command_of_stop {stop : Stop} (h : Configuration.ofArguments words = .error stop) :
    command s host fs words = (s, ⟨stop.events, .ok (.exit stop.status)⟩) := by
  unfold command
  rw [h]
  cases stop with
  | help => rfl
  | error e =>
      dsimp only
      rw [reportError_eq]

theorem runDefault_of_reachable (hregistry : s.registry.Reachable) (c : Configuration) :
    runDefault s.registry host fs c = run host fs fs.canonicalize Native.backend c := by
  have hbackend : (Trace.ofExcept ((s.registry.get defaultBackend).mapError .misuse)).result =
      .ok Native.backend := by
    rw [Registry.get_defaultBackend hregistry]
    rfl
  unfold runDefault
  rw [Trace.bind_of_ok hbackend]
  rfl

theorem command_of_ok (hregistry : s.registry.Reachable) {c : Configuration}
    (h : Configuration.ofArguments words = .ok c) :
    (command s host fs words).2 = conclude (run host fs fs.canonicalize Native.backend c) := by
  rw [← runDefault_of_reachable host fs hregistry]
  unfold command
  rw [h]

end

/-! ### The contract -/

section
variable (s : Session) (host : Host) (fs : FileSystem) (words : List String)

/-- A problem of the user's, other than the usage, that reading the words or the run ends with. -/
def IsReported (e : UserError) : Prop :=
  e.problem.kind ≠ .usage ∧ (Configuration.ofArguments words = .error (.error e) ∨
    ∃ c, Configuration.ofArguments words = .ok c ∧
      (runDefault s.registry host fs c).result = .error (.user e))

/-- When the command ends in which way, and what it leaves where. -/
structure ExitContract : Prop where
  /-- It returns with the report as all of the output. -/
  returned : (command s host fs words).2.result = .ok .returned → ∃ c source u display,
    Configuration.ofArguments words = .ok c ∧ Answers host fs c source (.ok u) ∧
      u.render = .ok display ∧
      (command s host fs words).2.output = terminated (reportText display source.name)
  /-- It exits with the status 0 for help, which is all of the output. -/
  helped : (command s host fs words).2.result = .ok (.exit 0) ↔
    Configuration.ofArguments words = .error .help
  help_output : Configuration.ofArguments words = .error .help →
    (command s host fs words).2.output = helpText ∧ (command s host fs words).2.said = []
  /-- It exits with the status 2 because of the usage, which it says before the error. -/
  misused : (command s host fs words).2.result = .ok (.exit 2) ↔
    ∃ e, Configuration.ofArguments words = .error (.error e) ∧ e.problem.kind = .usage
  misuse_said : ∀ e, Configuration.ofArguments words = .error (.error e) → e.problem.kind = .usage →
    (command s host fs words).2.events = [.message usageText, .message e.message]
  /-- It exits with the status 1 for any other problem of the user's, which it says last. -/
  failed : (command s host fs words).2.result = .ok (.exit 1) ↔ ∃ e, IsReported s host fs words e
  failure_said : ∀ e, IsReported s host fs words e →
    (command s host fs words).2.events.getLast? = some (.message e.message)
  statuses : ∀ n, (command s host fs words).2.result = .ok (.exit n) → n ≤ 2
  /-- It lets no other failure pass than a fault that escapes the run. -/
  passed : ∀ e, (command s host fs words).2.result = .error e → ∃ c f,
    Configuration.ofArguments words = .ok c ∧ e = .foreign f ∧ Escapes host fs c f
  silent : (command s host fs words).2.result = .ok .returned ∨
    (command s host fs words).2.result = .ok (.exit 0) ∨ (command s host fs words).2.output = ""
  /-- What ends it while it reads its words does so in every file system and without the host. -/
  detached : ∀ stop, Configuration.ofArguments words = .error stop →
    (command s host fs words).2.calls = [] ∧
      ∀ host' fs', command s host' fs' words = command s host fs words
  /-- An invalid mode is reported only if nothing is wrong with the usage. -/
  precedence : ∀ e, Configuration.ofArguments words = .error (.error e) → e.problem.kind ≠ .usage →
    e.problem.kind = .invalidMode ∧
      ∃ d, readTokens .initial (Token.scan words) = .ok d ∧ d.IsComplete

end

section
variable {s : Session} {host : Host} {fs : FileSystem} {words : List String}

/-- What ends the command while it reads its words keeps the contract. -/
theorem exitContract_of_stop {stop : Stop} (h : Configuration.ofArguments words = .error stop)
    (hmode : ∀ e, stop = .error e → e.problem.kind ≠ .usage → e.problem.kind = .invalidMode ∧
      ∃ d, readTokens .initial (Token.scan words) = .ok d ∧ d.IsComplete) :
    ExitContract s host fs words := by
  have ht : ∀ host fs, command s host fs words = (s, ⟨stop.events, .ok (.exit stop.status)⟩) :=
    fun host fs => command_of_stop host fs h
  have hstop : ∀ {stop'}, Configuration.ofArguments words = .error stop' → stop = stop' :=
    fun h' => Except.error.inj (h.symm.trans h')
  constructor
  case returned => simp [ht]
  case helped => simp [ht, h, Stop.status_eq_zero_iff]
  case help_output =>
    intro hhelp
    obtain rfl := hstop hhelp
    rw [ht, Trace.output_eq_join]
    exact ⟨rfl, rfl⟩
  case misused => simp [ht, h, Stop.status_eq_two_iff]
  case misuse_said =>
    intro e he hkind
    obtain rfl := hstop he
    rw [ht, Stop.events_of_usage hkind]
  case failed => simp [ht, h, Stop.status_eq_one_iff, IsReported, and_comm]
  case failure_said =>
    rintro e ⟨hkind, he | ⟨c, hc, -⟩⟩
    · obtain rfl := hstop he
      rw [ht, Stop.events_of_ne_usage hkind]
      rfl
    · rw [h] at hc
      cases hc
  case statuses =>
    intro n hn
    rw [ht] at hn
    obtain rfl : stop.status = n := Ending.exit.inj (Except.ok.inj hn)
    exact stop.status_le
  case passed => simp [ht]
  case silent =>
    rw [ht]
    cases stop with
    | help => exact .inr (.inl rfl)
    | error e =>
        refine .inr (.inr (Trace.output_eq_empty (Trace.written_eq_nil ?_)))
        intro x hx
        obtain ⟨line, rfl⟩ := Stop.said_of_mem_events hx
        rfl
  case detached =>
    intro stop' _
    refine ⟨?_, fun host' fs' => by rw [ht, ht]⟩
    rw [ht]
    cases stop with
    | help => rfl
    | error e =>
        refine List.filterMap_eq_nil_iff.mpr ?_
        intro x hx
        obtain ⟨line, rfl⟩ := Stop.said_of_mem_events hx
        rfl
  case precedence =>
    intro e he
    exact hmode e (hstop he)

section
variable {c : Configuration} (hregistry : s.registry.Reachable)
  (h : Configuration.ofArguments words = .ok c)
include hregistry h

theorem isReported_iff {e : UserError} : IsReported s host fs words e ↔ e.problem.kind ≠ .usage ∧
    (run host fs fs.canonicalize Native.backend c).result = .error (.user e) := by
  unfold IsReported
  rw [h]
  constructor
  · rintro ⟨hkind, hstop | ⟨c', hc, hr⟩⟩
    · cases hstop
    · obtain rfl := Except.ok.inj hc
      rw [runDefault_of_reachable host fs hregistry] at hr
      exact ⟨hkind, hr⟩
  · rintro ⟨hkind, hr⟩
    refine ⟨hkind, .inr ⟨c, rfl, ?_⟩⟩
    rw [runDefault_of_reachable host fs hregistry]
    exact hr

theorem not_isReported
    (hr : ∀ e, (run host fs fs.canonicalize Native.backend c).result ≠ .error (.user e))
    (e : UserError) : ¬ IsReported s host fs words e := by
  intro he
  exact hr e ((isReported_iff hregistry h).mp he).2

theorem exitContract_of_reported {source : Source} {u : CodeUnit} {display : String}
    (hanswer : Answers host fs c source (.ok u)) (hrender : u.render = .ok display)
    (hr : (run host fs fs.canonicalize Native.backend c).result = .ok ()) :
    ExitContract s host fs words := by
  have ht := command_of_ok host fs hregistry h
  rw [conclude_of_ok hr] at ht
  have hreported : ∀ e, ¬ IsReported s host fs words e := not_isReported hregistry h (by simp [hr])
  constructor
  case returned =>
    intro _
    refine ⟨c, source, u, display, h, hanswer, hrender, ?_⟩
    obtain ⟨hload, options, hlevel, hanswer⟩ := hanswer
    have hwritten := (run_of_shown hload hlevel hanswer hrender).2
    rw [ht, Trace.output_eq_join]
    show String.join ((run host fs fs.canonicalize Native.backend c).written.map Event.output) = _
    rw [hwritten]
    simp [Event.output]
  case failed => simp [ht, hreported]
  case failure_said => simp [hreported]
  case helped | misused | statuses | passed | silent => simp [ht, h]
  case help_output | misuse_said | detached | precedence => simp [h]

theorem exitContract_of_failed {e : UserError} (hkind : e.problem.kind ≠ .usage)
    (hr : (run host fs fs.canonicalize Native.backend c).result = .error (.user e)) :
    ExitContract s host fs words := by
  have ht := command_of_ok host fs hregistry h
  rw [conclude_of_user hr hkind] at ht
  have hreported : IsReported s host fs words e := (isReported_iff hregistry h).mpr ⟨hkind, hr⟩
  constructor
  case failed =>
    simp only [ht, true_iff]
    exact ⟨e, hreported⟩
  case failure_said =>
    intro e' he
    have hr' := ((isReported_iff hregistry h).mp he).2
    rw [hr] at hr'
    obtain rfl : e = e' := Failure.user.inj (Except.error.inj hr')
    rw [ht]
    exact List.getLast?_concat
  case silent =>
    right; right
    rw [ht]
    refine Trace.output_eq_empty ?_
    show List.filter Event.isOnOutput (_ ++ _) = _
    rw [List.filter_append]
    exact List.append_eq_nil_iff.mpr ⟨written_of_failed hr, rfl⟩
  case returned | helped | misused | statuses | passed => simp [ht, h]
  case help_output | misuse_said | detached | precedence => simp [h]

theorem exitContract_of_escaped {f : Fault} (hf : Escapes host fs c f)
    (hr : (run host fs fs.canonicalize Native.backend c).result = .error (.foreign f)) :
    ExitContract s host fs words := by
  have ht := command_of_ok host fs hregistry h
  rw [conclude_of_foreign hr] at ht
  have hreported : ∀ e, ¬ IsReported s host fs words e := not_isReported hregistry h (by simp [hr])
  constructor
  case passed =>
    intro e he
    rw [ht] at he
    exact ⟨c, f, h, (Except.error.inj he).symm, hf⟩
  case silent =>
    right; right
    rw [ht]
    exact Trace.output_eq_empty (written_of_failed hr)
  case failed => simp [ht, hreported]
  case failure_said => simp [hreported]
  case returned | helped | misused | statuses => simp [ht, h]
  case help_output | misuse_said | detached | precedence => simp [h]

theorem command_of_levelless (hlevel : c.level = .list []) {source : Source}
    (hload : (loadSource fs fs.canonicalize c.source).result = .ok source) :
    (command s host fs words).2.result = .error (.misuse (.invalidLevel (.list []))) := by
  have hmake : Options.make c.level = .error (.invalidLevel (.list [])) := by
    rw [hlevel]
    rfl
  have hr : (run host fs fs.canonicalize Native.backend c).result =
      .error (.misuse (.invalidLevel (.list []))) := by
    rw [run_of_misconfigured hload hmake]
  rw [command_of_ok host fs hregistry h, conclude_of_misuse hr]

/-- A run that lacks a value that was dropped breaks the contract. -/
theorem not_exitContract_of_dropped (hdropped : c.source = .dropped ∨
      c.level = .list [] ∧ (loadSource fs fs.canonicalize c.source).result.isOk = true) :
    ¬ ExitContract s host fs words := by
  intro hcontract
  rcases hdropped with hsource | ⟨hlevel, hload⟩
  · have ht := command_of_ok host fs hregistry h
    obtain ⟨f, hr⟩ := run_of_sourceless hsource
    rw [conclude_of_foreign hr] at ht
    obtain ⟨c', f', hc', -, hf'⟩ := hcontract.passed (.foreign f) (by rw [ht])
    obtain rfl : c = c' := Except.ok.inj (h.symm.trans hc')
    exact source_of_escapes hf' hsource
  · cases hsource : (loadSource fs fs.canonicalize c.source).result with
    | error e =>
        rw [hsource] at hload
        cases hload
    | ok source =>
        have hresult : (command s host fs words).2.result =
            .error (.misuse (.invalidLevel (.list []))) :=
          command_of_levelless hregistry h hlevel hsource
        obtain ⟨c', f', -, hf', -⟩ := hcontract.passed _ hresult
        cases hf'

end

/-- **How the command ends.**  In a session whose backends were registered by definitions, with a
host that counts lines and columns and a file system without the null character, the command keeps
the contract of its exits, unless the value of the source was dropped, or that of the level was and
the source can be loaded. -/
theorem exitContract_iff (hregistry : s.registry.Reachable) (hhost : host.Conforms)
    (hfs : fs.IsPlain) :
    ExitContract s host fs words ↔ ¬ ∃ c, Configuration.ofArguments words = .ok c ∧
      (c.source = .dropped ∨
        c.level = .list [] ∧ (loadSource fs fs.canonicalize c.source).result.isOk = true) := by
  constructor
  · rintro hcontract ⟨c, h, hdropped⟩
    exact not_exitContract_of_dropped hregistry h hdropped hcontract
  · intro hkept
    rcases ofArguments_cases words with
      ⟨c, h, hread⟩ | hhelp | ⟨m, hm⟩ | ⟨d, e, hd, hcomplete, hmode, he⟩
    · cases run_ends hhost hfs hread with
      | reported source u display hanswer hrender hr =>
          exact exitContract_of_reported hregistry h hanswer hrender hr
      | failed e hkind hr => exact exitContract_of_failed hregistry h hkind hr
      | escaped f hf hr => exact exitContract_of_escaped hregistry h hf hr
      | sourceless f hsource hr => exact absurd ⟨c, h, .inl hsource⟩ hkept
      | levelless source hload hlevel hr =>
          refine absurd ⟨c, h, .inr ⟨hlevel, ?_⟩⟩ hkept
          rw [hload]
          rfl
    · refine exitContract_of_stop hhelp ?_
      intro e he
      cases he
    · refine exitContract_of_stop hm ?_
      intro e he hkind
      obtain rfl := Stop.error.inj he
      exact absurd rfl hkind
    · refine exitContract_of_stop he ?_
      intro e' he' hkind
      obtain rfl := Stop.error.inj he'
      exact ⟨kind_of_resolveMode hmode, d, hd, hcomplete⟩

end

/-- A verbose command evaluates the file of a session and returns. -/
theorem exitContract_of_verbose_eval :
    ExitContract .initial (.compilingTo (.loading [.none])) (.single "f" [120, 10])
      ["--file-source", "f", "--mode=eval", "-vv"] := by
  have hscan : Token.scan ["--file-source", "f", "--mode=eval", "-vv"] =
      [.flag .source false none, .argument "f", .flag .mode false (some "eval"),
        .flag .verbose true (some "v")] := by decide +kernel
  have hparse : Configuration.ofArguments ["--file-source", "f", "--mode=eval", "-vv"] =
      .ok ⟨.given (.ofText "f"), .eval, .int 0, 2⟩ := by
    unfold Configuration.ofArguments
    rw [hscan]
    rfl
  refine (exitContract_iff .initial (Host.compilingTo_conforms _)
    (FileSystem.single_isPlain "f" [120, 10])).mpr ?_
  rintro ⟨c, hc, hdropped⟩
  obtain rfl := Except.ok.inj (hparse.symm.trans hc)
  rcases hdropped with hsource | ⟨hlevel, -⟩
  · cases hsource
  · cases hlevel

/-- The terminator attached to the flag of the level leaves a level that cannot be asked for, which
is noticed when the source is loaded and passes as a misuse. -/
theorem not_exitContract_of_dropped_level :
    (command .initial .idle (.single "f" [120, 10])
      ["--file-source", "f", "--optimize=--"]).2.result =
        .error (.misuse (.invalidLevel (.list []))) ∧
      ¬ ExitContract .initial .idle (.single "f" [120, 10])
        ["--file-source", "f", "--optimize=--"] := by
  have hscan : Token.scan ["--file-source", "f", "--optimize=--"] =
      [.flag .source false none, .argument "f", .flag .level false (some "--")] := by
    decide +kernel
  have hparse : Configuration.ofArguments ["--file-source", "f", "--optimize=--"] =
      .ok ⟨.given (.ofText "f"), .exec, .list [], 0⟩ := by
    unfold Configuration.ofArguments
    rw [hscan]
    rfl
  refine ⟨command_of_levelless .initial hparse rfl load_single, ?_⟩
  refine not_exitContract_of_dropped .initial hparse (.inr ⟨rfl, ?_⟩)
  rw [load_single]
  rfl

end CodeListing
