import CodeListing.Command.Run
import CodeListing.Proofs.Trace

/-! # The stages of a run

A run loads its source, checks its level, compiles and reports, and it ends at the first of these
stages that fails.  `Course` lists the ways it can go, `course` says that one of them is taken, and
for each there is an equation that gives the whole trace (`run_of_unloaded`, `run_of_misconfigured`,
`run_of_uncompiled`, `run_of_compiled`).  Whatever is shown of a run is shown by these equations. -/

namespace CodeListing

/-- What a backend is asked to compile for a configuration. -/
def Configuration.request (c : Configuration) (source : Source) (options : Options) : Request :=
  ⟨source.text, c.mode, source.name, options⟩

/-- What is to be done with a file, if nothing else is asked for. -/
def Configuration.plain (name : String) : Configuration := ⟨.given (.ofText name), .exec, .int 0, 0⟩

/-- The log record with which a run begins. -/
def Configuration.opening (c : Configuration) : Event :=
  .record .info ("Reading " ++ c.source.shown ++ "...")

/-- The log record before a report. -/
def closing : Event := .record .info "Writing disassembly..."

/-- The line said before a source is compiled. -/
def announcement : String := "Compiling..."

section
variable (host : Host) (fs : FileSystem) (resolver : Resolver) (b : Backend) (c : Configuration)

/-- The ways in which a run can go. -/
inductive Course : Prop where
  | unloaded (e : Failure) (hload : (loadSource fs resolver c.source).result = .error e)
  | misconfigured (source : Source) (m : Misuse)
      (hload : (loadSource fs resolver c.source).result = .ok source)
      (hlevel : Options.make c.level = .error m)
  | uncompiled (source : Source) (options : Options) (e : Failure)
      (hload : (loadSource fs resolver c.source).result = .ok source)
      (hlevel : Options.make c.level = .ok options)
      (hcompile : (b.run host (c.request source options)).result = .error e)
  | compiled (source : Source) (options : Options) (a : Artifact)
      (hload : (loadSource fs resolver c.source).result = .ok source)
      (hlevel : Options.make c.level = .ok options)
      (hcompile : (b.run host (c.request source options)).result = .ok a)

/-- Every run goes in one of the ways. -/
theorem course : Course host fs resolver b c := by
  cases hload : (loadSource fs resolver c.source).result with
  | error e => exact .unloaded e hload
  | ok source =>
      cases hlevel : Options.make c.level with
      | error m => exact .misconfigured source m hload hlevel
      | ok options =>
          cases hcompile : (b.run host (c.request source options)).result with
          | error e => exact .uncompiled source options e hload hlevel hcompile
          | ok a => exact .compiled source options a hload hlevel hcompile

end

section
variable {host : Host} {fs : FileSystem} {resolver : Resolver} {b : Backend} {c : Configuration}
  {source : Source} {options : Options}

theorem run_of_unloaded {e : Failure}
    (hload : (loadSource fs resolver c.source).result = .error e) :
    run host fs resolver b c =
      ⟨c.opening :: (loadSource fs resolver c.source).events, .error e⟩ := by
  unfold run
  rw [Trace.bind_of_error hload, Trace.bind_of_ok (Trace.log_result ..)]
  rfl

theorem run_of_misconfigured {m : Misuse}
    (hload : (loadSource fs resolver c.source).result = .ok source)
    (hlevel : Options.make c.level = .error m) :
    run host fs resolver b c =
      ⟨c.opening :: (loadSource fs resolver c.source).events, .error (.misuse m)⟩ := by
  have hoptions : (Trace.ofExcept ((Options.make c.level).mapError .misuse)).result =
      .error (.misuse m) := by rw [hlevel]; rfl
  unfold run
  rw [Trace.bind_of_ok hload, Trace.bind_of_error hoptions, Trace.bind_of_ok (Trace.log_result ..)]
  simp [Configuration.opening]

/-- The trace of a run from the announcement on. -/
theorem run_of_loaded (hload : (loadSource fs resolver c.source).result = .ok source)
    (hlevel : Options.make c.level = .ok options) :
    let rest := (b.run host (c.request source options)).onFailure (explain source.text) >>= fun a =>
      Trace.log .info "Writing disassembly..." >>= fun _ => report a.display source.name
    run host fs resolver b c =
      ⟨c.opening :: (loadSource fs resolver c.source).events ++
          .message announcement :: rest.events,
        rest.result⟩ := by
  have hoptions : (Trace.ofExcept ((Options.make c.level).mapError .misuse)).result =
      .ok options := by rw [hlevel]; rfl
  unfold run
  rw [Trace.bind_of_ok hload, Trace.bind_of_ok hoptions, Trace.bind_of_ok (Trace.say_result _),
    Trace.bind_of_ok (Trace.log_result ..)]
  simp [Configuration.opening, Configuration.request, announcement]

theorem run_of_uncompiled {e : Failure}
    (hload : (loadSource fs resolver c.source).result = .ok source)
    (hlevel : Options.make c.level = .ok options)
    (hcompile : (b.run host (c.request source options)).result = .error e) :
    run host fs resolver b c =
      ⟨c.opening :: (loadSource fs resolver c.source).events ++ .message announcement ::
          ((b.run host (c.request source options)).events ++ (explain source.text e).events),
        .error (match (explain source.text e).result with
          | .ok () => e
          | .error e' => e')⟩ := by
  have hexplain : (b.run host (c.request source options)).onFailure (explain source.text) =
      ⟨(b.run host (c.request source options)).events ++ (explain source.text e).events,
        .error (match (explain source.text e).result with
          | .ok () => e
          | .error e' => e')⟩ := by
    simp only [Trace.onFailure, hcompile]
    cases (explain source.text e).result <;> rfl
  rw [run_of_loaded hload hlevel, hexplain, Trace.bind_of_error rfl]

theorem run_of_compiled {a : Artifact}
    (hload : (loadSource fs resolver c.source).result = .ok source)
    (hlevel : Options.make c.level = .ok options)
    (hcompile : (b.run host (c.request source options)).result = .ok a) :
    run host fs resolver b c =
      ⟨c.opening :: (loadSource fs resolver c.source).events ++ .message announcement ::
          ((b.run host (c.request source options)).events ++
            closing :: (report a.display source.name).events),
        (report a.display source.name).result⟩ := by
  have hkeep : ((b.run host (c.request source options)).onFailure (explain source.text)) =
      b.run host (c.request source options) := by
    simp [Trace.onFailure, hcompile]
  rw [run_of_loaded hload hlevel, hkeep]
  rw [Trace.bind_of_ok hcompile, Trace.bind_of_ok (Trace.log_result ..)]
  simp [closing]

end
end CodeListing
