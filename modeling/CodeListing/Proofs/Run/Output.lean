import CodeListing.Proofs.Files.Loading
import CodeListing.Proofs.Run.Explanation

/-! # The output of a run

The report of a run is complete before it is written, so the output sees either all of it or nothing
(`run_written`).  Nothing else in a run is written: not while the source is loaded, not by the
backend, and not to explain an error.  The announcement is the only line of its kind, since all
others belong to an explanation and start with a blank. -/

namespace CodeListing

theorem report_of_shown {display : Except Fault String} {shown : String} (h : display = .ok shown)
    (name : String) :
    report display name = ⟨[.write (terminated (reportText shown name)), .flush], .ok ()⟩ := by
  rw [h, report, Trace.bind_of_ok rfl, Trace.bind_of_ok (Trace.emit_result _)]
  rfl

theorem report_of_fault {display : Except Fault String} {f : Fault} (h : display = .error f)
    (name : String) : report display name = ⟨[], .error (.foreign f)⟩ := by
  rw [h, report, Trace.bind_of_error rfl]
  rfl

/-- An explanation leaves the output alone. -/
theorem written_explain (source : String) (e : Failure) : (explain source e).written = [] := by
  refine Trace.written_eq_nil fun x hx => ?_
  obtain ⟨w, s, line, -, rfl⟩ := mem_events_explain hx
  rfl

theorem announcement_not_mem_said_explain (source : String) (e : Failure) :
    announcement ∉ (explain source e).said := by
  intro h
  obtain ⟨x, hx, hline⟩ := List.mem_filterMap.mp h
  obtain ⟨w, s, line, hmem, rfl⟩ := mem_events_explain hx
  obtain rfl := Option.some.inj hline
  have hhead := w.head?_of_mem_render hmem
  revert hhead
  decide

section
variable {host : Host} {fs : FileSystem} {resolver : Resolver} {b : Backend} {c : Configuration}

/-- Before the announcement a run leaves the output alone. -/
theorem written_after_loading (rest : List Event) (r : Except Failure Unit) :
    (Trace.mk (c.opening :: (loadSource fs resolver c.source).events ++ rest) r).written =
      rest.filter Event.isOnOutput := by
  have hload : (loadSource fs resolver c.source).written = [] :=
    Trace.written_eq_nil fun e he => (loadSource_isSilent fs resolver c.source e he).1
  have hopening : ¬ c.opening.isOnOutput = true := Bool.false_ne_true
  rw [Trace.written, List.filter_append, List.filter_cons_of_neg hopening]
  show (loadSource fs resolver c.source).written ++ _ = _
  rw [hload, List.nil_append]

theorem said_after_loading (rest : List Event) (r : Except Failure Unit) :
    (Trace.mk (c.opening :: (loadSource fs resolver c.source).events ++ rest) r).said =
      rest.filterMap Event.line? := by
  have hload : (loadSource fs resolver c.source).said = [] :=
    Trace.said_eq_nil fun e he => (loadSource_isSilent fs resolver c.source e he).2
  rw [Trace.said, List.filterMap_append, List.filterMap_cons_none rfl]
  show (loadSource fs resolver c.source).said ++ _ = _
  rw [hload, List.nil_append]

theorem written_of_unannounced {e : Failure}
    (h : run host fs resolver b c =
      ⟨c.opening :: (loadSource fs resolver c.source).events, .error e⟩) :
    (run host fs resolver b c).written = [] := by
  rw [h, ← List.append_nil (c.opening :: _), written_after_loading]
  rfl

theorem said_of_unannounced {e : Failure}
    (h : run host fs resolver b c =
      ⟨c.opening :: (loadSource fs resolver c.source).events, .error e⟩) :
    (run host fs resolver b c).said = [] := by
  rw [h, ← List.append_nil (c.opening :: _), said_after_loading]
  rfl

section
variable {source : Source} {options : Options}
  (hload : (loadSource fs resolver c.source).result = .ok source)
  (hlevel : Options.make c.level = .ok options)
include hload hlevel

theorem written_of_uncompiled {e : Failure}
    (hcompile : (b.run host (c.request source options)).result = .error e) :
    (run host fs resolver b c).written = [] := by
  have hrun := b.written_run host (c.request source options)
  have hexplain := written_explain source.text e
  rw [run_of_uncompiled hload hlevel hcompile, written_after_loading,
    List.filter_cons_of_neg (by decide), List.filter_append]
  rw [Trace.written] at hrun hexplain
  rw [hrun, hexplain, List.append_nil]

theorem written_of_compiled {a : Artifact}
    (hcompile : (b.run host (c.request source options)).result = .ok a) :
    (run host fs resolver b c).written = (report a.display source.name).written := by
  have hrun := b.written_run host (c.request source options)
  rw [run_of_compiled hload hlevel hcompile, written_after_loading,
    List.filter_cons_of_neg (by decide), List.filter_append, List.filter_cons_of_neg (by decide)]
  rw [Trace.written] at hrun
  rw [hrun, List.nil_append]
  rfl

theorem said_of_uncompiled {e : Failure}
    (hcompile : (b.run host (c.request source options)).result = .error e) :
    (run host fs resolver b c).said = announcement :: (explain source.text e).said := by
  have hrun := b.said_run host (c.request source options)
  have hsaid : (Event.message announcement).line? = some announcement := rfl
  rw [run_of_uncompiled hload hlevel hcompile, said_after_loading, List.filterMap_cons_some hsaid,
    List.filterMap_append]
  rw [Trace.said] at hrun
  rw [hrun, List.nil_append]
  rfl

theorem said_of_compiled {a : Artifact}
    (hcompile : (b.run host (c.request source options)).result = .ok a) :
    (run host fs resolver b c).said = [announcement] := by
  have hrun := b.said_run host (c.request source options)
  have hreport : (report a.display source.name).said = [] := by
    cases hdisplay : a.display with
    | ok shown =>
        rw [report_of_shown rfl]
        rfl
    | error f =>
        rw [report_of_fault rfl]
        rfl
  have hsaid : (Event.message announcement).line? = some announcement := rfl
  rw [run_of_compiled hload hlevel hcompile, said_after_loading, List.filterMap_cons_some hsaid,
    List.filterMap_append, List.filterMap_cons_none rfl]
  rw [Trace.said] at hrun hreport
  rw [hrun, hreport]
  rfl

end

theorem written_of_failed {e : Failure} (h : (run host fs resolver b c).result = .error e) :
    (run host fs resolver b c).written = [] := by
  cases course host fs resolver b c with
  | unloaded e hload => exact written_of_unannounced (run_of_unloaded hload)
  | misconfigured source m hload hlevel =>
      exact written_of_unannounced (run_of_misconfigured hload hlevel)
  | uncompiled source options e hload hlevel hcompile =>
      exact written_of_uncompiled hload hlevel hcompile
  | compiled source options a hload hlevel hcompile =>
      rw [written_of_compiled hload hlevel hcompile]
      cases hdisplay : a.display with
      | ok shown =>
          rw [run_of_compiled hload hlevel hcompile, report_of_shown hdisplay] at h
          cases h
      | error f =>
          rw [report_of_fault rfl]
          rfl

/-- A run that returns has gone through all stages and has written its report. -/
theorem written_of_returned {u : Unit} (h : (run host fs resolver b c).result = .ok u) :
    ∃ source options artifact display,
      (loadSource fs resolver c.source).result = .ok source ∧
      Options.make c.level = .ok options ∧
      (b.run host (c.request source options)).result = .ok artifact ∧
      artifact.display = .ok display ∧
      (run host fs resolver b c).written =
        [.write (terminated (reportText display source.name)), .flush] := by
  cases course host fs resolver b c with
  | unloaded e hload => rw [run_of_unloaded hload] at h; cases h
  | misconfigured source m hload hlevel => rw [run_of_misconfigured hload hlevel] at h; cases h
  | uncompiled source options e hload hlevel hcompile =>
      rw [run_of_uncompiled hload hlevel hcompile] at h
      cases h
  | compiled source options a hload hlevel hcompile =>
      cases hdisplay : a.display with
      | ok shown =>
          refine ⟨source, options, a, shown, hload, hlevel, hcompile, hdisplay, ?_⟩
          rw [written_of_compiled hload hlevel hcompile, report_of_shown hdisplay]
          rfl
      | error f =>
          rw [run_of_compiled hload hlevel hcompile, report_of_fault hdisplay] at h
          cases h

/-- What is compiled is announced once, and what is not compiled is not announced. -/
theorem count_announcement :
    (run host fs resolver b c).said.count announcement =
      if (loadSource fs resolver c.source).result.isOk ∧ (Options.make c.level).isOk then 1
      else 0 := by
  cases course host fs resolver b c with
  | unloaded e hload =>
      rw [said_of_unannounced (run_of_unloaded hload), hload]
      rfl
  | misconfigured source m hload hlevel =>
      rw [said_of_unannounced (run_of_misconfigured hload hlevel), hload, hlevel]
      rfl
  | uncompiled source options e hload hlevel hcompile =>
      have hexplain := List.count_eq_zero.mpr (announcement_not_mem_said_explain source.text e)
      rw [said_of_uncompiled hload hlevel hcompile, hload, hlevel, List.count_cons_self, hexplain]
      rfl
  | compiled source options a hload hlevel hcompile =>
      rw [said_of_compiled hload hlevel hcompile, hload, hlevel, List.count_cons_self]
      rfl

end

section
variable {host : Host} {fs : FileSystem} {resolver : Resolver} {c : Configuration} {source : Source}
  {options : Options} {u : CodeUnit}
  (hload : (loadSource fs resolver c.source).result = .ok source)
  (hlevel : Options.make c.level = .ok options)
  (hanswer : Native.answer host (c.request source options) = .ok u)
include hload hlevel hanswer

theorem run_of_shown {shown : String} (h : u.render = .ok shown) :
    (run host fs resolver Native.backend c).result = .ok () ∧
      (run host fs resolver Native.backend c).written =
        [.write (terminated (reportText shown source.name)), .flush] := by
  have hrun := Native.run_of_answered hanswer
  have hdisplay : (Artifact.ofCode u).display = .ok shown := h
  constructor
  · rw [run_of_compiled hload hlevel hrun, report_of_shown hdisplay]
  · rw [written_of_compiled hload hlevel hrun, report_of_shown hdisplay]
    rfl

theorem run_of_unshown {f : Fault} (h : u.render = .error f) :
    (run host fs resolver Native.backend c).result = .error (.foreign f) ∧
      (run host fs resolver Native.backend c).written = [] := by
  have hrun := Native.run_of_answered hanswer
  have hdisplay : (Artifact.ofCode u).display = .error f := h
  have hresult : (run host fs resolver Native.backend c).result = .error (.foreign f) := by
    rw [run_of_compiled hload hlevel hrun, report_of_fault hdisplay]
  exact ⟨hresult, written_of_failed hresult⟩

end

/-- **The output sees all or nothing.**  A run that returns has written its report at once, with a
line feed at its end, and flushed the output.  A run that fails has left the output alone.  What is
compiled is announced once when the source is loaded and the level can be asked for, and otherwise
not. -/
theorem run_written (host : Host) (fs : FileSystem) (resolver : Resolver) (b : Backend)
    (c : Configuration) :
    (match (run host fs resolver b c).result with
      | .ok () => ∃ source options artifact display text,
          (loadSource fs resolver c.source).result = .ok source ∧
          Options.make c.level = .ok options ∧
          (b.run host (c.request source options)).result = .ok artifact ∧
          artifact.display = .ok display ∧
          text = "dis(\"" ++ escape source.name ++ "\"):" ++ "\n" ++ display ∧
          (run host fs resolver b c).written =
            [.write (if text.toList.getLast? = some '\n' then text else text ++ "\n"), .flush]
      | .error _ => (run host fs resolver b c).written = []) ∧
    (run host fs resolver b c).said.count "Compiling..." =
      if (loadSource fs resolver c.source).result.isOk ∧ (Options.make c.level).isOk then 1
      else 0 := by
  refine ⟨?_, count_announcement⟩
  cases h : (run host fs resolver b c).result with
  | ok u =>
      obtain ⟨source, options, artifact, display, hload, hlevel, hcompile, hdisplay, hwritten⟩ :=
        written_of_returned h
      exact
        ⟨source, options, artifact, display, _, hload, hlevel, hcompile, hdisplay, rfl, hwritten⟩
  | error e => exact written_of_failed h

end CodeListing
