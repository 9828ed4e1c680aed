import CodeListing.Proofs.Command.Arguments
import CodeListing.Proofs.Files.Resolution
import CodeListing.Proofs.Run.Output

/-! # How a run with the default backend ends

With the backend of the host compiler and canonical paths a run ends in one of five ways (`RunEnds`,
`run_ends`).  It returns with a report, it fails with a problem of the user's, or it lets one of few
faults pass (`Escapes`): a path with the null character, a fault of the host of which no diagnostic
is made, or a unit that cannot be shown.  The last two ways are left to configurations in which a
value was dropped: without a source nothing can be opened, and the empty list cannot be asked for as
a level. -/

namespace CodeListing

section
variable (host : Host) (fs : FileSystem) (c : Configuration)

/-- The host answers the request of a configuration whose source is loaded and whose level can be
asked for. -/
def Answers (source : Source) (r : Except Fault CodeUnit) : Prop :=
  (loadSource fs fs.canonicalize c.source).result = .ok source ∧
    ∃ options, Options.make c.level = .ok options ∧
      Native.answer host (c.request source options) = r

/-- The faults that pass through a run. -/
inductive Escapes : Fault → Prop where
  | null (path : Path) (hsource : c.source = .given path) (hnull : hasNull path.text = true) :
      Escapes .nullInPath
  | host (source : Source) (f : Fault) (hanswer : Answers host fs c source (.error f))
      (hf : Native.isDiagnosed f = false) : Escapes f
  | display (source : Source) (u : CodeUnit) (f : Fault)
      (hanswer : Answers host fs c source (.ok u))
      (hrender : u.render = .error f) : Escapes f

/-- The ways in which a run with the default backend ends. -/
inductive RunEnds (r : Except Failure Unit) : Prop where
  | reported (source : Source) (u : CodeUnit) (display : String)
      (hanswer : Answers host fs c source (.ok u)) (hrender : u.render = .ok display)
      (hr : r = .ok ())
  | failed (e : UserError) (hkind : e.problem.kind ≠ .usage) (hr : r = .error (.user e))
  | escaped (f : Fault) (hf : Escapes host fs c f) (hr : r = .error (.foreign f))
  | sourceless (f : Fault) (hsource : c.source = .dropped) (hr : r = .error (.foreign f))
  | levelless (source : Source)
      (hload : (loadSource fs fs.canonicalize c.source).result = .ok source)
      (hlevel : c.level = .list []) (hr : r = .error (.misuse (.invalidLevel (.list []))))

end

section
variable {host : Host} {fs : FileSystem} {c : Configuration}

theorem run_of_sourceless {b : Backend} {resolver : Resolver} (h : c.source = .dropped) :
    ∃ f, (run host fs resolver b c).result = .error (.foreign f) := by
  have hload : ∃ f, (loadSource fs resolver c.source).result = .error (.foreign f) := by
    rw [h]
    exact ⟨_, rfl⟩
  obtain ⟨f, hload⟩ := hload
  refine ⟨f, ?_⟩
  rw [run_of_unloaded hload]

theorem source_of_escapes {f : Fault} (h : Escapes host fs c f) : c.source ≠ .dropped := by
  intro hsource
  cases h with
  | null path hpath hnull =>
      rw [hsource] at hpath
      cases hpath
  | host source f hanswer hf =>
      have hload := hanswer.1
      rw [hsource] at hload
      cases hload
  | display source u f hanswer hrender =>
      have hload := hanswer.1
      rw [hsource] at hload
      cases hload

theorem make_of_le {n : Nat} (h : n ≤ maxLevel) : ∃ options, Options.make (.int n) = .ok options :=
  ⟨⟨.number n, h⟩, dif_pos h⟩

/-- A source that does not compile is a problem of the user's or a fault of the host. -/
theorem runEnds_of_uncompiled (hhost : host.Conforms) {source : Source} {options : Options}
    {e : Failure}
    (hload : (loadSource fs fs.canonicalize c.source).result = .ok source)
    (hlevel : Options.make c.level = .ok options)
    (hcompile : (Native.backend.run host (c.request source options)).result = .error e) :
    RunEnds host fs c (run host fs fs.canonicalize Native.backend c).result := by
  rw [run_of_uncompiled hload hlevel hcompile]
  cases hanswer : Native.answer host (c.request source options) with
  | ok u =>
      rw [Native.run_of_answered hanswer] at hcompile
      cases hcompile
  | error f =>
      rw [Native.run_of_unanswered hanswer] at hcompile
      obtain rfl := Except.error.inj hcompile
      cases hf : Native.isDiagnosed f with
      | true =>
          obtain ⟨d, message, hd, hmessage, hline, hcolumn⟩ :=
            Native.diagnose_of_isDiagnosed (Native.isPlaced_of_answer hhost hanswer) hf
          have hexplain := explain_result_of_isCount hmessage hline hcolumn source.text
          rw [hd, surfaced, hexplain]
          exact .failed (.compilation d) (show ProblemKind.compilation ≠ .usage by decide) rfl
      | false =>
          rw [Native.diagnose_of_not_isDiagnosed hf]
          exact .escaped f (.host source f ⟨hload, options, hlevel, hanswer⟩ hf) rfl

theorem runEnds_of_compiled {source : Source} {options : Options} {a : Artifact}
    (hload : (loadSource fs fs.canonicalize c.source).result = .ok source)
    (hlevel : Options.make c.level = .ok options)
    (hcompile : (Native.backend.run host (c.request source options)).result = .ok a) :
    RunEnds host fs c (run host fs fs.canonicalize Native.backend c).result := by
  cases hanswer : Native.answer host (c.request source options) with
  | error f =>
      rw [Native.run_of_unanswered hanswer] at hcompile
      cases hcompile
  | ok u =>
      have hanswers : Answers host fs c source (.ok u) := ⟨hload, options, hlevel, hanswer⟩
      cases hrender : u.render with
      | ok display =>
          have hresult := (run_of_shown hload hlevel hanswer hrender).1
          exact .reported source u display hanswers hrender hresult
      | error f =>
          have hresult := (run_of_unshown hload hlevel hanswer hrender).1
          exact .escaped f (.display source u f hanswers hrender) hresult

/-- Every run with the default backend ends in one of the ways. -/
theorem run_ends (hhost : host.Conforms) (hfs : fs.IsPlain) (hread : IsReadLevel c.level) :
    RunEnds host fs c (run host fs fs.canonicalize Native.backend c).result := by
  cases course host fs fs.canonicalize Native.backend c with
  | unloaded e hload =>
      have hresult : (run host fs fs.canonicalize Native.backend c).result = .error e := by
        rw [run_of_unloaded hload]
      cases hsource : c.source with
      | dropped =>
          rw [hsource] at hload
          obtain rfl := Except.error.inj hload
          exact .sourceless _ hsource hresult
      | given path =>
          rw [hsource] at hload
          rcases failure_of_load hfs hload with ⟨rfl, hnull⟩ | ⟨err, rfl, hkind⟩
          · exact .escaped _ (.null path hsource hnull) hresult
          · refine .failed err ?_ hresult
            intro husage
            rw [husage] at hkind
            cases hkind
  | misconfigured source m hload hlevel =>
      rcases hread with hempty | ⟨n, hn, hint⟩
      · rw [hempty] at hlevel
        obtain rfl := Except.error.inj hlevel
        refine .levelless source hload hempty ?_
        rw [run_of_misconfigured hload (by rw [hempty]; rfl)]
      · obtain ⟨options, hoptions⟩ := make_of_le hn
        rw [hint, hoptions] at hlevel
        cases hlevel
  | uncompiled source options e hload hlevel hcompile =>
      exact runEnds_of_uncompiled hhost hload hlevel hcompile
  | compiled source options a hload hlevel hcompile =>
      exact runEnds_of_compiled hload hlevel hcompile

end
end CodeListing
