import CodeListing.Proofs.Success
import CodeListing.Proofs.Trace

/-! # How a compilation ends

A compilation ends as the backend ends, except that a diagnostic becomes an error for the user
(`Backend.run_of_failed`) and that an object is looked at before it is passed on
(`Backend.run_of_returned`).

The backend of the host compiler ends as the host answers (`Native.answer`): with an object that
holds the unit of the host, or with what it makes of a fault of the host (`Native.run_of_answered`,
`Native.run_of_unanswered`).  It makes a diagnostic of some faults and lets the others pass; a host
that counts lines and columns (`Host.Conforms`) leads to diagnostics that do so too
(`Native.diagnose_of_isDiagnosed`). -/

namespace CodeListing

/-- A value that counts lines or columns, or says that there is none. -/
def Value.IsCount (v : Value) : Prop := v = .null ∨ ∃ n, v = .int n

/-- A fault that counts the line and the column at which a source is rejected. -/
def Fault.IsPlaced : Fault → Prop
  | .rejected _ _ _ line column => line.IsCount ∧ column.IsCount
  | _ => True

/-- A host that counts lines and columns when it rejects a source. -/
structure Host.Conforms (host : Host) : Prop where
  parse : ∀ source file f, host.parse source file = .error f → f.IsPlaced
  compile : ∀ what file form level f, host.compile what file form level = .error f → f.IsPlaced
  complete : ∀ ss f, host.complete ss = .error f → f.IsPlaced

namespace Backend
variable {b : Backend} {host : Host} {q : Request}

theorem run_of_failed {e : Failure} (h : (b.compile host q).result = .error e) :
    (b.run host q).result = .error (surfaced e) := by
  have hmapped : ((b.compile host q).mapFailure surfaced).result = .error (surfaced e) := by
    rw [Trace.mapFailure_result, h]
    rfl
  unfold run
  rw [Trace.bind_of_error hmapped, Trace.bind_of_ok (Trace.log_result ..)]

theorem run_of_returned {a : Artifact} (h : (b.compile host q).result = .ok a) :
    (b.run host q).result = b.accept a := by
  have hmapped : ((b.compile host q).mapFailure surfaced).result = .ok a := by
    rw [Trace.mapFailure_result, h]
    rfl
  unfold run
  rw [Trace.bind_of_ok hmapped, Trace.bind_of_ok (Trace.log_result ..)]
  rfl

end Backend

namespace Native
variable {host : Host} {q : Request}

/-- What the host answers to a request. -/
def answer (host : Host) (q : Request) : Except Fault CodeUnit :=
  match q.mode with
  | .blockExpr => do
    let ss ← host.parse q.source q.name
    let bound ← bindResult host ss
    host.compile (.statements bound) q.name (form q.mode) (q.level.capped highestLevel)
  | _ => host.compile (.text q.source) q.name (form q.mode) (q.level.capped highestLevel)

theorem noteCapped_result (asked used : Level) : (noteCapped asked used).result = .ok () := by
  unfold noteCapped
  split <;> rfl

theorem complete_of_bindResult {ss : Statements} {f : Fault} (h : bindResult host ss = .error f) :
    hasResult ss = true ∧ host.complete (bindLast ss) = .error f := by
  unfold bindResult at h
  split at h
  · next hresult =>
      cases hcomplete : host.complete (bindLast ss) with
      | ok u =>
          rw [hcomplete] at h
          cases h
      | error g =>
          rw [hcomplete] at h
          obtain rfl : g = f := Except.error.inj h
          exact ⟨hresult, rfl⟩
  · cases h

theorem eq_of_bindResult {ss bound : Statements} (h : bindResult host ss = .ok bound) :
    bound = bindLast ss ∧ (hasResult ss = true → host.complete (bindLast ss) = .ok ()) := by
  unfold bindResult at h
  split at h
  · cases hcomplete : host.complete (bindLast ss) with
    | ok u =>
        rw [hcomplete] at h
        exact ⟨(Except.ok.inj h).symm, fun _ => rfl⟩
    | error f =>
        rw [hcomplete] at h
        cases h
  · next hresult =>
      obtain rfl := Except.ok.inj h
      exact ⟨(bindLast_of_not_hasResult ((Bool.not_eq_true _).mp hresult)).symm,
        fun h => absurd h hresult⟩

theorem parseBlock_eq (host : Host) (source file : String) :
    parseBlock host source file = ⟨[.call (.parse source file)],
      (host.parse source file >>= bindResult host).mapError .foreign⟩ := by
  have hparse : parse host source file = ⟨[.call (.parse source file)],
      (host.parse source file).mapError .foreign⟩ := rfl
  unfold parseBlock
  rw [hparse]
  cases host.parse source file with
  | ok ss => rfl
  | error f => rfl

theorem compiland_of_block (host : Host) (h : q.mode = .blockExpr) :
    compiland host q = ⟨[.call (.parse q.source q.name)],
      ((host.parse q.source q.name >>= bindResult host).mapError .foreign).map .statements⟩ := by
  unfold compiland
  rw [h, parseBlock_eq]
  cases host.parse q.source q.name >>= bindResult host with
  | ok ss => rfl
  | error f => rfl

theorem compiland_of_text (host : Host) (h : q.mode ≠ .blockExpr) :
    compiland host q = pure (.text q.source) := by
  unfold compiland
  split
  · contradiction
  · rfl

theorem answer_of_block (host : Host) (h : q.mode = .blockExpr) :
    answer host q = (host.parse q.source q.name >>= bindResult host) >>= fun ss =>
      host.compile (.statements ss) q.name (form q.mode) (q.level.capped highestLevel) := by
  unfold answer
  split
  · cases host.parse q.source q.name with
    | ok ss => rfl
    | error f => rfl
  · contradiction

theorem answer_of_text (host : Host) (h : q.mode ≠ .blockExpr) :
    answer host q =
      host.compile (.text q.source) q.name (form q.mode) (q.level.capped highestLevel) := by
  unfold answer
  split
  · contradiction
  · rfl

/-- The host is asked for a unit once it is known what it is to compile. -/
theorem result_of_compiland (host : Host) (q : Request) :
    (compiland host q >>= fun what =>
      compileUnit host what q.name (form q.mode) (q.level.capped highestLevel)).result =
      (answer host q).mapError .foreign := by
  rw [Trace.result_bind]
  by_cases hmode : q.mode = .blockExpr
  · rw [compiland_of_block host hmode, answer_of_block host hmode]
    cases host.parse q.source q.name >>= bindResult host with
    | ok ss => rfl
    | error f => rfl
  · rw [compiland_of_text host hmode, answer_of_text host hmode]
    rfl

theorem result_compileRequest (host : Host) (q : Request) :
    (compileRequest host q).result =
      match answer host q with
      | .ok u => .ok (.ofCode u)
      | .error f => .error (diagnose f) := by
  have hunit := congrArg (Except.mapError diagnoseFailure) (result_of_compiland host q)
  unfold compileRequest
  rw [Trace.bind_of_ok (noteCapped_result ..)]
  cases hanswer : answer host q with
  | ok u =>
      rw [hanswer] at hunit
      rw [Trace.bind_of_ok hunit]
      rfl
  | error f =>
      rw [hanswer] at hunit
      rw [Trace.bind_of_error hunit]
      rfl

theorem run_of_answered {u : CodeUnit} (h : answer host q = .ok u) :
    (backend.run host q).result = .ok (.ofCode u) := by
  have hcompile : (backend.compile host q).result = .ok (.ofCode u) := by
    show (compileRequest host q).result = _
    rw [result_compileRequest, h]
  rw [Backend.run_of_returned hcompile]
  rfl

theorem run_of_unanswered {f : Fault} (h : answer host q = .error f) :
    (backend.run host q).result = .error (surfaced (diagnose f)) := by
  have hcompile : (backend.compile host q).result = .error (diagnose f) := by
    show (compileRequest host q).result = _
    rw [result_compileRequest, h]
  rw [Backend.run_of_failed hcompile]

/-! ### Faults of the host -/

/-- A fault of the host of which the backend makes a diagnostic. -/
def isDiagnosed : Fault → Bool
  | .rejected .. | .unconvertible .. | .runtime .recursion _ => true
  | _ => false

theorem diagnose_of_not_isDiagnosed {f : Fault} (h : isDiagnosed f = false) :
    diagnose f = .foreign f := by
  cases f with
  | rejected kind message filename line column => cases h
  | unconvertible kind message => cases h
  | runtime kind message =>
      cases kind with
      | recursion => cases h
      | general => rfl
      | unimplemented => rfl
  | system kind number message => rfl
  | absentKey key => rfl
  | other name message => rfl

/-- What the backend makes of a fault of a host that counts lines and columns has a text and counts
them too. -/
theorem diagnose_of_isDiagnosed {f : Fault} (hplaced : f.IsPlaced) (h : isDiagnosed f = true) :
    ∃ d message, diagnose f = .diagnosed d ∧ d.message = .text message ∧ d.line.IsCount ∧
      d.column.IsCount := by
  cases f with
  | rejected kind message filename line column => exact ⟨_, _, rfl, rfl, hplaced.1, hplaced.2⟩
  | unconvertible kind message => exact ⟨_, _, rfl, rfl, .inl rfl, .inl rfl⟩
  | runtime kind message =>
      cases kind with
      | recursion => exact ⟨_, _, rfl, rfl, .inl rfl, .inl rfl⟩
      | general => cases h
      | unimplemented => cases h
  | system kind number message => cases h
  | absentKey key => cases h
  | other name message => cases h

/-- The faults with which a host that counts lines and columns answers do so. -/
theorem isPlaced_of_answer (hhost : host.Conforms) {f : Fault} (h : answer host q = .error f) :
    f.IsPlaced := by
  by_cases hmode : q.mode = .blockExpr
  · rw [answer_of_block host hmode] at h
    rcases error_of_bind h with hblock | ⟨ss, -, hcompile⟩
    · rcases error_of_bind hblock with hparse | ⟨ss, -, hbind⟩
      · exact hhost.parse _ _ _ hparse
      · exact hhost.complete _ _ (complete_of_bindResult hbind).2
    · exact hhost.compile _ _ _ _ _ hcompile
  · rw [answer_of_text host hmode] at h
    exact hhost.compile _ _ _ _ _ h

end Native

/-! ### Hosts that answer what they are told to -/

/-- A host that knows nothing. -/
def Host.idle : Host where
  parse _ _ := .error .unimplemented
  compile _ _ _ _ := .error .unimplemented

/-- A host that compiles everything to the same unit. -/
def Host.compilingTo (u : CodeUnit) : Host where
  parse _ _ := .ok []
  compile _ _ _ _ := .ok u

theorem Host.compilingTo_conforms (u : CodeUnit) : (compilingTo u).Conforms := by
  constructor
  · intro source file f h
    cases h
  · intro what file form level f h
    cases h
  · intro ss f h
    cases h

end CodeListing
