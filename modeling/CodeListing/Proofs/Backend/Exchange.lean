import CodeListing.Proofs.Backend.Outcome

/-! # What passes between the backend and the host

The backend of the host compiler asks the host once, or twice for a block: first for its statements,
and then for the unit of those with the last one bound.  The second time is left out if the host
rejects the block, and if binding the last statement adds nodes and the host does not come to the
end of completing their places (`run_stops_at_incomplete`).

`Exchange` lists what is asked and what the host says last, without reference to how the backend
comes by it, and `Conveys` says what becomes of that: a unit is passed on in an object, a source
that is rejected is reported where the host says, a value that cannot be converted and a recursion
too deep are reported without a place, and every other fault passes (`run_exchanges`). -/

namespace CodeListing

/-- Statements in which the last one of others binds its value, if it is an expression, and which
are the same otherwise. -/
structure BindsLast (ss ss' : Statements) : Prop where
  length : ss'.length = ss.length
  others : ss'.dropLast = ss.dropLast
  bound : ∀ value span, ss.getLast? = some (.expression value span) →
    ss'.getLast? = some (.assignment "__block_result__" span value span)
  kept : (∀ value span, ss.getLast? ≠ some (.expression value span)) →
    ss'.getLast? = ss.getLast?

/-- A level that is lowered to two if it is above. -/
structure Lowered (asked used : Level) : Prop where
  toNat : used.toNat = min asked.toNat 2
  number : ∀ n, asked = .number n → used = .number (min n 2)

/-- What the host is asked for a request, and what it says last. -/
inductive Exchange (host : Host) (q : Request) : List HostCall → Except Fault CodeUnit → Prop where
  | text (form : Form) (level : Level) (hform : form.token = q.mode.token)
      (hlevel : Lowered q.level level) :
      Exchange host q [.compile (.text q.source) q.name form level]
        (host.compile (.text q.source) q.name form level)
  | unparsed (f : Fault) (hmode : q.mode = .blockExpr)
      (hparse : host.parse q.source q.name = .error f) :
      Exchange host q [.parse q.source q.name] (.error f)
  | incomplete (ss ss' : Statements) (f : Fault) (hmode : q.mode = .blockExpr)
      (hparse : host.parse q.source q.name = .ok ss)
      (hresult : ∃ value span, ss.getLast? = some (.expression value span))
      (hbinds : BindsLast ss ss') (hcomplete : host.complete ss' = .error f) :
      Exchange host q [.parse q.source q.name] (.error f)
  | block (ss ss' : Statements) (level : Level) (hmode : q.mode = .blockExpr)
      (hparse : host.parse q.source q.name = .ok ss) (hbinds : BindsLast ss ss')
      (hcomplete : (∃ value span, ss.getLast? = some (.expression value span)) →
        host.complete ss' = .ok ())
      (hagain : bindLast ss' = ss') (hlevel : Lowered q.level level) :
      Exchange host q
        [.parse q.source q.name, .compile (.statements ss') q.name .exec level]
        (host.compile (.statements ss') q.name .exec level)

/-- What becomes of what the host says last. -/
inductive Conveys : Except Fault CodeUnit → Except Failure Artifact → Prop where
  | unit (u : CodeUnit) : Conveys (.ok u) (.ok (.ofCode u))
  | rejected (kind : Rejection) (message filename line column : Value) (d : Diagnostic)
      (hline : d.line = line) (hcolumn : d.column = column)
      (hcause : d.cause = some (.rejected kind message filename line column)) :
      Conveys (.error (.rejected kind message filename line column))
        (.error (.user (.compilation d)))
  | placeless (f : Fault) (d : Diagnostic)
      (hf : (∃ kind message, f = .unconvertible kind message) ∨
        ∃ message, f = .runtime .recursion message)
      (hline : d.line = .null) (hcolumn : d.column = .null) (hcause : d.cause = some f) :
      Conveys (.error f) (.error (.user (.compilation d)))
  | passed (f : Fault)
      (hrejected : ∀ kind message filename line column,
        f ≠ .rejected kind message filename line column)
      (hconverted : ∀ kind message, f ≠ .unconvertible kind message)
      (hrecursion : ∀ message, f ≠ .runtime .recursion message) :
      Conveys (.error f) (.error (.foreign f))

/-! ### Statements -/

theorem bindsLast_bindLast (ss : Statements) : BindsLast ss (bindLast ss) := by
  rcases ss.eq_nil_or_concat with rfl | ⟨ss, s, rfl⟩
  · constructor
    case length => rfl
    case others => rfl
    case bound =>
      intro value span h
      cases h
    case kept => exact fun _ => rfl
  · rw [List.concat_eq_append, bindLast_concat]
    constructor
    case length =>
      rw [← bindLast_concat, length_bindLast]
    case others => rw [List.dropLast_concat, List.dropLast_concat]
    case bound =>
      intro value span h
      rw [List.getLast?_concat] at h
      obtain rfl := Option.some.inj h
      exact List.getLast?_concat
    case kept =>
      intro h
      rw [List.getLast?_concat] at h
      rw [List.getLast?_concat, List.getLast?_concat]
      cases s with
      | expression value span => exact absurd rfl (h value span)
      | assignment target targetSpan value span => rfl
      | other kind span => rfl

theorem lowered_capped (l : Level) : Lowered l (l.capped Native.highestLevel) := by
  constructor
  case toNat => exact l.toNat_capped _
  case number =>
    rintro n rfl
    by_cases h : n ≤ 2
    · rw [Nat.min_eq_left h]
      exact if_pos h
    · rw [Nat.min_eq_right (Nat.le_of_not_le h)]
      exact if_neg h

/-! ### Calls -/

namespace Trace
variable {α β : Type}

theorem calls_of_ok {t : Trace α} {a : α} (h : t.result = .ok a) (f : α → Trace β) :
    (t >>= f).calls = t.calls ++ (f a).calls := by
  rw [bind_of_ok h]
  exact List.filterMap_append

theorem calls_of_error {t : Trace α} {e : Failure} (h : t.result = .error e) (f : α → Trace β) :
    (t >>= f).calls = t.calls := by
  rw [bind_of_error h]
  rfl

/-- What only looks at a result calls nothing more. -/
theorem calls_bind_eq {t : Trace α} {f : α → Trace β} (h : ∀ a, (f a).calls = []) :
    (t >>= f).calls = t.calls := by
  cases ht : t.result with
  | ok a => rw [calls_of_ok ht, h, List.append_nil]
  | error e => exact calls_of_error ht f

end Trace

theorem Backend.calls_run (b : Backend) (host : Host) (q : Request) :
    (b.run host q).calls = (b.compile host q).calls := by
  unfold run
  rw [Trace.calls_of_ok (Trace.log_result ..)]
  exact Trace.calls_bind_eq fun _ => rfl

namespace Native
variable (host : Host) (q : Request)

theorem calls_noteCapped (asked used : Level) : (noteCapped asked used).calls = [] := by
  unfold noteCapped
  split <;> rfl

theorem calls_compileRequest :
    (compileRequest host q).calls = (compiland host q >>= fun what =>
      compileUnit host what q.name (form q.mode) (q.level.capped highestLevel)).calls := by
  unfold compileRequest
  rw [Trace.calls_of_ok (noteCapped_result ..), calls_noteCapped]
  exact Trace.calls_bind_eq fun _ => rfl

theorem token_form {m : Mode} (h : m ≠ .blockExpr) : (form m).token = m.token := by
  cases m with
  | blockExpr => contradiction
  | exec | eval | single => rfl

theorem exchange_block (hmode : q.mode = .blockExpr) {ss : Statements}
    (hparse : host.parse q.source q.name = .ok ss) :
    Exchange host q (compileRequest host q).calls (answer host q) := by
  have hblock : (host.parse q.source q.name >>= bindResult host) = bindResult host ss := by
    rw [hparse]
    rfl
  have hbinds := bindsLast_bindLast ss
  rw [calls_compileRequest, compiland_of_block host hmode, answer_of_block host hmode, hblock,
    hmode]
  cases hbound : bindResult host ss with
  | error f =>
      obtain ⟨hresult, hcomplete⟩ := complete_of_bindResult hbound
      exact .incomplete ss (bindLast ss) f hmode hparse (hasResult_iff.mp hresult) hbinds hcomplete
  | ok bound =>
      obtain ⟨rfl, hcomplete⟩ := eq_of_bindResult hbound
      exact .block ss (bindLast ss) _ hmode hparse hbinds
        (fun hresult => hcomplete (hasResult_iff.mpr hresult)) (bindLast_bindLast ss)
        (lowered_capped q.level)

/-- The backend asks the host as an exchange says, which ends with its answer. -/
theorem exchange_answer : Exchange host q (compileRequest host q).calls (answer host q) := by
  by_cases hmode : q.mode = .blockExpr
  · cases hparse : host.parse q.source q.name with
    | error f =>
        rw [calls_compileRequest, compiland_of_block host hmode, answer_of_block host hmode, hparse]
        exact .unparsed f hmode hparse
    | ok ss => exact exchange_block host q hmode hparse
  · rw [calls_compileRequest, compiland_of_text host hmode, answer_of_text host hmode]
    exact .text (form q.mode) _ (token_form hmode) (lowered_capped q.level)

theorem conveys_unit {u : CodeUnit} (h : answer host q = .ok u) :
    Conveys (answer host q) (backend.run host q).result := by
  rw [h, run_of_answered h]
  exact .unit u

theorem conveys_fault {f : Fault} (h : answer host q = .error f) :
    Conveys (answer host q) (backend.run host q).result := by
  rw [h, run_of_unanswered h]
  cases f with
  | rejected kind message filename line column =>
      exact .rejected kind message filename line column _ rfl rfl rfl
  | unconvertible kind message => exact .placeless _ _ (.inl ⟨kind, message, rfl⟩) rfl rfl rfl
  | runtime kind message =>
      cases kind with
      | recursion => exact .placeless _ _ (.inr ⟨message, rfl⟩) rfl rfl rfl
      | general | unimplemented => exact .passed _ (by simp) (by simp) (by simp)
  | system | absentKey | other => exact .passed _ (by simp) (by simp) (by simp)

/-- **The exchange with the host.**  Whatever the host answers, the backend asks it as an exchange
says, and ends as the host says last. -/
theorem run_exchanges :
    ∃ r, Exchange host q (backend.run host q).calls r ∧ Conveys r (backend.run host q).result := by
  refine ⟨answer host q, ?_, ?_⟩
  · rw [Backend.calls_run]
    exact exchange_answer host q
  · cases h : answer host q with
    | ok u => exact h ▸ conveys_unit host q h
    | error f => exact h ▸ conveys_fault host q h

/-- A host that accepts an expression and compiles everything, but cannot go through the nodes of
what it has accepted. -/
def shallowHost : Host where
  parse _ _ := .ok [.expression "x" ⟨1, 0, 1, 1⟩]
  compile _ _ _ _ := .ok ⟨"<module>", "f", 1, [], [], [], [], []⟩
  complete _ := .error (.runtime .recursion "maximum recursion depth exceeded")

theorem run_stops_at_incomplete :
    let q : Request := ⟨"x\n", .blockExpr, "f", ⟨.number 0, by decide⟩⟩
    let t := backend.run shallowHost q
    (∃ ss, shallowHost.parse q.source q.name = .ok ss) ∧ t.calls = [.parse q.source q.name] ∧
      t.result = .error (.user (.compilation
        ⟨.text "RecursionError: maximum recursion depth exceeded", .null, .null,
          some (.runtime .recursion "maximum recursion depth exceeded")⟩)) := by
  intro q t
  exact ⟨⟨_, rfl⟩, rfl, rfl⟩

end Native
end CodeListing
