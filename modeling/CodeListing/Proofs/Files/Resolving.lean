import CodeListing.Proofs.Files.Reading
import CodeListing.Proofs.Files.Sources

/-! # Resolvers

A source is loaded with any resolver (`Source.load_outcome`).  The resolver is asked once, for the
path as it is given, if the file has a text, and not at all otherwise (`Trace.asked`).  What becomes
of its answer is laid down in `Source.Answers`.  A fault of the operating system or at run time is
reported with the path (`Fault.isUnresolved`), and any other fault passes through.  An answer whose
parts all stay where they are names nothing (`Path.name_eq_empty_iff`); any other names the source
by the last part that does not (`Path.isLastName_iff`). -/

namespace CodeListing

/-! ### What a resolver is asked -/

/-- The path that a resolver is asked for. -/
def Event.asked? : Event → Option String
  | resolve path => some path
  | _ => none

/-- The paths that resolvers are asked for, in order. -/
def Trace.asked {α : Type} (t : Trace α) : List String := t.events.filterMap Event.asked?

/-! ### Last parts -/

/-- The last element that is kept is one with none behind it that is kept. -/
theorem getLast?_filter_eq_some_iff {α : Type} {p : α → Bool} {l : List α} {a : α} :
    (l.filter p).getLast? = some a ↔
      p a = true ∧ ∃ front back, l = front ++ a :: back ∧ ∀ b ∈ back, p b = false := by
  rw [← List.head?_reverse, ← List.filter_reverse, List.head?_filter,
    List.find?_eq_some_iff_append]
  refine and_congr_right fun _ => ⟨?_, ?_⟩
  · rintro ⟨back, front, hl, hback⟩
    refine ⟨front.reverse, back.reverse, ?_, fun b hb => ?_⟩
    · rw [← List.reverse_reverse l, hl]
      simp
    · simpa using hback b (List.mem_reverse.mp hb)
  · rintro ⟨front, back, rfl, hback⟩
    refine ⟨back.reverse, front.reverse, by simp, fun b hb => ?_⟩
    rw [hback b (List.mem_reverse.mp hb)]
    rfl

namespace Path

/-- What a text is split into at its slashes. -/
def split (text : String) : List String := (text.toList.splitOn '/').map String.ofList

/-- Whether a part of a path leads nowhere else. -/
def Stays (part : String) : Prop := part = "" ∨ part = "."

/-- The last part of a path that leads somewhere else. -/
structure IsLastName (text name : String) : Prop where
  leads : ¬ Stays name
  last : ∃ front back, split text = front ++ name :: back ∧ ∀ part ∈ back, Stays part

section
variable {text name : String}

theorem components_eq_split (text : String) : components text = split text := by
  unfold components split
  rw [cut_eq_splitOn]

theorem stays_iff {part : String} : Stays part ↔ (part ≠ "" && part ≠ ".") = false := by
  simp [Stays, or_iff_not_imp_left]

/-- The last part that is kept in a normal form is the last one that leads somewhere else. -/
theorem isLastName_iff : IsLastName text name ↔ (ofText text).parts.getLast? = some name := by
  unfold ofText
  dsimp only
  rw [getLast?_filter_eq_some_iff, components_eq_split, ← Bool.not_eq_false, ← stays_iff]
  simp only [← stays_iff]
  exact ⟨fun h => ⟨h.leads, h.last⟩, fun h => ⟨h.1, h.2⟩⟩

theorem name_of_isLastName (h : IsLastName text name) : (ofText text).name = name := by
  rw [Path.name, isLastName_iff.mp h]
  rfl

theorem name_eq_empty_iff : (ofText text).name = "" ↔ ∀ part ∈ split text, Stays part := by
  have hparts : (ofText text).parts = [] ↔ ∀ part ∈ split text, Stays part := by
    unfold ofText
    simp only [List.filter_eq_nil_iff, components_eq_split, Bool.not_eq_true, ← stays_iff]
  rw [← hparts]
  constructor
  · intro hname
    by_contra hne
    have hlast := List.getLast?_eq_some_getLast hne
    have hleads := (isLastName_iff.mpr hlast).leads
    rw [Path.name, hlast] at hname
    exact hleads (.inl hname)
  · intro hnil
    rw [Path.name, hnil]
    rfl

theorem isLastName_of_ne (h : (ofText text).name ≠ "") : IsLastName text (ofText text).name := by
  rw [isLastName_iff, Path.name]
  cases hlast : (ofText text).parts.getLast? with
  | some name => rfl
  | none =>
      rw [Path.name, hlast] at h
      exact absurd rfl h

theorem IsLastName.whole (h : IsLastName text name) : '/' ∉ name.toList := by
  obtain ⟨front, back, hsplit, -⟩ := h.last
  refine not_mem_of_mem_components (show name ∈ components text from ?_)
  rw [components_eq_split, hsplit]
  exact List.mem_append_right front List.mem_cons_self

end

end Path

/-! ### Loading -/

namespace Source
variable {fs : FileSystem} {resolver : Resolver} {path text : String}

/-- What becomes of a source whose text has been read, by the answer of the resolver. -/
structure Answers (resolver : Resolver) (path text : String) (r : Except Failure Source) :
    Prop where
  unresolved : ∀ f, r = .error (.user (.unresolved path f)) ↔
    resolver path = .error f ∧ f.isUnresolved = true
  passed : ∀ f, r = .error (.foreign f) ↔ resolver path = .error f ∧ f.isUnresolved = false
  nameless : ∀ shown, r = .error (.user (.nameless shown)) ↔ ∃ answer,
    resolver path = .ok answer ∧ (∀ part ∈ Path.split answer, Path.Stays part) ∧
      shown = (Path.ofText answer).text
  loaded : ∀ s, r = .ok s ↔ ∃ answer, resolver path = .ok answer ∧
    Path.IsLastName answer s.name ∧ s.path = .ofText answer ∧ s.text = text
  whole : ∀ s, r = .ok s → '/' ∉ s.name.toList

theorem unresolved_eq_iff {f f' : Fault} :
    Failure.user (.unresolved path f) = .user (.unresolved path f') ↔ f = f' := by
  constructor
  · intro h
    injection h with h
    injection h with h _
    injection h with _ h
    exact Option.some.inj h
  · exact congrArg fun f => Failure.user (.unresolved path f)

section
variable {f f' : Fault} {answer : String}

theorem resolutionFailure_eq_unresolved_iff :
    resolutionFailure path f = .user (.unresolved path f') ↔ f = f' ∧ f'.isUnresolved = true := by
  cases f with
  | system | runtime =>
      exact unresolved_eq_iff.trans ⟨fun h => ⟨h, h ▸ rfl⟩, And.left⟩
  | rejected | unconvertible | absentKey | other =>
      refine ⟨nofun, ?_⟩
      rintro ⟨rfl, h⟩
      cases h

theorem resolutionFailure_eq_foreign_iff :
    resolutionFailure path f = .foreign f' ↔ f = f' ∧ f'.isUnresolved = false := by
  cases f with
  | system | runtime =>
      refine ⟨nofun, ?_⟩
      rintro ⟨rfl, h⟩
      cases h
  | rejected | unconvertible | absentKey | other =>
      refine ⟨fun h => ?_, fun h => congrArg Failure.foreign h.1⟩
      obtain rfl := Failure.foreign.inj h
      exact ⟨rfl, rfl⟩

theorem resolutionFailure_ne_nameless (shown : String) :
    resolutionFailure path f ≠ .user (.nameless shown) := by
  cases f <;> simp [resolutionFailure, UserError.unresolved, UserError.nameless]

theorem answers_of_fault (h : resolver path = .error f) :
    Answers resolver path text (.error (resolutionFailure path f)) := by
  constructor
  case unresolved =>
    intro f'
    rw [h, Except.error.injEq, Except.error.injEq, resolutionFailure_eq_unresolved_iff]
  case passed =>
    intro f'
    rw [h, Except.error.injEq, Except.error.injEq, resolutionFailure_eq_foreign_iff]
  case nameless => simp [h, resolutionFailure_ne_nameless]
  case loaded => simp [h]
  case whole => simp

theorem answers_of_nameless (h : resolver path = .ok answer)
    (hname : (Path.ofText answer).name = "") :
    Answers resolver path text (.error (.user (.nameless (Path.ofText answer).text))) := by
  have hstays := Path.name_eq_empty_iff.mp hname
  constructor
  case unresolved => simp [h, UserError.unresolved, UserError.nameless]
  case passed => simp [h]
  case nameless =>
    intro shown
    constructor
    · intro hr
      refine ⟨answer, h, hstays, ?_⟩
      injection hr with hr
      injection hr with hr
      injection hr with hr
      injection hr with hr
      exact hr.symm
    · rintro ⟨answer', hanswer, -, rfl⟩
      rw [Except.ok.inj (h.symm.trans hanswer)]
  case loaded =>
    intro s
    refine ⟨nofun, fun ⟨answer', hanswer, hlast, _⟩ => ?_⟩
    obtain rfl := Except.ok.inj (h.symm.trans hanswer)
    rw [Path.name_of_isLastName hlast] at hname
    exact absurd (.inl hname) hlast.leads
  case whole => simp

theorem answers_of_named (h : resolver path = .ok answer)
    (hname : (Path.ofText answer).name ≠ "") :
    Answers resolver path text (.ok ⟨.ofText answer, (Path.ofText answer).name, text⟩) := by
  have hlast := Path.isLastName_of_ne hname
  constructor
  case unresolved => simp [h]
  case passed => simp [h]
  case nameless =>
    intro shown
    refine ⟨nofun, fun ⟨answer', hanswer, hstays, _⟩ => ?_⟩
    obtain rfl := Except.ok.inj (h.symm.trans hanswer)
    exact absurd (Path.name_eq_empty_iff.mpr hstays) hname
  case loaded =>
    intro s
    constructor
    · intro hr
      obtain rfl := Except.ok.inj hr
      exact ⟨answer, h, hlast, rfl, rfl⟩
    · rintro ⟨answer', hanswer, hlast', hpath, rfl⟩
      obtain rfl := Except.ok.inj (h.symm.trans hanswer)
      obtain ⟨spath, sname, stext⟩ := s
      obtain rfl : spath = _ := hpath
      rw [Path.name_of_isLastName hlast']
  case whole =>
    intro s hr
    obtain rfl := Except.ok.inj hr
    exact hlast.whole

end

theorem load_of_read (hread : fs.readText path = .ok text) :
    (load fs resolver path).asked = [path] ∧
      Answers resolver path text (load fs resolver path).result := by
  cases hresolve : resolver path with
  | error f =>
      rw [load_of_unresolved hread hresolve]
      exact ⟨rfl, answers_of_fault hresolve⟩
  | ok answer =>
      by_cases hname : (Path.ofText answer).name = ""
      · rw [load_of_nameless hread hresolve hname]
        exact ⟨rfl, answers_of_nameless hresolve hname⟩
      · rw [load_of_named hread hresolve hname]
        exact ⟨rfl, answers_of_named hresolve hname⟩

/-- **Loading with any resolver.** -/
theorem load_outcome (fs : FileSystem) (resolver : Resolver) (path : String)
    (hpath : hasNull path = false) :
    (∀ r, fs.read path = .error r →
      load fs resolver path = ⟨[], .error (.user (.unreadable path (r.fault path)))⟩) ∧
    (∀ bytes, fs.read path = .ok bytes → ¬ Utf8.IsWellFormed bytes →
      ∃ message, load fs resolver path =
        ⟨[], .error (.user (.unreadable path (.unconvertible .decoding message)))⟩) ∧
    (∀ bytes, fs.read path = .ok bytes → Utf8.IsWellFormed bytes →
      ∃ text, fs.readText path = .ok text ∧ (load fs resolver path).asked = [path] ∧
        Answers resolver path text (load fs resolver path).result) := by
  refine ⟨fun r hread => ?_, fun bytes hread hbytes => ?_, fun bytes hread hbytes => ?_⟩
  · exact load_of_unread (FileSystem.readText_of_refused hpath hread)
  · obtain ⟨message, hread⟩ := FileSystem.readText_of_not_isWellFormed hpath hread hbytes
    exact ⟨message, load_of_unread hread⟩
  · obtain ⟨text, htext⟩ := FileSystem.exists_text_of_isWellFormed hpath hread hbytes
    exact ⟨text, htext, load_of_read htext⟩

/-- An answer with dots and slashes behind its last name, a resolver that is left out, and a file
that is missing. -/
theorem load_outcome_dots :
    (load (.single "f" [120]) (fun _ => .ok "/d/.././/.") "f").result =
        .ok ⟨.ofText "/d/.././/.", "..", "x"⟩ ∧
      (load (.single "f" [120]) (fun _ => .error .unimplemented) "f").result =
        .error (.user (.unresolved "f" .unimplemented)) ∧
      load (.single "f" [120]) (fun _ => .ok "/") "g" =
        ⟨[], .error (.user (.unreadable "g" (Refusal.missing.fault "g")))⟩ := by
  have hwellFormed : Utf8.IsWellFormed [120] := ⟨[⟨.one, 120, by decide⟩], by
    rw [List.forall_mem_singleton]
    exact ⟨by decide, by decide, by decide⟩, rfl⟩
  refine ⟨?_, ?_, ?_⟩
  · obtain ⟨text, htext, -, hanswers⟩ :=
      (load_outcome (.single "f" [120]) (fun _ => .ok "/d/.././/.") "f" (by decide)).2.2 _ rfl
        hwellFormed
    obtain rfl : "x" = text := Except.ok.inj htext
    refine (hanswers.loaded _).mpr ⟨_, rfl, ⟨?_, ["", "d"], [".", "", "."], rfl, ?_⟩, rfl, rfl⟩
    · unfold Path.Stays
      decide
    · unfold Path.Stays
      decide
  · obtain ⟨text, -, -, hanswers⟩ :=
      (load_outcome (.single "f" [120]) (fun _ => .error .unimplemented) "f" (by decide)).2.2 _
        rfl hwellFormed
    exact (hanswers.unresolved _).mpr ⟨rfl, rfl⟩
  · exact (load_outcome (.single "f" [120]) (fun _ => .ok "/") "g" (by decide)).1 _ rfl

end Source
end CodeListing
