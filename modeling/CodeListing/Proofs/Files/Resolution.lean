import CodeListing.Proofs.Files.Loading
import CodeListing.Proofs.Text.Pieces

/-! # Why a path is not resolved

In a plain file system no link leads along the null character (`FileSystem.IsPlain`), so a walk that
starts without it never meets it.  Then whatever ends the search for a canonical path is a refusal
of the system or a failure at run time (`isUnresolved_of_canonicalize`): one component after the
other for a fixed depth, and one depth after the other.  Hence a source that cannot be loaded is
either a path with the null character or a problem of the user's (`failure_of_load`). -/

namespace CodeListing

/-- A fault of a resolver that is reported as such. -/
def Fault.isUnresolved : Fault → Bool
  | .system .. | .runtime .. => true
  | _ => false

/-- A file system whose links have targets without the null character. -/
def FileSystem.IsPlain (fs : FileSystem) : Prop :=
  ∀ location target, fs.root.find? location = some (.link target) → hasNull target = false

/-! ### Plain trees -/

mutual

/-- Whether no link in a tree leads along the null character. -/
def Node.isPlain : Node → Bool
  | .file _ => true
  | .link target => !hasNull target
  | .directory es => arePlainEntries es

/-- Whether no link below the entries of a directory leads along the null character. -/
def arePlainEntries : List (String × Node) → Bool
  | [] => true
  | (_, n) :: es => n.isPlain && arePlainEntries es

end

theorem isPlain_of_lookup {es : List (String × Node)} {name : String} {n : Node}
    (hes : arePlainEntries es = true) (h : es.lookup name = some n) : n.isPlain = true := by
  induction es with
  | nil => cases h
  | cons e es ih =>
      obtain ⟨other, m⟩ := e
      rw [arePlainEntries, Bool.and_eq_true] at hes
      rw [List.lookup_cons] at h
      split at h
      · exact Option.some.inj h ▸ hes.1
      · exact ih hes.2 h

theorem isPlain_of_find? {location : List String} {root n : Node} (hroot : root.isPlain = true)
    (h : root.find? location = some n) : n.isPlain = true := by
  induction location generalizing root with
  | nil => exact Option.some.inj h ▸ hroot
  | cons name names ih =>
      obtain ⟨c, hc, hn⟩ := Option.bind_eq_some_iff.mp h
      cases root with
      | directory es =>
          rw [Node.isPlain] at hroot
          exact ih (isPlain_of_lookup hroot hc) hn
      | file content => cases hc
      | link target => cases hc

theorem FileSystem.isPlain_of_root {fs : FileSystem} (h : fs.root.isPlain = true) : fs.IsPlain := by
  intro location target hlink
  have hplain := isPlain_of_find? h hlink
  rwa [Node.isPlain, Bool.not_eq_true'] at hplain

/-! ### Components -/

theorem hasNull_of_mem_components {path c : String} (hpath : hasNull path = false)
    (hc : c ∈ components path) : hasNull c = false := by
  obtain ⟨p, hp, rfl⟩ := List.mem_map.mp hc
  unfold hasNull at hpath ⊢
  rw [decide_eq_false_iff_not] at hpath ⊢
  intro hnull
  rw [String.toList_ofList] at hnull
  exact hpath (mem_of_mem_cut hnull hp).1

namespace FileSystem
variable {fs : FileSystem}

/-! ### Steps of the search -/

theorem isUnresolved_of_inspect {t : Trail} {name : String} {f : Fault}
    (hname : hasNull name = false) (h : fs.inspect t name = .error f) : f.isUnresolved = true := by
  unfold inspect at h
  rw [hname, if_neg Bool.false_ne_true] at h
  split at h
  · obtain rfl := Except.error.inj h
    rfl
  · split at h
    · split at h
      · obtain rfl := Except.error.inj h
        rfl
      · split at h
        · cases h
        · obtain rfl := Except.error.inj h
          rfl
    · obtain rfl := Except.error.inj h
      rfl
    · obtain rfl := Except.error.inj h
      rfl

/-- A link that is inspected is one of the file system. -/
theorem hasNull_of_inspect (hfs : fs.IsPlain) {t : Trail} {name target : String}
    (h : fs.inspect t name = .ok (.link target)) : hasNull target = false := by
  unfold inspect at h
  split at h
  · cases h
  · split at h
    · cases h
    · split at h
      · next es hes =>
          split at h
          · cases h
          · split at h
            · next n hn =>
                obtain rfl := Except.ok.inj h
                refine hfs (t.location fs.workingDirectory ++ [name]) target ?_
                rw [Node.find?_append, hes]
                show (es.lookup name).bind _ = _
                rw [hn]
                rfl
            · cases h
      · cases h
      · cases h

theorem isUnresolved_loopFault (t : Trail) (name : String) :
    (fs.loopFault t name).isUnresolved = true := by
  unfold loopFault
  split <;> rfl

/-- A part of the search that fails as a whole search does. -/
def FailsUnresolved (r : Except Fault (Trail × Links)) : Prop :=
  ∀ f, r = .error f → f.isUnresolved = true

/-- Along components without the null character the search fails as going through links does. -/
theorem traceWith_failsUnresolved (hfs : fs.IsPlain)
    {enter : Links → Trail → List String → Except Fault (Trail × Links)}
    (henter : ∀ links t cs, (∀ c ∈ cs, hasNull c = false) → FailsUnresolved (enter links t cs))
    {cs : List String} (hcs : ∀ c ∈ cs, hasNull c = false) (links : Links) (t : Trail) :
    FailsUnresolved (fs.traceWith enter links t cs) := by
  induction cs generalizing links t with
  | nil =>
      intro f h
      cases h
  | cons c cs ih =>
      have hrest := ih fun d hd => hcs d (List.mem_cons_of_mem c hd)
      have hc := hcs c List.mem_cons_self
      unfold traceWith
      by_cases hstay : c = "" ∨ c = "."
      · rw [if_pos hstay]
        exact hrest links t
      rw [if_neg hstay]
      by_cases hup : c = ".."
      · rw [if_pos hup]
        exact hrest links t.parent
      rw [if_neg hup]
      cases hinspect : fs.inspect t c with
      | error f =>
          intro g hg
          obtain rfl : f = g := Except.error.inj hg
          exact isUnresolved_of_inspect hc hinspect
      | ok n =>
          cases n with
          | file content => exact hrest links (t.child c)
          | directory es => exact hrest links (t.child c)
          | link target =>
              have htarget := hasNull_of_inspect hfs hinspect
              have hthrough := henter ((t.child c, none) :: links) (t.startOf target)
                (components target) fun d hd => hasNull_of_mem_components htarget hd
              simp only [bind, Except.bind]
              split
              · exact hrest _ _
              · intro f hf
                obtain rfl := Except.error.inj hf
                exact isUnresolved_loopFault t c
              · cases hdone : enter ((t.child c, none) :: links) (t.startOf target)
                  (components target) with
                | error f =>
                    intro g hg
                    obtain rfl : f = g := Except.error.inj hg
                    exact hthrough f hdone
                | ok p => exact hrest _ _

/-! ### The whole search -/

theorem trace_failsUnresolved (hfs : fs.IsPlain) (depth : Nat) {cs : List String}
    (hcs : ∀ c ∈ cs, hasNull c = false) (links : Links) (t : Trail) :
    FailsUnresolved (fs.trace depth links t cs) := by
  induction depth generalizing cs links t with
  | zero =>
      refine traceWith_failsUnresolved hfs ?_ hcs links t
      intro links t cs _ f hf
      obtain rfl := Except.error.inj hf
      rfl
  | succ depth ih =>
      refine traceWith_failsUnresolved hfs ?_ hcs links t
      intro links t cs hcs
      exact ih hcs links t

theorem isUnresolved_of_canonicalize (hfs : fs.IsPlain) {path : String} {f : Fault}
    (hpath : hasNull path = false) (h : fs.canonicalize path = .error f) :
    f.isUnresolved = true := by
  have htrace := trace_failsUnresolved hfs depthLimit
    (fun c hc => hasNull_of_mem_components hpath hc) [] (Trail.here.startOf path)
  unfold canonicalize canonicalLocation at h
  cases hend : fs.trace depthLimit [] (Trail.here.startOf path) (components path) with
  | error g =>
      rw [hend] at h
      obtain rfl : g = f := Except.error.inj h
      exact htrace g hend
  | ok p =>
      rw [hend] at h
      cases h

end FileSystem

/-! ### Sources that cannot be loaded -/

/-- The kinds of problems with a source. -/
def ProblemKind.isOfSource : ProblemKind → Bool
  | .unreadable | .unresolved | .nameless => true
  | _ => false

/-- Why a path has no text: it holds the null character, or the file cannot be read. -/
theorem failure_of_readText {fs : FileSystem} {path : String} {e : Failure}
    (h : fs.readText path = .error e) :
    (e = .foreign .nullInPath ∧ hasNull path = true) ∨ ∃ f, e = .user (.unreadable path f) := by
  unfold FileSystem.readText at h
  by_cases hnull : hasNull path = true
  · rw [if_pos hnull] at h
    exact .inl ⟨(Except.error.inj h).symm, hnull⟩
  · rw [if_neg hnull] at h
    right
    split at h
    · exact ⟨_, (Except.error.inj h).symm⟩
    · split at h
      · exact ⟨_, (Except.error.inj h).symm⟩
      · cases h

theorem hasNull_of_readText {fs : FileSystem} {path text : String}
    (h : fs.readText path = .ok text) :
    hasNull path = false := by
  unfold FileSystem.readText at h
  cases hnull : hasNull path with
  | false => rfl
  | true =>
      rw [hnull, if_pos rfl] at h
      cases h

/-- Why a source of a plain file system is not loaded. -/
theorem failure_of_load {fs : FileSystem} (hfs : fs.IsPlain) {path : String} {e : Failure}
    (h : (Source.load fs fs.canonicalize path).result = .error e) :
    (e = .foreign .nullInPath ∧ hasNull path = true) ∨
      ∃ err, e = .user err ∧ err.problem.kind.isOfSource = true := by
  cases hread : fs.readText path with
  | error g =>
      rw [load_of_unread hread] at h
      obtain rfl : g = e := Except.error.inj h
      rcases failure_of_readText hread with hnull | ⟨f, rfl⟩
      · exact .inl hnull
      · exact .inr ⟨_, rfl, rfl⟩
  | ok text =>
      have hpath := hasNull_of_readText hread
      right
      cases hresolve : fs.canonicalize path with
      | error f =>
          have hf := FileSystem.isUnresolved_of_canonicalize hfs hpath hresolve
          rw [load_of_unresolved hread hresolve] at h
          obtain rfl : resolutionFailure path f = e := Except.error.inj h
          cases f with
          | system kind number message => exact ⟨_, rfl, rfl⟩
          | runtime kind message => exact ⟨_, rfl, rfl⟩
          | _ => cases hf
      | ok answer =>
          by_cases hname : (Path.ofText answer).name = ""
          · rw [load_of_nameless hread hresolve hname] at h
            obtain rfl := Except.error.inj h
            exact ⟨_, rfl, rfl⟩
          · rw [load_of_named hread hresolve hname] at h
            cases h

/-! ### A single file -/

theorem FileSystem.single_isPlain (name : String) (content : List UInt8) :
    (single name content).IsPlain := by
  refine isPlain_of_root ?_
  show arePlainEntries [(name, .file content)] = true
  rw [arePlainEntries, Node.isPlain, arePlainEntries]
  rfl

theorem canonicalize_single (content : List UInt8) :
    (FileSystem.single "f" content).canonicalize "f" = .ok "/f" := by
  have htrace : (FileSystem.single "f" content).trace depthLimit [] (Trail.here.startOf "f")
      (components "f") = .ok (⟨some 0, ["f"]⟩, []) := by
    show FileSystem.traceWith _ (FileSystem.trace _ 999) _ _ _ = _
    generalize FileSystem.trace _ 999 = enter
    rfl
  unfold FileSystem.canonicalize FileSystem.canonicalLocation
  rw [htrace]
  rfl

theorem load_single :
    (loadSource (.single "f" [120, 10]) (FileSystem.single "f" [120, 10]).canonicalize
      (.given (.ofText "f"))).result = .ok ⟨.ofText "/f", "f", "x\n"⟩ := by
  have hread : (FileSystem.single "f" [120, 10]).readText (Path.ofText "f").text = .ok "x\n" := rfl
  show (Source.load _ _ _).result = _
  rw [load_of_named hread (canonicalize_single [120, 10]) (by decide)]
  rfl

end CodeListing
