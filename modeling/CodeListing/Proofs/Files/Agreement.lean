import CodeListing.Files.Canonical
import CodeListing.Proofs.Files.Route

/-! # The search for a canonical path

The search goes where its components lead (`FileSystem.canonicalLocation_of_locate`), except that it
keeps in writing what it has walked and inspects a node under the path to it: where that path is too
long the search is refused, whatever it leads to (`FileSystem.IsOverlong`).

The search is right as long as what it remembers is right (`FileSystem.Remembers`), and it does not
take a link for a loop as long as it still has fewer links to follow than each of those leads
through that it is in the middle of (`FileSystem.Within`).  A search for a fixed depth keeps to both
if going through a link does (`FileSystem.traceWith_agrees`), hence one to any depth
(`FileSystem.trace_agrees`), and the depth to which links are gone through is beyond the number of
links that can be followed at all. -/

namespace CodeListing

namespace Trail
variable (t : Trail) (workingDirectory : List String)

@[simp] theorem location_here : here.location workingDirectory = workingDirectory := by
  simp [here, location]

@[simp] theorem location_child (name : String) :
    (t.child name).location workingDirectory = t.location workingDirectory ++ [name] := by
  unfold child location
  cases t.up? with
  | none => rfl
  | some k => exact (List.append_assoc ..).symm

@[simp] theorem location_parent :
    t.parent.location workingDirectory = (t.location workingDirectory).dropLast := by
  unfold parent location
  by_cases hnames : t.names = []
  · rw [if_pos hnames, hnames]
    cases t.up? with
    | none => rfl
    | some k => simp [List.dropLast_eq_take, List.take_take]; omega
  · rw [if_neg hnames]
    cases t.up? with
    | none => rfl
    | some k => exact (List.dropLast_append_of_ne_nil hnames).symm

theorem location_startOf (path : String) :
    (t.startOf path).location workingDirectory =
      CodeListing.startOf (t.location workingDirectory) path := by
  unfold startOf CodeListing.startOf
  split <;> rfl

theorem child_inj {t t' : Trail} {c c' : String} (h : t.child c = t'.child c') :
    t = t' ∧ c = c' := by
  obtain ⟨up?, names⟩ := t
  obtain ⟨up?', names'⟩ := t'
  obtain ⟨rfl, hnames⟩ := Trail.mk.inj h
  obtain ⟨rfl, hc⟩ := List.append_inj' hnames rfl
  exact ⟨rfl, List.singleton_inj.mp hc⟩

end Trail

theorem Links.lookup_cons_self (link : Trail) (d : Option Trail) (links : Links) :
    List.lookup link ((link, d) :: links) = some d :=
  List.lookup_cons_self

theorem Links.lookup_cons_of_ne {link link' : Trail} (h : link' ≠ link) (d : Option Trail)
    (links : Links) : List.lookup link' ((link, d) :: links) = links.lookup link' := by
  rw [List.lookup_cons, beq_false_of_ne h]

namespace FileSystem
variable {fs : FileSystem}

/-- A refusal of a path that leads to a node but is too long in writing. -/
def IsOverlong (fs : FileSystem) (f : Fault) : Prop :=
  ∃ t : Trail, (fs.root.find? (t.location fs.workingDirectory)).isSome ∧
    pathLimit < t.text.utf8ByteSize ∧ f = Refusal.nameTooLong.fault t.text

/-- What is remembered of links is where they lead. -/
def Remembers (fs : FileSystem) (links : Links) : Prop :=
  ∀ (t : Trail) (c : String) (done : Trail), links.lookup (t.child c) = some (some done) →
    ∃ k, Leads fs.root (t.location fs.workingDirectory) [c] k (done.location fs.workingDirectory)

/-- Every link that is being gone through leads through more links than a given number. -/
def Within (fs : FileSystem) (links : Links) (k : Nat) : Prop :=
  ∀ (t : Trail) (c : String) (j : Nat) (there : List String), links.lookup (t.child c) = some none →
    Leads fs.root (t.location fs.workingDirectory) [c] j there → k < j

/-- How a search ends that is to arrive at a location: there, with all links remembered that it has
gone through, or with a refusal of a path that is too long. -/
inductive Arrives (fs : FileSystem) (links : Links) (there : List String) :
    Except Fault (Trail × Links) → Prop where
  | arrived {t : Trail} {links' : Links} (hlocation : t.location fs.workingDirectory = there)
      (hremembers : fs.Remembers links')
      (hopen : ∀ link, links'.lookup link = some none → links.lookup link = some none) :
      Arrives fs links there (.ok (t, links'))
  | refused {f : Fault} (hf : fs.IsOverlong f) : Arrives fs links there (.error f)

/-- A search that arrives where fewer links than a limit lead. -/
def Agrees (fs : FileSystem) (limit : Nat)
    (search : Links → Trail → List String → Except Fault (Trail × Links)) : Prop :=
  ∀ links t cs k there, k < limit → ArePlain cs →
    Leads fs.root (t.location fs.workingDirectory) cs k there → fs.Remembers links →
    fs.Within links k → fs.Arrives links there (search links t cs)

/-! ### What is remembered -/

theorem Within.mono {links : Links} {k k' : Nat} (h : fs.Within links k') (hk : k ≤ k') :
    fs.Within links k :=
  fun t c j there hlink hleads => Nat.lt_of_le_of_lt hk (h t c j there hlink hleads)

section
variable {links links' : Links} {t : Trail} {c : String} {k : Nat}

theorem Remembers.started (h : fs.Remembers links) : fs.Remembers ((t.child c, none) :: links) := by
  intro t' c' done hdone
  by_cases hlink : t'.child c' = t.child c
  · rw [hlink, Links.lookup_cons_self] at hdone
    cases hdone
  · rw [Links.lookup_cons_of_ne hlink] at hdone
    exact h t' c' done hdone

theorem Remembers.finished (h : fs.Remembers links) {done : Trail}
    (hdone : Leads fs.root (t.location fs.workingDirectory) [c] k
      (done.location fs.workingDirectory)) :
    fs.Remembers ((t.child c, some done) :: links) := by
  intro t' c' done' hdone'
  by_cases hlink : t'.child c' = t.child c
  · rw [hlink, Links.lookup_cons_self] at hdone'
    obtain rfl := Option.some.inj (Option.some.inj hdone')
    obtain ⟨rfl, rfl⟩ := Trail.child_inj hlink
    exact ⟨k, hdone⟩
  · rw [Links.lookup_cons_of_ne hlink] at hdone'
    exact h t' c' done' hdone'

/-- Going through a link leaves fewer links to follow than the link leads through. -/
theorem Within.started (h : fs.Within links k) {there : List String}
    (hleads : Leads fs.root (t.location fs.workingDirectory) [c] (k + 1) there) :
    fs.Within ((t.child c, none) :: links) k := by
  intro t' c' j there' hopen hleads'
  by_cases hlink : t'.child c' = t.child c
  · obtain ⟨rfl, rfl⟩ := Trail.child_inj hlink
    obtain ⟨rfl, -⟩ := hleads'.unique hleads
    exact Nat.lt_succ_self k
  · rw [Links.lookup_cons_of_ne hlink] at hopen
    exact h t' c' j there' hopen hleads'

theorem open_of_finished (done : Trail)
    (hopen : ∀ link, links'.lookup link = some none →
      List.lookup link ((t.child c, none) :: links) = some none) (link : Trail)
    (h : List.lookup link ((t.child c, some done) :: links') = some none) :
    links.lookup link = some none := by
  by_cases hlink : link = t.child c
  · rw [hlink, Links.lookup_cons_self] at h
    cases h
  · rw [Links.lookup_cons_of_ne hlink] at h
    have hbefore := hopen link h
    rwa [Links.lookup_cons_of_ne hlink] at hbefore

end

/-! ### Steps of the search -/

section
variable {t : Trail} {c : String} {n : Node}

theorem inspect_eq (hc : IsStep c) (hnull : hasNull c = false)
    (hnode : fs.root.find? (t.location fs.workingDirectory ++ [c]) = some n) :
    fs.inspect t c =
      if pathLimit < (t.child c).text.utf8ByteSize then
        .error (Refusal.nameTooLong.fault (t.child c).text)
      else .ok n := by
  unfold inspect
  rw [hnull, if_neg Bool.false_ne_true]
  split
  · rfl
  · rw [Node.find?_append] at hnode
    obtain ⟨d, hd, hn⟩ := Option.bind_eq_some_iff.mp hnode
    rw [hd]
    cases d with
    | file content => cases hn
    | link target => cases hn
    | directory es =>
        have hlookup : es.lookup c = some n := (Node.find?_singleton _ _).symm.trans hn
        show (if isTooLong c = true then _ else _) = _
        rw [hc.short, if_neg Bool.false_ne_true, hlookup]

theorem isOverlong_child (hnode : fs.root.find? (t.location fs.workingDirectory ++ [c]) = some n)
    (hlong : pathLimit < (t.child c).text.utf8ByteSize) :
    fs.IsOverlong (Refusal.nameTooLong.fault (t.child c).text) := by
  refine ⟨t.child c, ?_, hlong, rfl⟩
  rw [Trail.location_child, hnode]
  rfl

end

/-- A search that goes on from the end of a link arrives as one does that remembers the link. -/
theorem Arrives.behind {links : Links} {t : Trail} {c : String} {j k : Nat}
    {mid there : List String} {r : Except Fault (Trail × Links)}
    (h : fs.Arrives ((t.child c, none) :: links) mid r)
    (search : Links → Trail → Except Fault (Trail × Links))
    (halone : Leads fs.root (t.location fs.workingDirectory) [c] k mid)
    (hwithin : fs.Within links j)
    (hrest : ∀ done links', done.location fs.workingDirectory = mid → fs.Remembers links' →
      fs.Within links' j → fs.Arrives links' there (search links' done)) :
    fs.Arrives links there (r >>= fun p => search ((t.child c, some p.1) :: p.2) p.1) := by
  cases h with
  | refused hf => exact .refused hf
  | @arrived done links' hlocation hremembers hopen =>
      subst hlocation
      have hopen' := open_of_finished done hopen
      have hend := hrest done ((t.child c, some done) :: links') rfl (hremembers.finished halone)
        fun t' c' j' there' hlink hleads => hwithin t' c' j' there' (hopen' _ hlink) hleads
      show fs.Arrives links there (search ((t.child c, some done) :: links') done)
      generalize search ((t.child c, some done) :: links') done = r at hend
      cases hend with
      | refused hf => exact .refused hf
      | arrived hlocation hremembers hopen'' =>
          exact .arrived hlocation hremembers fun link h => hopen' link (hopen'' link h)

/-- A search arrives where its components lead, if going through links does. -/
theorem traceWith_agrees (hfs : fs.IsPlain) {limit : Nat}
    {enter : Links → Trail → List String → Except Fault (Trail × Links)}
    (henter : fs.Agrees limit enter) : fs.Agrees (limit + 1) (fs.traceWith enter) := by
  intro links t cs k there hk hcs hleads hlinks hwithin
  induction cs generalizing links t k with
  | nil =>
      cases hleads
      exact .arrived rfl hlinks fun _ h => h
  | cons c cs ih =>
      unfold traceWith
      cases hleads with
      | stay hdir hstay hrest =>
          rw [if_pos hstay]
          exact ih links t k hk hcs.tail hrest hlinks hwithin
      | rise hdir hrest =>
          rw [if_neg (by decide), if_pos rfl]
          refine ih links t.parent k hk hcs.tail ?_ hlinks hwithin
          rwa [Trail.location_parent]
      | @enter _ _ _ _ _ n hc hnode hlink hrest =>
          rw [if_neg hc.stays, if_neg hc.rises, inspect_eq hc hcs.head.2 hnode]
          split
          · next hlong => exact .refused (isOverlong_child hnode hlong)
          · have hend := ih links (t.child c) k hk hcs.tail
              (by rwa [Trail.location_child]) hlinks hwithin
            cases n with
            | link target => exact absurd rfl (hlink target)
            | file content => exact hend
            | directory es => exact hend
      | @follow _ _ mid _ _ target i j hc hnode htarget hrest =>
          rw [if_neg hc.stays, if_neg hc.rises, inspect_eq hc hcs.head.2 hnode]
          split
          · next hlong => exact .refused (isOverlong_child hnode hlong)
          have halone := Leads.link hc hnode htarget
          simp only [bind, Except.bind]
          cases hknown : links.lookup (t.child c) with
          | some known =>
              cases known with
              | some done =>
                  obtain ⟨k', hdone⟩ := hlinks t c done hknown
                  obtain ⟨-, rfl⟩ := halone.unique hdone
                  exact ih links done j (by omega) hcs.tail hrest hlinks
                    (hwithin.mono (by omega))
              | none =>
                  have := hwithin t c _ _ hknown halone
                  omega
          | none =>
              have hthrough := henter ((t.child c, none) :: links) (t.startOf target)
                (components target) i mid (by omega) (arePlain_components (hfs _ _ hnode))
                (by rwa [Trail.location_startOf]) hlinks.started
                ((hwithin.mono (by omega)).started halone)
              exact hthrough.behind (fun links' done => fs.traceWith enter links' done cs) halone
                (hwithin.mono (show j ≤ i + 1 + j by omega))
                fun done links' hlocation hremembers hwithin' =>
                  ih links' done j (by omega) hcs.tail (hlocation ▸ hrest) hremembers hwithin'

/-! ### The whole search -/

/-- To any depth the search arrives where no more links than that lead. -/
theorem trace_agrees (hfs : fs.IsPlain) (depth : Nat) : fs.Agrees (depth + 1) (fs.trace depth) := by
  induction depth with
  | zero => exact traceWith_agrees hfs fun _ _ _ _ _ hk => absurd hk (Nat.not_lt_zero _)
  | succ depth ih => exact traceWith_agrees hfs ih

/-- A path leads where its components lead. -/
theorem locate_eq_ok_iff {path : String} {there : List String} :
    fs.locate .reach path = .ok there ↔
      path ≠ "" ∧ path.utf8ByteSize ≤ pathLimit ∧ ∃ k ≤ linkLimit,
        Leads fs.root (startOf fs.workingDirectory path) (components path) k there := by
  rw [← walk_eq_ok_iff]
  unfold locate pathRefusal?
  by_cases hempty : path = ""
  · simp [hempty]
  · by_cases hlong : pathLimit < path.utf8ByteSize
    · simp [hempty, hlong, Nat.not_le_of_lt hlong]
    · simp [hempty, hlong, Nat.le_of_not_lt hlong]

/-- The search arrives where the path leads, or it is refused for a path that is too long. -/
theorem canonicalLocation_of_locate (hfs : fs.IsPlain) {path : String} {there : List String}
    (hpath : hasNull path = false) (h : fs.locate .reach path = .ok there) :
    fs.canonicalLocation path = .ok there ∨
      ∃ f, fs.canonicalLocation path = .error f ∧ fs.IsOverlong f := by
  obtain ⟨-, -, k, hk, hleads⟩ := locate_eq_ok_iff.mp h
  have harrives := trace_agrees hfs depthLimit [] (Trail.here.startOf path) (components path) k
    there (Nat.lt_of_le_of_lt hk (by decide)) (arePlain_components hpath)
    (by rwa [Trail.location_startOf, Trail.location_here]) (fun _ _ _ h => by cases h)
    (fun _ _ _ _ h => by cases h)
  unfold canonicalLocation
  generalize fs.trace depthLimit [] (Trail.here.startOf path) (components path) = r at harrives
  cases harrives with
  | arrived hlocation _ _ => exact .inl (congrArg Except.ok hlocation)
  | refused hf => exact .inr ⟨_, rfl, hf⟩

end FileSystem
end CodeListing
