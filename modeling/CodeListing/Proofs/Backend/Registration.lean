import CodeListing.Backend.Native

/-! # Backends stay registered

A registry is reached from the initial one by definitions that are accepted (`Registry.Reachable`).
A definition never replaces a backend (`find?_of_define`), so the default backend of every reachable
registry is that of the host compiler (`get_defaultBackend`).

What is wrong with a definition is said once, apart from the order in which `Registry.check` finds
it out (`Registry.objections`), and all ways in which a definition ends are read off that
(`Registry.DefineEnds`, `defineEnds`).  A definition keeps what is registered sound (`Sound.after`),
so any number of them does, those that fail included (`outcomes_of_definitions`). -/

namespace CodeListing.Registry

/-- The registries that definitions lead to. -/
inductive Reachable : Registry → Prop where
  | initial : Reachable .initial
  | defined {r r' : Registry} {d : Definition} {a : Attributes} (h : Reachable r)
      (hdefine : r.define d = .ok (r', a)) : Reachable r'

/-- What can be held against a definition, in the order in which it counts: keywords that are
missing, a name that is no text or is taken, and a class that cannot be displayed. -/
def objections (r : Registry) (d : Definition) : List Misuse :=
  (if d.backendName.isNone || d.product.isNone then [.unspecified d.className d.missing] else []) ++
    (match d.backendName with
      | none => []
      | some (.text name) => if (r.find? name).isSome then [.duplicateName name] else []
      | some _ => [.nameNotText]) ++
    match d.product with
      | none => []
      | some .notType => [.notType]
      | some (.type c) => if c.isSubclassOf .artifact then [] else [.notArtifact c.name]

/-- The registry after a definition; one that fails leaves it as it was. -/
def after (r : Registry) (d : Definition) : Registry :=
  match r.define d with
  | .ok (r', _) => r'
  | .error _ => r

/-- The registry after some definitions, one after the other. -/
def afterAll (r : Registry) (ds : List Definition) : Registry := ds.foldl after r

/-- A registry in which no name is given twice, and each stands for a backend of that name whose
objects can be displayed. -/
structure Sound (r : Registry) : Prop where
  distinct : (r.entries.map Prod.fst).Nodup
  named : ∀ e ∈ r.entries, e.2.name = e.1
  displayed : ∀ e ∈ r.entries, e.2.product.isSubclassOf .artifact = true

/-- The ways in which a definition ends. -/
inductive DefineEnds (r : Registry) (d : Definition) :
    Except Failure (Registry × Attributes) → Prop where
  | repeated (keyword : String) (hextra : keyword ∈ d.extra) (hpart : keyword ∈ partNames) :
      DefineEnds r d (.error (.foreign (.repeatedPart keyword)))
  | unchecked (hextra : ∀ keyword ∈ d.extra, keyword ∉ partNames) (hbase : d.className = baseName) :
      DefineEnds r d (.ok (r, ⟨d.base.map (·.name), d.base.map (·.product)⟩))
  | refused (hextra : ∀ keyword ∈ d.extra, keyword ∉ partNames) (hbase : d.className ≠ baseName)
      (m : Misuse) (hm : (r.objections d).head? = some m) : DefineEnds r d (.error (.misuse m))
  | unmade (hextra : ∀ keyword ∈ d.extra, keyword ∉ partNames) (hbase : d.className ≠ baseName)
      (hnone : r.objections d = []) (hnull : '\x00' ∈ d.className.toList) :
      DefineEnds r d (.error (.foreign .nullInClassName))
  | registered (hextra : ∀ keyword ∈ d.extra, keyword ∉ partNames) (hbase : d.className ≠ baseName)
      (hnone : r.objections d = []) (hnull : '\x00' ∉ d.className.toList) (name : String)
      (product : Class) (hname : d.backendName = some (.text name))
      (hproduct : d.product = some (.type product)) (hnew : r.find? name = none)
      (hartifact : product.isSubclassOf .artifact = true) :
      DefineEnds r d (.ok
        (⟨r.entries ++ [(name, ⟨d.className, name, product, d.effectiveCompile⟩)]⟩,
          ⟨some name, some product⟩))

/-- When a definition ends in which way, and what it changes. -/
structure DefineContract (r : Registry) (d : Definition) : Prop where
  /-- It is a misuse for the first objection to it, if it is looked at. -/
  refused : ∀ m, r.define d = .error (.misuse m) ↔ (∀ keyword ∈ d.extra, keyword ∉ partNames) ∧
    d.className ≠ baseName ∧ (r.objections d).head? = some m
  /-- Its class cannot be made for a keyword with the name of a part, or for the null character in
  a name to which there is no objection. -/
  unmade : (∃ f, r.define d = .error (.foreign f)) ↔ (∃ keyword ∈ d.extra, keyword ∈ partNames) ∨
    d.className ≠ baseName ∧ r.objections d = [] ∧ '\x00' ∈ d.className.toList
  /-- There is no other failure, and none changes the registry. -/
  failed : ∀ e, r.define d = .error e →
    ((∃ m, e = .misuse m) ∨ ∃ f, e = .foreign f) ∧ r.after d = r
  /-- Otherwise it adds one backend under a new name, or nothing if its class is not registered. -/
  accepted : ∀ r' a, r.define d = .ok (r', a) → r.after d = r' ∧
    (d.className = baseName ∧ r' = r ∨ d.className ≠ baseName ∧ ∃ name b,
      d.backendName = some (.text name) ∧ d.product = some (.type b.product) ∧
        b.className = d.className ∧ r.find? name = none ∧ r'.entries = r.entries ++ [(name, b)])

variable {r r' : Registry} {d : Definition}

/-! ### Objections -/

/-- The first objection is the one that is found.  Without any, a definition gives a new name and a
class that can be displayed. -/
theorem check_cases (r : Registry) (d : Definition) :
    (∃ m, (r.objections d).head? = some m ∧ r.check d = .error m) ∨
      ∃ name product, d.backendName = some (.text name) ∧ d.product = some (.type product) ∧
        r.find? name = none ∧ product.isSubclassOf .artifact = true ∧ r.objections d = [] ∧
        r.check d = .ok (name, product) := by
  unfold objections check
  cases hname : d.backendName with
  | none => exact .inl ⟨.unspecified d.className d.missing, by simp, by simp⟩
  | some v =>
      cases hproduct : d.product with
      | none => exact .inl ⟨.unspecified d.className d.missing, by simp, by simp⟩
      | some offered =>
          cases v with
          | text name =>
              cases hfind : r.find? name with
              | some b => exact .inl ⟨.duplicateName name, by simp [hfind], by simp [hfind]⟩
              | none =>
                  cases offered with
                  | notType => exact .inl ⟨.notType, by simp [hfind], by simp [hfind]⟩
                  | type c =>
                      by_cases hc : c.isSubclassOf .artifact = true
                      · exact .inr ⟨name, c, rfl, rfl, hfind, hc, by simp [hfind, hc],
                          by simp [hfind, hc]⟩
                      · exact .inl ⟨.notArtifact c.name, by simp [hfind, hc], by simp [hfind, hc]⟩
          | _ => exact .inl ⟨.nameNotText, by simp, by simp⟩

/-- Every definition ends in one of the ways. -/
theorem defineEnds (r : Registry) (d : Definition) : DefineEnds r d (r.define d) := by
  unfold define
  split
  · next keyword hfind =>
      have hpart := List.find?_some hfind
      exact .repeated keyword (List.mem_of_find?_eq_some hfind) (List.contains_iff_mem.mp hpart)
  · next hfind =>
      have hextra : ∀ keyword ∈ d.extra, keyword ∉ partNames := by
        intro keyword hkeyword hpart
        exact List.find?_eq_none.mp hfind keyword hkeyword (List.contains_iff_mem.mpr hpart)
      by_cases hbase : d.className = baseName
      · rw [if_pos hbase]
        exact .unchecked hextra hbase
      · rw [if_neg hbase]
        rcases r.check_cases d with
          ⟨m, hm, hcheck⟩ | ⟨name, product, hname, hproduct, hnew, hartifact, hnone, hcheck⟩
        · rw [hcheck]
          exact .refused hextra hbase m hm
        · rw [hcheck]
          dsimp only [register]
          by_cases hnull : '\x00' ∈ d.className.toList
          · rw [if_pos hnull]
            exact .unmade hextra hbase hnone hnull
          · rw [if_neg hnull]
            exact .registered hextra hbase hnone hnull name product hname hproduct hnew hartifact

/-! ### One definition -/

theorem after_of_ok {a : Attributes} (h : r.define d = .ok (r', a)) : r.after d = r' := by
  unfold after
  rw [h]

theorem after_of_error {e : Failure} (h : r.define d = .error e) : r.after d = r := by
  unfold after
  rw [h]

theorem find?_append (r : Registry) (e : String × Backend) {name : String} {b : Backend}
    (h : r.find? name = some b) : find? ⟨r.entries ++ [e]⟩ name = some b := by
  unfold find? at h ⊢
  rw [List.lookup_append, h]
  rfl

theorem find?_of_define {a : Attributes} {name : String} {b : Backend}
    (h : r.find? name = some b) (hdefine : r.define d = .ok (r', a)) : r'.find? name = some b := by
  have hends := defineEnds r d
  rw [hdefine] at hends
  cases hends with
  | unchecked => exact h
  | registered => exact r.find?_append _ h

theorem find?_after {name : String} {b : Backend} (h : r.find? name = some b) :
    (r.after d).find? name = some b := by
  cases hdefine : r.define d with
  | error e => rwa [after_of_error hdefine]
  | ok p =>
      rw [after_of_ok hdefine]
      exact find?_of_define h hdefine

theorem find?_of_reachable (h : r.Reachable) : r.find? defaultBackend = some Native.backend := by
  induction h with
  | initial => rfl
  | defined _ hdefine ih => exact find?_of_define ih hdefine

theorem get_defaultBackend (h : r.Reachable) : r.get defaultBackend = .ok Native.backend := by
  unfold get
  rw [find?_of_reachable h]

theorem not_mem_of_find?_eq_none {name : String} (h : r.find? name = none) :
    name ∉ r.entries.map Prod.fst := by
  intro hmem
  obtain ⟨e, he, rfl⟩ := List.mem_map.mp hmem
  exact bne_iff_ne.mp (List.lookup_eq_none_iff.mp h e he) rfl

/-- A sound registry stays so when a backend is registered under its own new name. -/
theorem Sound.append (h : r.Sound) {b : Backend} (hnew : r.find? b.name = none)
    (hartifact : b.product.isSubclassOf .artifact = true) :
    Sound ⟨r.entries ++ [(b.name, b)]⟩ := by
  constructor
  case distinct =>
    rw [List.map_append, List.map_singleton, List.nodup_append]
    refine ⟨h.distinct, List.pairwise_singleton .., ?_⟩
    rintro name hname other hother rfl
    obtain rfl := List.mem_singleton.mp hother
    exact not_mem_of_find?_eq_none hnew hname
  case named =>
    intro e he
    rcases List.mem_append.mp he with he | he
    · exact h.named e he
    · obtain rfl := List.mem_singleton.mp he
      rfl
  case displayed =>
    intro e he
    rcases List.mem_append.mp he with he | he
    · exact h.displayed e he
    · obtain rfl := List.mem_singleton.mp he
      exact hartifact

/-- A definition keeps a registry sound, whether it is accepted or not. -/
theorem Sound.after (h : r.Sound) (d : Definition) : (r.after d).Sound := by
  cases hdefine : r.define d with
  | error e => rwa [after_of_error hdefine]
  | ok p =>
      rw [after_of_ok hdefine]
      have hends := defineEnds r d
      rw [hdefine] at hends
      cases hends with
      | unchecked => exact h
      | registered _ _ _ _ name product _ _ hnew hartifact =>
          exact h.append (b := ⟨d.className, name, product, d.effectiveCompile⟩) hnew hartifact

theorem defineContract (r : Registry) (d : Definition) : DefineContract r d := by
  have hends := defineEnds r d
  constructor
  case refused =>
    intro m
    constructor
    · intro h
      rw [h] at hends
      cases hends with
      | refused hextra hbase _ hm => exact ⟨hextra, hbase, hm⟩
    · rintro ⟨hextra, hbase, hm⟩
      generalize r.define d = result at hends
      cases hends with
      | repeated keyword hkeyword hpart => exact absurd hpart (hextra keyword hkeyword)
      | unchecked _ hbase' => exact absurd hbase' hbase
      | refused _ _ m' hm' => rw [Option.some.inj (hm'.symm.trans hm)]
      | unmade _ _ hnone | registered _ _ hnone =>
          rw [hnone] at hm
          cases hm
  case unmade =>
    constructor
    · rintro ⟨f, h⟩
      rw [h] at hends
      cases hends with
      | repeated keyword hkeyword hpart => exact .inl ⟨keyword, hkeyword, hpart⟩
      | unmade _ hbase hnone hnull => exact .inr ⟨hbase, hnone, hnull⟩
    · intro h
      generalize r.define d = result at hends
      cases hends with
      | repeated | unmade => exact ⟨_, rfl⟩
      | unchecked hextra hbase =>
          rcases h with ⟨keyword, hkeyword, hpart⟩ | ⟨hbase', -⟩
          · exact absurd hpart (hextra keyword hkeyword)
          · exact absurd hbase hbase'
      | refused hextra _ m hm =>
          rcases h with ⟨keyword, hkeyword, hpart⟩ | ⟨-, hnone, -⟩
          · exact absurd hpart (hextra keyword hkeyword)
          · rw [hnone] at hm
            cases hm
      | registered hextra _ _ hnull =>
          rcases h with ⟨keyword, hkeyword, hpart⟩ | ⟨-, -, hnull'⟩
          · exact absurd hpart (hextra keyword hkeyword)
          · exact absurd hnull' hnull
  case failed =>
    intro e h
    refine ⟨?_, after_of_error h⟩
    rw [h] at hends
    cases hends with
    | repeated | unmade => exact .inr ⟨_, rfl⟩
    | refused _ _ m => exact .inl ⟨m, rfl⟩
  case accepted =>
    intro r' a h
    refine ⟨after_of_ok h, ?_⟩
    rw [h] at hends
    cases hends with
    | unchecked _ hbase => exact .inl ⟨hbase, rfl⟩
    | registered _ hbase _ _ name product hname hproduct hnew =>
        exact .inr ⟨hbase, name, _, hname, hproduct, rfl, hnew, rfl⟩

/-! ### Any number of definitions -/

theorem sound_initial : Registry.initial.Sound := by
  constructor
  case distinct => exact List.pairwise_singleton ..
  case named => decide
  case displayed => decide

theorem Sound.afterAll (h : r.Sound) (ds : List Definition) : (r.afterAll ds).Sound := by
  induction ds generalizing r with
  | nil => exact h
  | cons d ds ih => exact ih (h.after d)

theorem find?_afterAll {name : String} {b : Backend} (h : r.find? name = some b)
    (ds : List Definition) : (r.afterAll ds).find? name = some b := by
  induction ds generalizing r with
  | nil => exact h
  | cons d ds ih => exact ih (find?_after h)

theorem mem_of_find? {name : String} {b : Backend} (h : r.find? name = some b) :
    (name, b) ∈ r.entries := by
  obtain ⟨before, behind, hentries, -⟩ := List.lookup_eq_some_iff.mp h
  rw [hentries]
  exact List.mem_append_right _ List.mem_cons_self

/-- **Registered backends stay.**  After any definitions, those that failed included, no name is
given twice, and each stands for a backend of that name whose objects can be displayed.  Further
definitions change nothing about that, and each of them fails for the first objection to it and
leaves the registry as it is, or adds one backend under a new name; only a class called `baseName`
is neither looked at nor registered.  For a keyword with the name of a part, and for the null
character in the name of the class, no class is made. -/
theorem outcomes_of_definitions (ds : List Definition) :
    let r := Registry.initial.afterAll ds
    (r.entries.map Prod.fst).Nodup ∧
      (∀ name b, r.find? name = some b →
        b.name = name ∧ b.product.isSubclassOf .artifact = true) ∧
      (∀ more name b, r.find? name = some b → (r.afterAll more).find? name = some b) ∧
      ∀ d, DefineContract r d := by
  intro r
  have hsound : r.Sound := sound_initial.afterAll ds
  refine ⟨hsound.distinct, ?_, fun more name b h => find?_afterAll h more, r.defineContract⟩
  intro name b h
  have hmem := mem_of_find? h
  exact ⟨hsound.named _ hmem, hsound.displayed _ hmem⟩

/-- There is no objection to a backend called `named`, but its class is made with neither a keyword
that is called `name` nor a null character in its own name. -/
theorem unmade_without_objection :
    let named : Option Value := some (.text "named")
    let d : Definition := ⟨"Named", named, some (.type .artifact), ["name"], none, none⟩
    let e : Definition := ⟨"Na\x00med", named, some (.type .artifact), [], none, none⟩
    Registry.initial.objections d = [] ∧
      Registry.initial.define d = .error (.foreign (.repeatedPart "name")) ∧
      Registry.initial.objections e = [] ∧
      Registry.initial.define e = .error (.foreign .nullInClassName) :=
  ⟨rfl, rfl, rfl, rfl⟩

end CodeListing.Registry
