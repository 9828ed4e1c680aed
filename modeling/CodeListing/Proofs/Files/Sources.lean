import CodeListing.Proofs.Files.Canonical
import CodeListing.Proofs.Success

/-! # Sources that are loaded

Reading and resolving agree (`Source.load_agrees`): a source that cannot be read is not loaded for
that very reason, and one that can be read is loaded under its canonical path
(`Source.IsCanonical`), unless the search for that path is refused because a path that it meets is
too long.  This does happen (`load_fails_of_overlong`). -/

namespace CodeListing

namespace FileSystem
variable {fs : FileSystem} {location : List String}

/-! ### Reading -/

/-- Where the content of a file that can be read is found. -/
theorem locate_of_read {path : String} {bytes : List UInt8} (h : fs.read path = .ok bytes) :
    ∃ location, fs.locate .reach path = .ok location ∧
      fs.root.find? location = some (.file bytes) := by
  obtain ⟨location, hlocate, h⟩ := exists_of_bind h
  refine ⟨location, hlocate, ?_⟩
  split at h
  · next content hcontent =>
      obtain rfl := Except.ok.inj h
      exact hcontent
  · cases h
  · cases h

theorem read_of_locate {path : String} {bytes : List UInt8}
    (h : fs.locate .reach path = .ok location)
    (hfile : fs.root.find? location = some (.file bytes)) : fs.read path = .ok bytes := by
  unfold read
  rw [h]
  simp only [bind, Except.bind, hfile]

theorem read_of_refused {path : String} {r : Refusal} (h : fs.locate .reach path = .error r) :
    fs.read path = .error r := by
  unfold read
  rw [h]
  rfl

theorem readText_of_refused {path : String} {r : Refusal} (hpath : hasNull path = false)
    (h : fs.read path = .error r) :
    fs.readText path = .error (.user (.unreadable path (r.fault path))) := by
  unfold readText
  rw [hpath, if_neg Bool.false_ne_true, h]

/-- A text that can be read is the text of a file, and the same under every path to the file. -/
theorem read_of_readText {path text : String} (h : fs.readText path = .ok text) :
    ∃ bytes, fs.read path = .ok bytes ∧ ∀ path', hasNull path' = false →
      fs.read path' = .ok bytes → fs.readText path' = .ok text := by
  have hpath := hasNull_of_readText h
  unfold readText at h
  rw [hpath, if_neg Bool.false_ne_true] at h
  cases hread : fs.read path with
  | error r =>
      rw [hread] at h
      cases h
  | ok bytes =>
      rw [hread] at h
      refine ⟨bytes, rfl, fun path' hpath' hread' => ?_⟩
      unfold readText
      rw [hpath', if_neg Bool.false_ne_true, hread']
      dsimp only at h ⊢
      split at h
      · cases h
      · exact h

end FileSystem

/-! ### Sources -/

namespace Source
variable {fs : FileSystem} {path text : String} {location : List String} {bytes : List UInt8}

/-- A source under the path from the root to its file.  The path has no dots in it and no link, its
last component is the name of the source, and it is canonical and leads to the same text; where it
is too long, it is refused. -/
structure IsCanonical (fs : FileSystem) (text : String) (s : Source) : Prop where
  anchor : s.path.anchor = .root
  names : AreNames s.path.parts
  name : s.path.parts.getLast? = some s.name
  direct : ∀ location target, location <+: s.path.parts →
    fs.root.find? location ≠ some (.link target)
  content : s.text = text
  canonical : s.path.text.utf8ByteSize ≤ pathLimit →
    fs.canonicalize s.path.text = .ok s.path.text ∧ fs.readText s.path.text = .ok text
  overlong : pathLimit < s.path.text.utf8ByteSize →
    (∃ f, fs.canonicalize s.path.text = .error f ∧ fs.IsOverlong f) ∧
      fs.readText s.path.text =
        .error (.user (.unreadable s.path.text (Refusal.nameTooLong.fault s.path.text)))

theorem ne_nil_of_leads {root : Node} {here : List String} {k : Nat}
    (h : Leads root here (components path) k location)
    (hfile : root.find? location = some (.file bytes)) : location ≠ [] := by
  rintro rfl
  obtain ⟨c, cs, hcs⟩ := List.exists_cons_of_ne_nil (components_ne_nil path)
  rw [hcs] at h
  have hroot := Node.isDirectory_of_find? h.isDirectory
  rw [Option.some.inj hfile] at hroot
  cases hroot

theorem isCanonical (hnames : AreNames location) (hne : location ≠ [])
    (hfile : fs.root.find? location = some (.file bytes))
    (hread : ∀ path', hasNull path' = false → fs.read path' = .ok bytes →
      fs.readText path' = .ok text) :
    IsCanonical fs text ⟨⟨.root, location⟩, location.getLast hne, text⟩ := by
  have hlink : ∀ target, Node.file bytes ≠ .link target := fun _ => Node.noConfusion
  have hnull := hasNull_rootPath hnames
  have hcanonical := FileSystem.canonicalize_rootPath hnames hne hfile hlink
  have hlocate := FileSystem.locate_rootPath hnames hne hfile hlink
  constructor
  case anchor => rfl
  case names => exact hnames
  case name => exact List.getLast?_eq_some_getLast hne
  case direct =>
    rintro here target ⟨more, rfl⟩ hhere
    obtain ⟨m, hm, hmlink⟩ := Node.direct_of_find? here hfile hlink
    exact hmlink target (Option.some.inj (hm.symm.trans hhere))
  case content => rfl
  case canonical =>
    rw [text_root]
    intro hshort
    rw [if_pos hshort] at hcanonical hlocate
    exact ⟨hcanonical, hread _ hnull (FileSystem.read_of_locate hlocate hfile)⟩
  case overlong =>
    rw [text_root]
    intro hlong
    rw [if_neg (Nat.not_le_of_lt hlong)] at hcanonical hlocate
    exact ⟨hcanonical,
      FileSystem.readText_of_refused hnull (FileSystem.read_of_refused hlocate)⟩

/-- **Reading and resolving agree.** -/
theorem load_agrees (hfs : fs.IsPlain) (hwd : AreNames fs.workingDirectory)
    (hpath : hasNull path = false) :
    match fs.readText path with
    | .error e =>
      (load fs fs.canonicalize path).result = .error e ∧ ∃ f, e = .user (.unreadable path f)
    | .ok text =>
      (∃ s, (load fs fs.canonicalize path).result = .ok s ∧ s.IsCanonical fs text) ∨
        ∃ f, fs.IsOverlong f ∧
          (load fs fs.canonicalize path).result = .error (.user (.unresolved path f)) := by
  cases hread : fs.readText path with
  | error e =>
      refine ⟨congrArg Trace.result (load_of_unread hread), ?_⟩
      rcases failure_of_readText hread with ⟨-, hnull⟩ | hf
      · rw [hpath] at hnull
        cases hnull
      · exact hf
  | ok text =>
      obtain ⟨bytes, hbytes, hsame⟩ := FileSystem.read_of_readText hread
      obtain ⟨location, hlocate, hfile⟩ := FileSystem.locate_of_read hbytes
      obtain ⟨-, -, k, -, hleads⟩ := FileSystem.locate_eq_ok_iff.mp hlocate
      have hnames : AreNames location :=
        hleads.areNames hfs (arePlain_components hpath) (areNames_startOf hwd path)
      have hne := ne_nil_of_leads hleads hfile
      rcases FileSystem.canonicalLocation_of_locate hfs hpath hlocate with
        hsearch | ⟨f, hsearch, hf⟩
      · refine .inl ⟨_, ?_, isCanonical hnames hne hfile hsame⟩
        have hresolve := FileSystem.canonicalize_of_ok hsearch
        have hlast := List.getLast?_eq_some_getLast hne
        have hname : (Path.ofText (rootPath location)).name = location.getLast hne := by
          rw [ofText_rootPath hnames hne]
          show location.getLast?.getD "" = _
          rw [hlast]
          rfl
        rw [load_of_named hread hresolve]
        · show Except.ok (Source.mk (Path.ofText (rootPath location)) _ text) = _
          rw [hname, ofText_rootPath hnames hne]
        · rw [hname]
          intro hempty
          exact (hnames _ (List.getLast_mem hne)).stays (.inl hempty)
      · refine .inr ⟨f, hf, ?_⟩
        rw [load_of_unresolved hread (FileSystem.canonicalize_of_error hsearch)]
        obtain ⟨t, -, -, rfl⟩ := hf
        rfl

end Source

/-- A file system with a link out of the working directory to a file above it. -/
def FileSystem.linked : FileSystem :=
  ⟨.directory [("d", .directory [("l", .link "../f")]), ("f", .file [120, 10])], ["d"]⟩

theorem Source.load_agrees_behind_link : ∃ s,
    (load .linked FileSystem.linked.canonicalize "l").result = .ok s ∧
      s.IsCanonical .linked "x\n" := by
  have hread : FileSystem.linked.readText "l" = .ok "x\n" := rfl
  have hresolve : FileSystem.linked.canonicalize "l" = .ok "/f" := rfl
  have hload := load_of_named hread hresolve (by decide)
  have hfs : FileSystem.linked.IsPlain := FileSystem.isPlain_of_root (by decide)
  have hagrees := load_agrees hfs (by decide) (show hasNull "l" = false by decide)
  rw [hread] at hagrees
  rcases hagrees with h | ⟨f, -, h⟩
  · exact h
  · rw [hload] at h
    cases h

/-! ### A path that is too long -/

/-- A node below a number of directories of one name. -/
def Node.buried (name : String) (n : Node) : Nat → Node
  | 0 => n
  | depth + 1 => .directory [(name, buried name n depth)]

theorem Node.find?_buried (name : String) (n : Node) (depth : Nat) (names : List String) :
    (buried name n depth).find? (List.replicate depth name ++ names) = n.find? names := by
  induction depth with
  | zero => rfl
  | succ depth ih =>
      have hchild : (buried name n (depth + 1)).child? name = some (buried name n depth) :=
        List.lookup_cons_self
      show ((buried name n (depth + 1)).child? name).bind _ = _
      rw [hchild]
      exact ih

/-- A file below `2 * half + 2` directories of one name, and a link to the middle one of them. -/
def FileSystem.deep (name : String) (half : Nat) : FileSystem where
  root := .directory
    [("s", .link ("/".intercalate (List.replicate (half + 1) name))),
      (name, Node.buried name (.directory [("f", .file [120, 10])]) (half + (half + 1)))]
  workingDirectory := []

/-- The names below the link. -/
def FileSystem.deepNames (name : String) (half : Nat) : List String :=
  List.replicate (half + 1) name ++ ["f"]

namespace FileSystem
variable {name : String} {half : Nat}

theorem areNames_deepNames (hname : IsName name) : AreNames (deepNames name half) := by
  intro c hc
  rcases List.mem_append.mp hc with hc | hc
  · rwa [(List.mem_replicate.mp hc).2]
  · obtain rfl := List.mem_singleton.mp hc
    decide

theorem find?_deep (half : Nat) (hname : name ≠ "s") :
    (deep name half).root.find? (List.replicate (half + 1) name ++ deepNames name half) =
      some (.file [120, 10]) := by
  have hchild : (deep name half).root.child? name =
      some (Node.buried name (.directory [("f", .file [120, 10])]) (half + (half + 1))) := by
    show List.lookup name [("s", _), (name, _)] = _
    rw [List.lookup_cons, beq_false_of_ne hname]
    exact List.lookup_cons_self
  unfold deepNames
  rw [List.replicate_succ, List.cons_append, ← List.append_assoc, ← List.replicate_succ,
    List.replicate_append_replicate]
  show ((deep name half).root.child? name).bind _ = _
  rw [hchild]
  exact Node.find?_buried name _ _ ["f"]

theorem find?_deep_link :
    (deep name half).root.find? ["s"] =
      some (.link ("/".intercalate (List.replicate (half + 1) name))) :=
  rfl

def middle (name : String) (half : Nat) : Trail :=
  Trail.here.append (List.replicate (half + 1) name)

def deepPath (name : String) (half : Nat) : String := "/".intercalate ("s" :: deepNames name half)

section
variable (hname : IsName name) (hne : name ≠ "s")
include hname

theorem areNames_deepPath (half : Nat) : AreNames ("s" :: deepNames name half) := by
  intro c hc
  rcases List.mem_cons.mp hc with rfl | hc
  · decide
  · exact areNames_deepNames hname c hc

theorem components_deepPath : components (deepPath name half) = "s" :: deepNames name half :=
  components_intercalate (areNames_deepPath hname half) (List.cons_ne_nil _ _)

theorem areNames_replicate (depth : Nat) : AreNames (List.replicate depth name) := by
  intro c hc
  rwa [(List.mem_replicate.mp hc).2]

theorem components_target : components ("/".intercalate (List.replicate (half + 1) name)) =
    List.replicate (half + 1) name :=
  components_intercalate (areNames_replicate hname _) (List.cons_ne_nil _ _)

theorem isAbsolute_target :
    isAbsolute ("/".intercalate (List.replicate (half + 1) name)) = false :=
  isAbsolute_intercalate (areNames_replicate hname _) (List.cons_ne_nil _ _)

theorem startOf_deepPath (here : List String) : startOf here (deepPath name half) = here := by
  unfold startOf deepPath
  rw [isAbsolute_intercalate (areNames_deepPath hname half) (List.cons_ne_nil _ _)]
  rfl

include hne

theorem leads_deepPath : Leads (deep name half).root [] ("s" :: deepNames name half) 1
    (List.replicate (half + 1) name ++ deepNames name half) := by
  have hlink : ∀ target, Node.file [120, 10] ≠ .link target := fun _ => Node.noConfusion
  obtain ⟨m, hm, hmlink⟩ := Node.direct_of_find? _ (find?_deep half hne) hlink
  refine .follow (by decide) find?_deep_link ?_
    (Leads.of_names _ (areNames_deepNames hname) (find?_deep half hne) hlink)
  rw [components_target hname]
  unfold startOf
  rw [isAbsolute_target hname, if_neg Bool.false_ne_true]
  exact Leads.of_names [] (areNames_replicate hname _) hm hmlink

theorem readText_deepPath (hshort : (deepPath name half).utf8ByteSize ≤ pathLimit) :
    (deep name half).readText (deepPath name half) = .ok "x\n" := by
  have hnull : hasNull (deepPath name half) = false :=
    hasNull_intercalate (areNames_deepPath hname half)
  have hempty : deepPath name half ≠ "" := by
    obtain ⟨x, xs, hx, -⟩ := head_intercalate (areNames_deepPath hname half)
      (List.cons_ne_nil _ _)
    intro h
    rw [show "/".intercalate _ = "" from h] at hx
    cases hx
  have hlocate : (deep name half).locate .reach (deepPath name half) =
      .ok (List.replicate (half + 1) name ++ deepNames name half) := by
    refine locate_eq_ok_iff.mpr ⟨hempty, hshort, 1, by decide, ?_⟩
    rw [startOf_deepPath hname, components_deepPath hname]
    exact leads_deepPath hname hne
  unfold readText
  rw [hnull, if_neg Bool.false_ne_true, read_of_locate hlocate (find?_deep half hne)]
  rfl

/-- The search goes through the link as far as the middle directory, and on from there to a path
that is too long. -/
theorem canonicalize_deepPath (hmid : (middle name half).text.utf8ByteSize ≤ pathLimit)
    (hlong : pathLimit < ((middle name half).append (deepNames name half)).text.utf8ByteSize) :
    ∃ f, (deep name half).canonicalize (deepPath name half) = .error f ∧
      (deep name half).IsOverlong f := by
  have hlink : ∀ target, Node.file [120, 10] ≠ .link target := fun _ => Node.noConfusion
  obtain ⟨m, hm, hmlink⟩ := Node.direct_of_find? _ (find?_deep half hne) hlink
  have hstart : Trail.here.startOf (deepPath name half) = .here := by
    unfold Trail.startOf deepPath
    rw [isAbsolute_intercalate (areNames_deepPath hname half) (List.cons_ne_nil _ _)]
    rfl
  have htarget : Trail.here.startOf ("/".intercalate (List.replicate (half + 1) name)) = .here := by
    unfold Trail.startOf
    rw [isAbsolute_target hname]
    rfl
  have htrace := (deep name half).traceWith_link ((deep name half).trace (depthLimit - 1)) []
    (t := .here) (deepNames name half) (by decide) find?_deep_link (by decide) rfl
  have henter : (deep name half).trace (depthLimit - 1) [(Trail.here.child "s", none)] .here
      (List.replicate (half + 1) name) =
        .ok (middle name half, [(Trail.here.child "s", none)]) := by
    have hnames := (deep name half).traceWith_names ((deep name half).trace (depthLimit - 2))
      [(Trail.here.child "s", none)] (t := .here) (areNames_replicate hname (half + 1)) hm hmlink
      (by decide)
    rwa [show Trail.here.append _ = middle name half from rfl, if_pos hmid] at hnames
  have hrest := (deep name half).traceWith_names ((deep name half).trace (depthLimit - 1))
    [(Trail.here.child "s", some (middle name half)), (Trail.here.child "s", none)]
    (t := middle name half) (areNames_deepNames hname)
    (by rw [middle, Trail.location_append]; exact find?_deep half hne) hlink hmid
  rw [if_neg (Nat.not_le_of_lt hlong)] at hrest
  obtain ⟨f, hf, hover⟩ := hrest
  rw [htarget, components_target hname, henter] at htrace
  refine ⟨f, canonicalize_of_error ?_, hover⟩
  have hsearch : (deep name half).trace depthLimit [] .here ("s" :: deepNames name half) =
      .error f := htrace.trans hf
  unfold canonicalLocation
  rw [hstart, components_deepPath hname, hsearch]
  rfl

end

end FileSystem

/-! ### Long names -/

def longName : String := String.ofList (List.replicate 240 'd')

theorem utf8ByteSize_longName : longName.utf8ByteSize = 240 := by
  have hall : ∀ k, (String.ofList (List.replicate k 'd')).utf8ByteSize = k := by
    intro k
    induction k with
    | zero => rfl
    | succ k ih =>
        rw [List.replicate_succ', String.ofList_append, String.utf8ByteSize_append, ih]
        rfl
  exact hall 240

theorem longName_ne {s : String} (h : s.utf8ByteSize ≠ 240) : longName ≠ s := by
  rintro rfl
  exact h utf8ByteSize_longName

theorem mem_longName {c : Char} (h : c ∈ longName.toList) : c = 'd' := by
  unfold longName at h
  rw [String.toList_ofList] at h
  exact (List.mem_replicate.mp h).2

theorem isName_longName : IsName longName where
  stays := not_or.mpr ⟨longName_ne (by decide), longName_ne (by decide)⟩
  rises := longName_ne (by decide)
  short := by
    unfold isTooLong
    rw [utf8ByteSize_longName]
    decide
  whole := fun h => absurd (mem_longName h) (by decide)
  plain := by
    unfold hasNull
    rw [decide_eq_false_iff_not]
    exact fun h => absurd (mem_longName h) (by decide)

theorem utf8ByteSize_long (k : Nat) :
    ("/".intercalate (List.replicate (k + 1) longName)).utf8ByteSize = 241 * k + 240 := by
  induction k with
  | zero => exact utf8ByteSize_longName
  | succ k ih =>
      rw [List.replicate_succ, List.replicate_succ, String.intercalate_cons_cons,
        ← List.replicate_succ, String.utf8ByteSize_append, String.utf8ByteSize_append, ih,
        utf8ByteSize_longName]
      show 240 + 1 + _ = _
      omega

open FileSystem (deep deepPath)

/-- A file that can be read is not loaded. -/
theorem load_fails_of_overlong :
    (deep longName 8).readText (deepPath longName 8) = .ok "x\n" ∧
      ∃ f, (Source.load (deep longName 8) (deep longName 8).canonicalize
        (deepPath longName 8)).result = .error (.user (.unresolved (deepPath longName 8) f)) := by
  have hshort : (deepPath longName 8).utf8ByteSize ≤ pathLimit := by
    unfold deepPath FileSystem.deepNames
    rw [← List.singleton_append, String.intercalate_append_of_ne_nil (by simp) (by simp),
      String.intercalate_append_of_ne_nil (by simp) (by simp)]
    simp only [String.utf8ByteSize_append, utf8ByteSize_long, String.intercalate_singleton]
    decide
  have hmid : (FileSystem.middle longName 8).text.utf8ByteSize ≤ pathLimit := by
    show ("/".intercalate (List.replicate 9 longName)).utf8ByteSize ≤ pathLimit
    rw [utf8ByteSize_long]
    decide
  have hlong : pathLimit < ((FileSystem.middle longName 8).append
      (FileSystem.deepNames longName 8)).text.utf8ByteSize := by
    have hbefore := utf8ByteSize_intercalate_le (List.replicate 18 longName) ["f"]
    rw [utf8ByteSize_long] at hbefore
    exact Nat.lt_of_lt_of_le (by decide) hbefore
  have hread := FileSystem.readText_deepPath isName_longName (longName_ne (by decide)) hshort
  refine ⟨hread, ?_⟩
  obtain ⟨f, hresolve, t, -, -, rfl⟩ := FileSystem.canonicalize_deepPath isName_longName
    (longName_ne (by decide)) hmid hlong
  exact ⟨_, congrArg Trace.result (load_of_unresolved hread hresolve)⟩

end CodeListing
