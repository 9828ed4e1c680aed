import CodeListing.Proofs.Files.Agreement

/-! # Canonical paths

The canonical form of a path is the path from the root to the location that it leads to
(`rootPath`).  Its components are the names of the location (`components_rootPath`), and between the
root and a node that is no link there is no link either (`Node.direct_of_find?`).  So the path leads
to that very location (`FileSystem.locate_rootPath`) and is canonical already
(`FileSystem.canonicalize_rootPath`), unless it is too long. -/

namespace CodeListing

/-- The path from the root to a location. -/
def rootPath (location : List String) : String := "/" ++ "/".intercalate location

section
variable {location : List String}

theorem isAbsolute_rootPath (location : List String) : isAbsolute (rootPath location) = true := by
  unfold isAbsolute rootPath
  rw [String.toList_append]
  rfl

theorem rootPath_ne_empty (location : List String) : rootPath location ≠ "" := by
  intro h
  have habsolute := isAbsolute_rootPath location
  rw [h] at habsolute
  cases habsolute

theorem components_intercalate (hnames : AreNames location) (hne : location ≠ []) :
    components ("/".intercalate location) = location := by
  have hsplit : cut '/' (['/'].intercalate (location.map String.toList)) =
      location.map String.toList := by
    rw [cut_eq_splitOn]
    refine List.splitOn_intercalate '/' (fun cs hcs => ?_) (mt List.map_eq_nil_iff.mp hne)
    obtain ⟨c, hc, rfl⟩ := List.mem_map.mp hcs
    exact (hnames c hc).whole
  have hchars : ("/".intercalate location).toList =
      ['/'].intercalate (location.map String.toList) := String.toList_intercalate
  unfold components
  rw [hchars, hsplit, List.map_map]
  exact (List.map_congr_left fun c _ => String.ofList_toList).trans (List.map_id _)

theorem components_slash (path : String) : components ("/" ++ path) = "" :: components path := by
  unfold components
  rw [String.toList_append]
  rfl

theorem components_rootPath (hnames : AreNames location) (hne : location ≠ []) :
    components (rootPath location) = "" :: location := by
  unfold rootPath
  rw [components_slash, components_intercalate hnames hne]

theorem hasNull_intercalate (hnames : AreNames location) :
    hasNull ("/".intercalate location) = false := by
  unfold hasNull
  rw [decide_eq_false_iff_not]
  induction location with
  | nil => exact List.not_mem_nil
  | cons c cs ih =>
      have hc : '\x00' ∉ c.toList := by
        have hplain := (hnames c List.mem_cons_self).plain
        unfold hasNull at hplain
        exact decide_eq_false_iff_not.mp hplain
      have hcs := ih fun d hd => hnames d (List.mem_cons_of_mem c hd)
      cases cs with
      | nil =>
          rw [String.intercalate_singleton]
          exact hc
      | cons d ds =>
          rw [String.intercalate_cons_cons, String.toList_append, String.toList_append,
            List.mem_append, not_or, List.mem_append, not_or]
          exact ⟨⟨hc, by decide⟩, hcs⟩

theorem hasNull_rootPath (hnames : AreNames location) : hasNull (rootPath location) = false := by
  have hrest := hasNull_intercalate hnames
  unfold hasNull at hrest ⊢
  unfold rootPath
  rw [decide_eq_false_iff_not] at hrest ⊢
  rw [String.toList_append, List.mem_append, not_or]
  exact ⟨by decide, hrest⟩

theorem head_intercalate (hnames : AreNames location) (hne : location ≠ []) :
    ∃ x xs, ("/".intercalate location).toList = x :: xs ∧ x ≠ '/' := by
  obtain ⟨c, cs, rfl⟩ := List.exists_cons_of_ne_nil hne
  have hc := hnames c List.mem_cons_self
  obtain ⟨x, xs, hx⟩ := List.exists_cons_of_ne_nil (l := c.toList) fun h =>
    hc.stays (.inl (String.toList_eq_nil_iff.mp h))
  refine ⟨x, ?_⟩
  have hslash : x ≠ '/' := by
    rintro rfl
    exact hc.whole (hx ▸ List.mem_cons_self)
  cases cs with
  | nil => exact ⟨xs, by rw [String.intercalate_singleton, hx], hslash⟩
  | cons d ds =>
      have hrest : ("/".intercalate (c :: d :: ds)).toList =
          x :: (xs ++ '/' :: ("/".intercalate (d :: ds)).toList) := by
        rw [String.intercalate_cons_cons, String.toList_append, String.toList_append, hx]
        simp
      exact ⟨_, hrest, hslash⟩

theorem isAbsolute_intercalate (hnames : AreNames location) (hne : location ≠ []) :
    isAbsolute ("/".intercalate location) = false := by
  obtain ⟨x, xs, hx, hslash⟩ := head_intercalate hnames hne
  unfold isAbsolute
  rw [hx, List.head?_cons]
  simpa using hslash

theorem ofText_rootPath (hnames : AreNames location) (hne : location ≠ []) :
    Path.ofText (rootPath location) = ⟨.root, location⟩ := by
  have hanchor : Path.anchorOf (rootPath location) = .root := by
    obtain ⟨x, xs, hx, hslash⟩ := head_intercalate hnames hne
    have hchars : (rootPath location).toList = '/' :: x :: xs := by
      unfold rootPath
      rw [String.toList_append, hx]
      rfl
    unfold Path.anchorOf
    rw [hchars, List.takeWhile_cons_of_pos (by decide),
      List.takeWhile_cons_of_neg (by simpa using hslash)]
    rfl
  unfold Path.ofText
  rw [hanchor, components_rootPath hnames hne]
  congr 1
  refine (List.filter_cons_of_neg (by decide)).trans (List.filter_eq_self.mpr fun c hc => ?_)
  have hstays := (hnames c hc).stays
  rw [not_or] at hstays
  simp [hstays.1, hstays.2]

theorem text_root (location : List String) :
    (Path.mk .root location).text = rootPath location := by
  show (if rootPath location = "" then "." else rootPath location) = _
  rw [if_neg (rootPath_ne_empty location)]

end

/-! ### Trails on which names follow -/

theorem utf8ByteSize_intercalate_le (names more : List String) :
    ("/".intercalate names).utf8ByteSize ≤ ("/".intercalate (names ++ more)).utf8ByteSize := by
  by_cases hnames : names = []
  · rw [hnames, String.intercalate_nil]
    exact Nat.zero_le _
  · by_cases hmore : more = []
    · exact Nat.le_of_eq (by rw [hmore, List.append_nil])
    · rw [String.intercalate_append_of_ne_nil hnames hmore, String.utf8ByteSize_append,
        String.utf8ByteSize_append]
      omega

namespace Trail
variable (t : Trail) (names : List String)

def append : Trail := ⟨t.up?, t.names ++ names⟩

theorem append_nil : t.append [] = t := by
  unfold append
  rw [List.append_nil]

theorem append_cons (c : String) : t.append (c :: names) = (t.child c).append names := by
  unfold append child
  rw [List.append_cons]

theorem location_append (workingDirectory : List String) :
    (t.append names).location workingDirectory = t.location workingDirectory ++ names := by
  induction names generalizing t with
  | nil => rw [append_nil, List.append_nil]
  | cons c cs ih => rw [append_cons, ih, location_child, List.append_assoc, List.singleton_append]

/-- More names make a trail no shorter in writing. -/
theorem utf8ByteSize_text_le :
    t.text.utf8ByteSize ≤ (t.append names).text.utf8ByteSize := by
  unfold append text
  cases t.up? with
  | none =>
      show ("/" ++ _).utf8ByteSize ≤ ("/" ++ _).utf8ByteSize
      rw [String.utf8ByteSize_append, String.utf8ByteSize_append]
      exact Nat.add_le_add_left (utf8ByteSize_intercalate_le t.names names) _
  | some k =>
      show ("/".intercalate _).utf8ByteSize ≤ ("/".intercalate (_ ++ _)).utf8ByteSize
      rw [← List.append_assoc]
      exact utf8ByteSize_intercalate_le _ names

end Trail

/-! ### The way from the root -/

/-- Between the root and a node that is no link there is no link. -/
theorem Node.direct_of_find? {root n : Node} (here : List String) {more : List String}
    (h : root.find? (here ++ more) = some n) (hlink : ∀ target, n ≠ .link target) :
    ∃ m, root.find? here = some m ∧ ∀ target, m ≠ .link target := by
  rw [find?_append] at h
  obtain ⟨m, hm, hn⟩ := Option.bind_eq_some_iff.mp h
  refine ⟨m, hm, ?_⟩
  rintro target rfl
  cases more with
  | nil =>
      obtain rfl := Option.some.inj hn
      exact hlink target rfl
  | cons c cs => cases hn

/-- Names lead to the node that is found under them, and through no link. -/
theorem Leads.of_names {root n : Node} (here : List String) {names : List String}
    (hnames : AreNames names) (h : root.find? (here ++ names) = some n)
    (hlink : ∀ target, n ≠ .link target) :
    Leads root here names 0 (here ++ names) := by
  induction names generalizing here with
  | nil =>
      rw [List.append_nil]
      exact .done here
  | cons c cs ih =>
      rw [List.append_cons] at h ⊢
      obtain ⟨m, hm, hmlink⟩ := Node.direct_of_find? (here ++ [c]) h hlink
      exact .enter (hnames c List.mem_cons_self).toIsStep hm hmlink
        (ih (here ++ [c]) (fun d hd => hnames d (List.mem_cons_of_mem c hd)) h)

namespace FileSystem
variable {fs : FileSystem} {location : List String} {n : Node}

/-- Along names the search goes on to the node that is found under them, unless its path is too
long. -/
theorem traceWith_names (fs : FileSystem)
    (enter : Links → Trail → List String → Except Fault (Trail × Links)) (links : Links) {n : Node}
    {t : Trail} {names : List String} (hnames : AreNames names)
    (h : fs.root.find? (t.location fs.workingDirectory ++ names) = some n)
    (hlink : ∀ target, n ≠ .link target) (ht : t.text.utf8ByteSize ≤ pathLimit) :
    if (t.append names).text.utf8ByteSize ≤ pathLimit then
      fs.traceWith enter links t names = .ok (t.append names, links)
    else ∃ f, fs.traceWith enter links t names = .error f ∧ fs.IsOverlong f := by
  induction names generalizing t with
  | nil =>
      rw [Trail.append_nil, if_pos ht]
      rfl
  | cons c cs ih =>
      have hc := hnames c List.mem_cons_self
      rw [List.append_cons] at h
      rw [Trail.append_cons]
      obtain ⟨m, hm, hmlink⟩ := Node.direct_of_find? _ h hlink
      unfold traceWith
      rw [if_neg hc.stays, if_neg hc.rises, inspect_eq hc.toIsStep hc.plain hm]
      by_cases hlong : pathLimit < (t.child c).text.utf8ByteSize
      · rw [if_pos hlong, if_neg (Nat.not_le_of_lt
          (Nat.lt_of_lt_of_le hlong ((t.child c).utf8ByteSize_text_le cs)))]
        exact ⟨_, rfl, isOverlong_child hm hlong⟩
      · rw [if_neg hlong]
        have hend := ih (t := t.child c) (fun d hd => hnames d (List.mem_cons_of_mem c hd))
          (by rwa [Trail.location_child]) (Nat.le_of_not_lt hlong)
        cases m with
        | link target => exact absurd rfl (hmlink target)
        | file content => exact hend
        | directory es => exact hend

/-- A link that is new is gone through, and the search goes on from its end. -/
theorem traceWith_link (fs : FileSystem)
    (enter : Links → Trail → List String → Except Fault (Trail × Links)) (links : Links)
    {t : Trail} {c target : String} (cs : List String) (hc : IsName c)
    (hnode : fs.root.find? (t.location fs.workingDirectory ++ [c]) = some (.link target))
    (hshort : (t.child c).text.utf8ByteSize ≤ pathLimit)
    (hnew : links.lookup (t.child c) = none) :
    fs.traceWith enter links t (c :: cs) =
      enter ((t.child c, none) :: links) (t.startOf target) (components target) >>= fun there =>
        fs.traceWith enter ((t.child c, some there.1) :: there.2) there.1 cs := by
  rw [traceWith, if_neg hc.stays, if_neg hc.rises, inspect_eq hc.toIsStep hc.plain hnode,
    if_neg (Nat.not_lt_of_le hshort)]
  simp only [bind, Except.bind, hnew]

theorem canonicalize_of_ok {path : String} (h : fs.canonicalLocation path = .ok location) :
    fs.canonicalize path = .ok (rootPath location) := by
  unfold canonicalize
  rw [h]
  rfl

theorem canonicalize_of_error {path : String} {f : Fault}
    (h : fs.canonicalLocation path = .error f) : fs.canonicalize path = .error f := by
  unfold canonicalize
  rw [h]
  rfl

section
variable (hnames : AreNames location) (hne : location ≠ [])
  (hnode : fs.root.find? location = some n) (hlink : ∀ target, n ≠ .link target)
include hnames hne hnode hlink

/-- The path from the root to a node that is no link is canonical, unless it is too long. -/
theorem canonicalize_rootPath :
    if (rootPath location).utf8ByteSize ≤ pathLimit then
      fs.canonicalize (rootPath location) = .ok (rootPath location)
    else ∃ f, fs.canonicalize (rootPath location) = .error f ∧ fs.IsOverlong f := by
  have htrace := fs.traceWith_names (fs.trace (depthLimit - 1)) [] (t := .root) hnames hnode hlink
    (by decide)
  have hsearch : fs.trace depthLimit [] (Trail.here.startOf (rootPath location))
      (components (rootPath location)) =
        fs.traceWith (fs.trace (depthLimit - 1)) [] .root location := by
    rw [components_rootPath hnames hne, Trail.startOf, isAbsolute_rootPath, if_pos rfl]
    rfl
  rw [show (Trail.root.append location).text = rootPath location from rfl] at htrace
  by_cases hshort : (rootPath location).utf8ByteSize ≤ pathLimit
  · rw [if_pos hshort] at htrace ⊢
    refine canonicalize_of_ok ?_
    unfold canonicalLocation
    rw [hsearch, htrace]
    rfl
  · rw [if_neg hshort] at htrace ⊢
    obtain ⟨f, hf, hover⟩ := htrace
    refine ⟨f, canonicalize_of_error ?_, hover⟩
    unfold canonicalLocation
    rw [hsearch, hf]
    rfl

theorem locate_rootPath :
    fs.locate .reach (rootPath location) =
      if (rootPath location).utf8ByteSize ≤ pathLimit then .ok location
      else .error .nameTooLong := by
  have hroot : (fs.root.find? []).any Node.isDirectory = true := by
    obtain ⟨c, cs, rfl⟩ := List.exists_cons_of_ne_nil hne
    obtain ⟨m, hm, -⟩ := Node.direct_of_find? [c] hnode hlink
    exact @Node.isDirectory_of_find?_append fs.root m [] c hm
  have hleads : Leads fs.root [] ("" :: location) 0 location :=
    .stay hroot (.inl rfl) (Leads.of_names [] hnames hnode hlink)
  by_cases hshort : (rootPath location).utf8ByteSize ≤ pathLimit
  · rw [if_pos hshort]
    refine locate_eq_ok_iff.mpr ⟨rootPath_ne_empty location, hshort, 0, Nat.zero_le _, ?_⟩
    rwa [startOf, isAbsolute_rootPath, if_pos rfl, components_rootPath hnames hne]
  · unfold locate pathRefusal?
    rw [if_neg hshort, if_neg (rootPath_ne_empty location), if_pos (Nat.lt_of_not_le hshort)]

end

end FileSystem
end CodeListing
