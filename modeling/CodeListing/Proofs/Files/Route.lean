import CodeListing.Proofs.Files.Resolution

/-! # Where components lead

`Leads` says from which location to which other some components lead, and through how many links.
It goes through a link as a whole: first through the components of its target, and from where these
end through the components that remain.  A walk does otherwise, it puts the components of the target
in front of those that remain; but components that follow one another lead on from one another
(`Leads.append`, `Leads.split`), so a walk reaches a location just if the components lead there
through no more links than it is allowed (`walk_eq_ok_iff`).  There is at most one such location and
one such number (`Leads.unique`).

Every name on the way is that of a node (`IsName`), so from a location of such names only such
locations are reached (`Leads.areNames`). -/

namespace CodeListing

/-- A component that is looked up in a directory. -/
structure IsStep (c : String) : Prop where
  stays : ¬ (c = "" ∨ c = ".")
  rises : c ≠ ".."
  short : isTooLong c = false

/-- The name of a node. -/
structure IsName (c : String) : Prop extends IsStep c where
  whole : '/' ∉ c.toList
  plain : hasNull c = false

instance (c : String) : Decidable (IsStep c) :=
  decidable_of_iff (¬ (c = "" ∨ c = ".") ∧ c ≠ ".." ∧ isTooLong c = false)
    ⟨fun ⟨stays, rises, short⟩ => ⟨stays, rises, short⟩,
      fun ⟨stays, rises, short⟩ => ⟨stays, rises, short⟩⟩

instance (c : String) : Decidable (IsName c) :=
  decidable_of_iff (IsStep c ∧ '/' ∉ c.toList ∧ hasNull c = false)
    ⟨fun ⟨step, whole, plain⟩ => ⟨step, whole, plain⟩,
      fun ⟨step, whole, plain⟩ => ⟨step, whole, plain⟩⟩

/-- From where to where some components lead, and through how many links. -/
inductive Leads (root : Node) : List String → List String → Nat → List String → Prop where
  | done (here : List String) : Leads root here [] 0 here
  | stay {here cs there : List String} {c : String} {k : Nat}
      (hdir : (root.find? here).any Node.isDirectory = true) (hc : c = "" ∨ c = ".")
      (hrest : Leads root here cs k there) : Leads root here (c :: cs) k there
  | rise {here cs there : List String} {k : Nat}
      (hdir : (root.find? here).any Node.isDirectory = true)
      (hrest : Leads root here.dropLast cs k there) : Leads root here (".." :: cs) k there
  | enter {here cs there : List String} {c : String} {k : Nat} {n : Node} (hc : IsStep c)
      (hnode : root.find? (here ++ [c]) = some n) (hlink : ∀ target, n ≠ .link target)
      (hrest : Leads root (here ++ [c]) cs k there) : Leads root here (c :: cs) k there
  | follow {here cs mid there : List String} {c target : String} {i j : Nat} (hc : IsStep c)
      (hnode : root.find? (here ++ [c]) = some (.link target))
      (htarget : Leads root (startOf here target) (components target) i mid)
      (hrest : Leads root mid cs j there) : Leads root here (c :: cs) (i + 1 + j) there

theorem isStep_not_dots : ¬ IsStep ".." := fun h => h.rises rfl

namespace Node

theorem find?_singleton (n : Node) (name : String) : n.find? [name] = n.child? name := by
  show (n.child? name).bind some = n.child? name
  cases n.child? name <;> rfl

/-- Only a directory has a node under a name. -/
theorem isDirectory_of_find?_append {root n : Node} {here : List String} {c : String}
    (h : root.find? (here ++ [c]) = some n) : (root.find? here).any isDirectory = true := by
  rw [find?_append] at h
  obtain ⟨d, hd, hn⟩ := Option.bind_eq_some_iff.mp h
  rw [hd]
  cases d with
  | directory es => rfl
  | file content => cases hn
  | link target => cases hn

theorem isDirectory_of_find? {root : Node} {here : List String}
    (h : (root.find? here).any isDirectory = true) : root.isDirectory = true := by
  cases here with
  | nil => exact h
  | cons c cs =>
      cases root with
      | directory es => rfl
      | file content => cases h
      | link target => cases h

end Node

namespace Leads
variable {root : Node} {here mid there there' cs ds : List String} {c target : String}
  {i j k k' : Nat}

/-! ### Components that follow one another -/

theorem append (h : Leads root here cs i mid) (h' : Leads root mid ds j there) :
    Leads root here (cs ++ ds) (i + j) there := by
  induction h with
  | done here => simpa using h'
  | stay hdir hc _ ih => exact .stay hdir hc (ih h')
  | rise hdir _ ih => exact .rise hdir (ih h')
  | enter hc hnode hlink _ ih => exact .enter hc hnode hlink (ih h')
  | follow hc hnode htarget _ _ ih =>
      rw [Nat.add_assoc]
      exact .follow hc hnode htarget (ih h')

theorem split (h : Leads root here (cs ++ ds) k there) :
    ∃ i j mid, Leads root here cs i mid ∧ Leads root mid ds j there ∧ k = i + j := by
  induction cs generalizing here k with
  | nil => exact ⟨0, k, here, .done here, h, (Nat.zero_add k).symm⟩
  | cons c cs ih =>
      cases h with
      | stay hdir hc hrest =>
          obtain ⟨i, j, mid, hi, hj, rfl⟩ := ih hrest
          exact ⟨i, j, mid, .stay hdir hc hi, hj, rfl⟩
      | rise hdir hrest =>
          obtain ⟨i, j, mid, hi, hj, rfl⟩ := ih hrest
          exact ⟨i, j, mid, .rise hdir hi, hj, rfl⟩
      | enter hc hnode hlink hrest =>
          obtain ⟨i, j, mid, hi, hj, rfl⟩ := ih hrest
          exact ⟨i, j, mid, .enter hc hnode hlink hi, hj, rfl⟩
      | @follow _ _ _ _ _ _ l _ hc hnode htarget hrest =>
          obtain ⟨i, j, mid, hi, hj, rfl⟩ := ih hrest
          exact ⟨l + 1 + i, j, mid, .follow hc hnode htarget hi, hj, (Nat.add_assoc ..).symm⟩

theorem link (hc : IsStep c) (hnode : root.find? (here ++ [c]) = some (.link target))
    (htarget : Leads root (startOf here target) (components target) i mid) :
    Leads root here [c] (i + 1) mid :=
  .follow hc hnode htarget (.done mid)

/-- Components lead on from a directory only. -/
theorem isDirectory (h : Leads root here (c :: cs) k there) :
    (root.find? here).any Node.isDirectory = true := by
  cases h with
  | stay hdir _ _ => exact hdir
  | rise hdir _ => exact hdir
  | enter _ hnode _ _ => exact Node.isDirectory_of_find?_append hnode
  | follow _ hnode _ _ => exact Node.isDirectory_of_find?_append hnode

/-! ### Where a walk arrives -/

/-- Components lead to one location at most, and through one number of links. -/
theorem unique (h : Leads root here cs k there) (h' : Leads root here cs k' there') :
    k = k' ∧ there = there' := by
  induction h generalizing k' there' with
  | done here =>
      cases h'
      exact ⟨rfl, rfl⟩
  | stay _ hc _ ih =>
      cases h' with
      | stay _ _ hrest => exact ih hrest
      | rise _ _ => exact absurd hc (by decide)
      | enter hstep _ _ _ => exact absurd hc hstep.stays
      | follow hstep _ _ _ => exact absurd hc hstep.stays
  | rise _ _ ih =>
      cases h' with
      | stay _ hc _ => exact absurd hc (by decide)
      | rise _ hrest => exact ih hrest
      | enter hstep _ _ _ => exact absurd hstep isStep_not_dots
      | follow hstep _ _ _ => exact absurd hstep isStep_not_dots
  | enter hstep hnode hlink _ ih =>
      cases h' with
      | stay _ hc _ => exact absurd hc hstep.stays
      | rise _ _ => exact absurd hstep isStep_not_dots
      | enter _ _ _ hrest => exact ih hrest
      | follow _ hnode' _ _ =>
          obtain rfl := Option.some.inj (hnode.symm.trans hnode')
          exact absurd rfl (hlink _)
  | follow hstep hnode _ _ ihtarget ihrest =>
      cases h' with
      | stay _ hc _ => exact absurd hc hstep.stays
      | rise _ _ => exact absurd hstep isStep_not_dots
      | enter _ hnode' hlink _ =>
          obtain rfl := Option.some.inj (hnode.symm.trans hnode')
          exact absurd rfl (hlink _)
      | follow _ hnode' htarget hrest =>
          obtain rfl := Node.link.inj (Option.some.inj (hnode.symm.trans hnode'))
          obtain ⟨rfl, rfl⟩ := ihtarget htarget
          obtain ⟨rfl, rfl⟩ := ihrest hrest
          exact ⟨rfl, rfl⟩

end Leads

section walks
variable {root : Node} {here there cs : List String} {links : Nat}

/-- A walk arrives where its components lead, if it does so behind a link. -/
theorem leads_of_walkWith
    {follow : List String → List String → Except Refusal (List String)}
    (hfollow : ∀ {here cs there}, follow here cs = .ok there →
      ∃ k < links, Leads root here cs k there)
    (h : walkWith follow .reach root here cs = .ok there) :
    ∃ k ≤ links, Leads root here cs k there := by
  induction cs generalizing here with
  | nil =>
      obtain rfl := Except.ok.inj h
      exact ⟨0, Nat.zero_le _, .done here⟩
  | cons c cs ih =>
      unfold walkWith at h
      by_cases hdir : (root.find? here).any Node.isDirectory = true
      case neg =>
        rw [if_neg hdir] at h
        cases h
      rw [if_pos hdir] at h
      by_cases hstay : c = "" ∨ c = "."
      · rw [if_pos hstay] at h
        obtain ⟨k, hk, hrest⟩ := ih h
        exact ⟨k, hk, .stay hdir hstay hrest⟩
      rw [if_neg hstay] at h
      by_cases hrise : c = ".."
      · rw [if_pos hrise] at h
        subst hrise
        obtain ⟨k, hk, hrest⟩ := ih h
        exact ⟨k, hk, .rise hdir hrest⟩
      rw [if_neg hrise,
        if_neg (show ¬ Purpose.reach.forbids cs = true from Bool.false_ne_true)] at h
      by_cases hlong : isTooLong c = true
      · rw [if_pos hlong] at h
        cases h
      rw [if_neg hlong] at h
      have hc : IsStep c := ⟨hstay, hrise, Bool.eq_false_iff.mpr hlong⟩
      cases hnode : root.find? (here ++ [c]) with
      | none =>
          rw [hnode] at h
          cases h
      | some n =>
          rw [hnode] at h
          cases n with
          | link target =>
              obtain ⟨k, hk, hall⟩ := hfollow h
              obtain ⟨i, j, mid, htarget, hrest, rfl⟩ := hall.split
              exact ⟨i + 1 + j, by omega, .follow hc hnode htarget hrest⟩
          | file content =>
              obtain ⟨k, hk, hrest⟩ := ih h
              exact ⟨k, hk, .enter hc hnode (fun _ => Node.noConfusion) hrest⟩
          | directory es =>
              obtain ⟨k, hk, hrest⟩ := ih h
              exact ⟨k, hk, .enter hc hnode (fun _ => Node.noConfusion) hrest⟩

theorem leads_of_walk (h : walk .reach root links here cs = .ok there) :
    ∃ k ≤ links, Leads root here cs k there := by
  induction links generalizing here cs there with
  | zero => exact leads_of_walkWith (fun h => by cases h) h
  | succ links ih =>
      refine leads_of_walkWith (fun h => ?_) h
      obtain ⟨k, hk, hleads⟩ := ih h
      exact ⟨k, Nat.lt_succ_of_le hk, hleads⟩

/-- A walk arrives where its components lead, if it goes on behind a link. -/
theorem walkWith_of_leads
    {follow : List String → List String → Except Refusal (List String)}
    (hfollow : ∀ {here cs k there}, k < links → Leads root here cs k there →
      follow here cs = .ok there) {k : Nat} (hk : k ≤ links) (h : Leads root here cs k there) :
    walkWith follow .reach root here cs = .ok there := by
  induction cs generalizing here k with
  | nil =>
      cases h
      rfl
  | cons c cs ih =>
      unfold walkWith
      cases h with
      | stay hdir hc hrest =>
          rw [if_pos hdir, if_pos hc]
          exact ih hk hrest
      | rise hdir hrest =>
          rw [if_pos hdir, if_neg (by decide), if_pos rfl]
          exact ih hk hrest
      | enter hc hnode hlink hrest =>
          rw [if_pos (Node.isDirectory_of_find?_append hnode), if_neg hc.stays, if_neg hc.rises,
            if_neg (show ¬ Purpose.reach.forbids cs = true from Bool.false_ne_true),
            if_neg (Bool.eq_false_iff.mp hc.short), hnode]
          have hend := ih hk hrest
          split
          · contradiction
          · next target hn => exact absurd (Option.some.inj hn) (hlink target)
          · exact hend
      | @follow _ _ mid _ _ _ i j hc hnode htarget hrest =>
          rw [if_pos (Node.isDirectory_of_find?_append hnode), if_neg hc.stays, if_neg hc.rises,
            if_neg (show ¬ Purpose.reach.forbids cs = true from Bool.false_ne_true),
            if_neg (Bool.eq_false_iff.mp hc.short), hnode]
          exact hfollow (by omega) (htarget.append hrest)

theorem walk_of_leads {k : Nat} (hk : k ≤ links) (h : Leads root here cs k there) :
    walk .reach root links here cs = .ok there := by
  induction links generalizing here cs k there with
  | zero => exact walkWith_of_leads (fun hk _ => absurd hk (Nat.not_lt_zero _)) hk h
  | succ links ih =>
      exact walkWith_of_leads (fun hk hleads => ih (Nat.le_of_lt_succ hk) hleads) hk h

/-- A walk arrives just where its components lead through no more links than it is allowed. -/
theorem walk_eq_ok_iff :
    walk .reach root links here cs = .ok there ↔ ∃ k ≤ links, Leads root here cs k there :=
  ⟨leads_of_walk, fun ⟨_, hk, h⟩ => walk_of_leads hk h⟩

end walks

/-! ### The names on the way -/

theorem components_ne_nil (path : String) : components path ≠ [] :=
  mt List.map_eq_nil_iff.mp (cut_ne_nil '/' path.toList)

/-- The components of a path lie between its slashes. -/
theorem not_mem_of_mem_components {path c : String} (hc : c ∈ components path) :
    '/' ∉ c.toList := by
  obtain ⟨p, hp, rfl⟩ := List.mem_map.mp hc
  rw [String.toList_ofList]
  exact fun hslash => (mem_of_mem_cut hslash hp).2 rfl

/-- Components that a path without the null character may have. -/
def ArePlain (cs : List String) : Prop := ∀ c ∈ cs, '/' ∉ c.toList ∧ hasNull c = false

theorem arePlain_components {path : String} (h : hasNull path = false) :
    ArePlain (components path) :=
  fun _ hc => ⟨not_mem_of_mem_components hc, hasNull_of_mem_components h hc⟩

theorem ArePlain.head {c : String} {cs : List String} (h : ArePlain (c :: cs)) :
    '/' ∉ c.toList ∧ hasNull c = false :=
  h c List.mem_cons_self

theorem ArePlain.tail {c : String} {cs : List String} (h : ArePlain (c :: cs)) : ArePlain cs :=
  fun d hd => h d (List.mem_cons_of_mem c hd)

/-- A location under names of nodes. -/
def AreNames (location : List String) : Prop := ∀ c ∈ location, IsName c

instance (location : List String) : Decidable (AreNames location) :=
  inferInstanceAs (Decidable (∀ c ∈ location, IsName c))

theorem areNames_startOf {here : List String} (h : AreNames here) (path : String) :
    AreNames (startOf here path) := by
  unfold startOf
  split
  · intro c hc
    cases hc
  · exact h

/-- From a location under names of nodes only such locations are reached. -/
theorem Leads.areNames {fs : FileSystem} (hfs : fs.IsPlain) {here there cs : List String} {k : Nat}
    (h : Leads fs.root here cs k there) (hcs : ArePlain cs) (hhere : AreNames here) :
    AreNames there := by
  induction h with
  | done here => exact hhere
  | stay _ _ _ ih => exact ih hcs.tail hhere
  | rise _ _ ih => exact ih hcs.tail fun c hc => hhere c (List.dropLast_subset _ hc)
  | enter hc _ _ _ ih =>
      refine ih hcs.tail fun d hd => ?_
      rcases List.mem_append.mp hd with hd | hd
      · exact hhere d hd
      · obtain rfl := List.mem_singleton.mp hd
        exact { hc with whole := hcs.head.1, plain := hcs.head.2 }
  | follow _ hnode _ _ ihtarget ihrest =>
      refine ihrest hcs.tail (ihtarget ?_ (areNames_startOf hhere _))
      exact arePlain_components (hfs _ _ hnode)

end CodeListing
