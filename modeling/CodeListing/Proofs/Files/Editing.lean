import CodeListing.Files.Edit
import CodeListing.Proofs.Files.Agreement
import CodeListing.Proofs.Success

/-! # File systems that edits lead to

A file system is proper if no link in its tree leads along the null character and its working
directory has a location under names of nodes (`FileSystem.IsProper`).  A node that is made brings
no link into the tree but itself (`Node.isPlain_put`), a node that is removed none
(`Node.isPlain_remove`), and a directory that is entered is one that a path leads to.  So an edit
keeps a file system proper, also one that fails when it has done a part of its work
(`FileSystem.IsProper.edit`), and hence any number of edits does (`FileSystem.IsProper.editAll`):
what is proved of plain file systems holds wherever edits lead from one. -/

namespace CodeListing

/-! ### Trees -/

theorem arePlainEntries_filter {es : List (String × Node)} (h : arePlainEntries es = true)
    (p : String × Node → Bool) : arePlainEntries (es.filter p) = true := by
  induction es with
  | nil => rfl
  | cons e es ih =>
      rw [arePlainEntries, Bool.and_eq_true] at h
      rw [List.filter_cons]
      split
      · rw [arePlainEntries, h.1, ih h.2]
        rfl
      · exact ih h.2

namespace Node
variable {n : Node}

theorem arePlain_entries (h : n.isPlain = true) : arePlainEntries n.entries = true := by
  cases n with
  | directory es =>
      rw [isPlain] at h
      exact h
  | file content => rfl
  | link target => rfl

theorem isPlain_of_child? {name : String} {c : Node} (h : n.isPlain = true)
    (hc : n.child? name = some c) : c.isPlain = true :=
  isPlain_of_lookup (arePlain_entries h) hc

theorem isPlain_setChild {c : Node} (h : n.isPlain = true) (name : String)
    (hc : c.isPlain = true) : (n.setChild name c).isPlain = true := by
  rw [setChild, isPlain, arePlainEntries, hc, arePlainEntries_filter (arePlain_entries h)]
  rfl

theorem isPlain_put {new : Node} (hnew : new.isPlain = true) (h : n.isPlain = true)
    (location : List String) : (put new location n).isPlain = true := by
  induction location generalizing n with
  | nil => exact hnew
  | cons name names ih =>
      refine isPlain_setChild h name (ih ?_)
      cases hc : n.child? name with
      | none => rfl
      | some c => exact isPlain_of_child? h hc

/-- Removing a node brings no link into a tree. -/
theorem isPlain_remove (h : n.isPlain = true) (location : List String) :
    (remove location n).isPlain = true := by
  induction location generalizing n with
  | nil => exact h
  | cons name names ih =>
      cases names with
      | nil =>
          rw [remove, isPlain]
          exact arePlainEntries_filter (arePlain_entries h) _
      | cons next names =>
          rw [remove]
          split
          · exact h
          · next c hc => exact isPlain_setChild h name (ih (isPlain_of_child? h hc))
          · exact List.cons_ne_nil _ _

end Node

/-! ### Edits -/

namespace FileSystem
variable {fs changed : FileSystem} {path : String}

/-- A file system whose links lead along no null character, and whose working directory is found
under names of nodes. -/
structure IsProper (fs : FileSystem) : Prop where
  plain : fs.root.isPlain = true
  named : AreNames fs.workingDirectory

theorem exists_of_write {content : List UInt8} (h : fs.write path content = .ok changed) :
    ∃ location, changed = fs.putAt location (.file content) := by
  obtain ⟨location, -, h⟩ := exists_of_bind h
  split at h
  · cases h
  · exact ⟨location, (Except.ok.inj h).symm⟩

theorem exists_of_link {target : String} (h : fs.link path target = .ok changed) :
    ∃ location, changed = fs.putAt location (.link target) := by
  unfold link at h
  simp only [bind, Except.bind] at h
  split at h
  · cases h
  · obtain ⟨slot, -, h⟩ := exists_of_bind h
    split at h
    · cases h
    · split at h
      · cases h
      · exact ⟨slot.location, (Except.ok.inj h).symm⟩

theorem exists_of_remove (h : fs.remove path = .ok changed) :
    ∃ location, changed = { fs with root := Node.remove location fs.root } := by
  obtain ⟨slot, -, h⟩ := exists_of_bind h
  split at h
  · cases h
  · split at h
    · cases h
    · split at h
      · cases h
      · exact ⟨slot.location, (Except.ok.inj h).symm⟩

theorem exists_of_enter (h : fs.enter path = .ok changed) :
    ∃ location, fs.locate .reach path = .ok location ∧
      changed = { fs with workingDirectory := location } := by
  obtain ⟨location, hlocate, h⟩ := exists_of_bind h
  split at h
  · exact ⟨location, hlocate, (Except.ok.inj h).symm⟩
  · cases h

theorem exists_of_makeOne (h : fs.makeOne path = .ok changed) :
    ∃ location, changed = fs.putAt location (.directory []) := by
  obtain ⟨slot, -, h⟩ := exists_of_bind h
  split at h
  · cases h
  · exact ⟨slot.location, (Except.ok.inj h).symm⟩

namespace IsProper

theorem isPlain (h : fs.IsProper) : fs.IsPlain := isPlain_of_root h.plain

theorem putAt (h : fs.IsProper) {n : Node} (hn : n.isPlain = true) (location : List String) :
    (fs.putAt location n).IsProper :=
  ⟨Node.isPlain_put hn h.plain location, h.named⟩

/-- A change is made under paths without the null character, or not at all. -/
theorem settle (h : fs.IsProper) {paths : List String} {fault : Refusal → Fault}
    {r : Except Refusal FileSystem}
    (hr : (∀ p ∈ paths, hasNull p = false) → ∀ changed, r = .ok changed → changed.IsProper) :
    (fs.settle paths fault r).1.IsProper := by
  unfold FileSystem.settle
  by_cases hnull : paths.any hasNull = true
  · rw [if_pos hnull]
    exact h
  · rw [if_neg hnull]
    cases r with
    | error r => exact h
    | ok changed =>
        refine hr (fun p hp => ?_) changed rfl
        exact Bool.eq_false_iff.mpr fun hpnull => hnull (List.any_eq_true.mpr ⟨p, hp, hpnull⟩)

theorem enter (h : fs.IsProper) (hpath : hasNull path = false)
    (henter : fs.enter path = .ok changed) : changed.IsProper := by
  obtain ⟨location, hlocate, rfl⟩ := exists_of_enter henter
  obtain ⟨-, -, k, -, hleads⟩ := locate_eq_ok_iff.mp hlocate
  have hnamed : AreNames location :=
    hleads.areNames h.isPlain (arePlain_components hpath) (areNames_startOf h.named path)
  exact ⟨h.plain, hnamed⟩

theorem ensureOne (h : fs.IsProper) (path : String) : (fs.ensureOne path).1.IsProper := by
  unfold FileSystem.ensureOne
  split
  · exact h
  · refine h.settle fun _ changed hchanged => ?_
    obtain ⟨location, rfl⟩ := exists_of_makeOne hchanged
    exact h.putAt rfl location

theorem ensureChain (h : fs.IsProper) (chain : List (String × String)) :
    (fs.ensureChain chain).1.IsProper := by
  induction chain with
  | nil => exact h
  | cons link above ih =>
      obtain ⟨path, name⟩ := link
      unfold FileSystem.ensureChain
      split
      · exact h.ensureOne path
      · dsimp only
        split
        · split
          · exact ih
          · exact ih.ensureOne path
        · exact ih

theorem ensureDirectory (h : fs.IsProper) (path : String) :
    (fs.ensureDirectory path).1.IsProper := by
  unfold FileSystem.ensureDirectory
  split
  · exact h.ensureOne path
  · exact h.ensureChain _

/-- An edit keeps a file system proper. -/
theorem edit (h : fs.IsProper) (e : Edit) : (fs.edit e).1.IsProper := by
  cases e with
  | write path content =>
      refine h.settle fun _ changed hchanged => ?_
      obtain ⟨location, rfl⟩ := exists_of_write hchanged
      exact h.putAt rfl location
  | makeDirectory path => exact h.ensureDirectory path
  | link path target =>
      refine h.settle fun hnull changed hchanged => ?_
      obtain ⟨location, rfl⟩ := exists_of_link hchanged
      have htarget := hnull target (List.mem_cons_of_mem path (List.mem_singleton_self target))
      refine h.putAt ?_ location
      rw [Node.isPlain, htarget]
      rfl
  | remove path =>
      refine h.settle fun _ changed hchanged => ?_
      obtain ⟨location, rfl⟩ := exists_of_remove hchanged
      exact ⟨Node.isPlain_remove h.plain location, h.named⟩
  | enter path =>
      exact h.settle fun hnull changed hchanged =>
        h.enter (hnull path (List.mem_singleton_self path)) hchanged

end IsProper

/-- The file system after some edits, one after the other, those that fail included. -/
def editAll (fs : FileSystem) (es : List Edit) : FileSystem :=
  es.foldl (fun fs e => (fs.edit e).1) fs

/-- **Edits keep a file system proper.** -/
theorem IsProper.editAll (h : fs.IsProper) (es : List Edit) : (fs.editAll es).IsProper := by
  induction es generalizing fs with
  | nil => exact h
  | cons e es ih => exact ih (h.edit e)

end FileSystem
end CodeListing
