import CodeListing.Files.Edit
import CodeListing.Proofs.Files.Sources

/-! # Files that are written

What is written under a path is read under it again (`FileSystem.read_of_write`).

A file that is put into a tree takes the place of another file or of nothing, under a name in a
directory (`Node.IsFree`).  So no other node of the tree becomes one of another kind
(`Node.exists_resembling`), and a walk that ended at the place of the file takes the same way
through the tree with the file (`walkWith_written`): it passes the same directories and follows the
same links, and where it was to make the file it now finds it. -/

namespace CodeListing

/-! ### A tree with a further file -/

theorem lookup_filter_of_ne {name other : String} (h : other ≠ name)
    (es : List (String × Node)) :
    (es.filter fun e => e.1 ≠ name).lookup other = es.lookup other := by
  induction es with
  | nil => rfl
  | cons e es ih =>
      obtain ⟨key, n⟩ := e
      by_cases hkey : key = name
      · rw [List.filter_cons_of_neg (by simpa using hkey), ih, List.lookup_cons,
          beq_false_of_ne (hkey ▸ h)]
      · rw [List.filter_cons_of_pos (by simpa using hkey), List.lookup_cons, List.lookup_cons, ih]

namespace Node

theorem child?_setChild_of_ne {name other : String} (h : other ≠ name) (c n : Node) :
    (n.setChild name c).child? other = n.child? other := by
  unfold setChild child?
  show List.lookup other ((name, c) :: _) = _
  rw [List.lookup_cons, beq_false_of_ne h]
  exact lookup_filter_of_ne h n.entries

theorem find?_put_self (new : Node) (location : List String) (n : Node) :
    (put new location n).find? location = some new := by
  induction location generalizing n with
  | nil => rfl
  | cons name names ih =>
      show ((n.setChild name _).child? name).bind _ = _
      rw [child?_setChild_self]
      exact ih _

theorem isDirectory_find?_put (new : Node) (above : List String) {below : List String}
    (h : below ≠ []) (n : Node) :
    ((put new (above ++ below) n).find? above).any isDirectory = true := by
  induction above generalizing n with
  | nil =>
      cases below with
      | nil => exact absurd rfl h
      | cons name names => rfl
  | cons next above ih =>
      show (((n.setChild next _).child? next).bind _).any isDirectory = true
      rw [child?_setChild_self]
      exact ih _

/-- A node that is put at a location is neither on the way to another location nor beyond it. -/
theorem find?_put_aside {location other : List String} (h : ¬ location <+: other)
    (h' : ¬ other <+: location) (new n : Node) :
    (put new location n).find? other = n.find? other := by
  induction location generalizing other n with
  | nil => exact absurd List.nil_prefix h
  | cons name names ih =>
      cases other with
      | nil => exact absurd List.nil_prefix h'
      | cons next others =>
          show ((n.setChild name _).child? next).bind _ = (n.child? next).bind _
          by_cases hnext : next = name
          · subst hnext
            rw [List.cons_prefix_cons, not_and] at h h'
            rw [child?_setChild_self, Option.bind_some, ih (h rfl) (h' rfl)]
            cases n.child? next with
            | some c => rfl
            | none =>
                cases others with
                | nil => exact absurd List.nil_prefix (h' rfl)
                | cons c cs => rfl
          · rw [child?_setChild_of_ne hnext]

/-- A place for a file: a name in a directory, which stands for another file or for nothing. -/
structure IsFree (root : Node) (directory : List String) (name : String) : Prop where
  inDirectory : (root.find? directory).any isDirectory = true
  untaken : ∀ n, root.find? (directory ++ [name]) = some n → ∃ content, n = .file content

/-- Whether two nodes are of one kind; links have the same target. -/
def Resembles : Node → Node → Prop
  | .file _, .file _ => True
  | .link target, .link target' => target = target'
  | .directory _, .directory _ => True
  | _, _ => False

theorem resembles_self (n : Node) : n.Resembles n := by
  cases n <;> trivial

theorem resembles_of_isDirectory {n m : Node} (hn : n.isDirectory = true)
    (hm : m.isDirectory = true) : n.Resembles m := by
  cases n <;> cases m <;> trivial

theorem isDirectory_of_append {root : Node} {above below : List String}
    (h : (root.find? (above ++ below)).any isDirectory = true) :
    (root.find? above).any isDirectory = true := by
  rw [find?_append] at h
  cases hn : root.find? above with
  | none =>
      rw [hn] at h
      cases h
  | some n =>
      rw [hn, Option.bind_some] at h
      exact isDirectory_of_find? h

section
variable {root n : Node} {directory location : List String} {name : String}

/-- A file leaves every node of a tree one of its kind. -/
theorem exists_resembling (hfree : root.IsFree directory name) (content : List UInt8)
    (hn : root.find? location = some n) :
    ∃ m, (put (.file content) (directory ++ [name]) root).find? location = some m ∧
      n.Resembles m := by
  by_cases habove : location <+: directory ++ [name]
  · rcases List.prefix_concat_iff.mp habove with rfl | ⟨below, rfl⟩
    · obtain ⟨old, rfl⟩ := hfree.untaken n hn
      exact ⟨_, find?_put_self .., trivial⟩
    · have hdir := isDirectory_of_append hfree.inDirectory
      have hput := isDirectory_find?_put (.file content) location
        (List.append_ne_nil_of_right_ne_nil below (List.cons_ne_nil name [])) root
      rw [hn] at hdir
      obtain ⟨m, hm, hmdir⟩ := (Option.any_eq_true ..).mp hput
      rw [List.append_assoc]
      exact ⟨m, hm, resembles_of_isDirectory hdir hmdir⟩
  by_cases hbelow : directory ++ [name] <+: location
  · -- nothing is found below a file
    obtain ⟨rest, rfl⟩ := hbelow
    rw [find?_append] at hn
    obtain ⟨old, hold, hrest⟩ := Option.bind_eq_some_iff.mp hn
    obtain ⟨content', rfl⟩ := hfree.untaken old hold
    cases rest with
    | nil => exact absurd (List.append_nil _ ▸ List.prefix_rfl) habove
    | cons c cs => cases hrest
  · rw [find?_put_aside hbelow habove]
    exact ⟨n, hn, resembles_self n⟩

end

end Node

/-! ### Walks through the tree -/

/-- Where a walk may end: at a directory, or at a place for a file. -/
def IsEnd (root : Node) (location : List String) : Prop :=
  (root.find? location).any Node.isDirectory = true ∨
    ∃ directory name, location = directory ++ [name] ∧ root.IsFree directory name

section walks
variable {p : Purpose} {root : Node} {here there cs : List String}

theorem isEnd_dropLast (hdir : (root.find? here).any Node.isDirectory = true) :
    IsEnd root here.dropLast := by
  refine .inl ?_
  rcases List.eq_nil_or_concat here with rfl | ⟨above, last, rfl⟩
  · exact hdir
  · rw [List.concat_eq_append, List.dropLast_concat]
    rw [List.concat_eq_append] at hdir
    exact Node.isDirectory_of_append hdir

theorem isEnd_startOf (hdir : (root.find? here).any Node.isDirectory = true) (target : String) :
    IsEnd root (startOf here target) := by
  unfold startOf
  split
  · exact .inl (Node.isDirectory_of_find? hdir)
  · exact .inl hdir

theorem eq_of_atMissing (h : p.atMissing here cs = .ok there) : cs = [] ∧ there = here := by
  unfold Purpose.atMissing at h
  split at h
  · exact ⟨rfl, (Except.ok.inj h).symm⟩
  · cases h

theorem isEnd_of_walkWith {follow : List String → List String → Except Refusal (List String)}
    (hfollow : ∀ {here cs there}, IsEnd root here → follow here cs = .ok there →
      IsEnd root there) (hhere : IsEnd root here) (h : walkWith follow p root here cs = .ok there) :
    IsEnd root there := by
  induction cs generalizing here with
  | nil =>
      obtain rfl := Except.ok.inj h
      exact hhere
  | cons c cs ih =>
      unfold walkWith at h
      split at h
      case isFalse => cases h
      case isTrue hdir =>
      split at h
      · exact ih hhere h
      split at h
      · exact ih (isEnd_dropLast hdir) h
      split at h
      · cases h
      split at h
      · cases h
      split at h
      · next hmissing =>
          obtain ⟨-, rfl⟩ := eq_of_atMissing h
          refine .inr ⟨here, c, rfl, hdir, fun n hn => ?_⟩
          rw [hmissing] at hn
          cases hn
      · next target hlink => exact hfollow (isEnd_startOf hdir target) h
      · next n hlink hnode =>
          refine ih ?_ h
          cases n with
          | directory es =>
              refine .inl ?_
              rw [hnode]
              rfl
          | link target => exact absurd rfl (hlink target)
          | file content =>
              refine .inr ⟨here, c, rfl, hdir, fun n hn => ⟨content, ?_⟩⟩
              exact Option.some.inj (hn.symm.trans hnode)

theorem isEnd_of_walk {links : Nat} (hhere : IsEnd root here)
    (h : walk p root links here cs = .ok there) : IsEnd root there := by
  induction links generalizing here cs there with
  | zero => exact isEnd_of_walkWith (fun _ h => by cases h) hhere h
  | succ links ih => exact isEnd_of_walkWith (fun hhere h => ih hhere h) hhere h

/-- A walk along some components starts in a directory. -/
theorem isDirectory_of_walk {links : Nat} {c : String}
    (h : walk p root links here (c :: cs) = .ok there) :
    (root.find? here).any Node.isDirectory = true := by
  by_contra hdir
  cases links <;> rw [walk, walkWith, if_neg hdir] at h <;> cases h

end walks

section written
variable {p : Purpose} {root written : Node} {here there cs : List String}
  (hkinds : ∀ location n, root.find? location = some n →
    ∃ m, written.find? location = some m ∧ n.Resembles m)
include hkinds

theorem isDirectory_written (hdir : (root.find? here).any Node.isDirectory = true) :
    (written.find? here).any Node.isDirectory = true := by
  obtain ⟨n, hn, hndir⟩ := (Option.any_eq_true ..).mp hdir
  obtain ⟨m, hm, hlike⟩ := hkinds here n hn
  rw [hm]
  cases n with
  | directory es =>
      cases m with
      | directory es' => rfl
      | _ => cases hlike
  | _ => cases hndir

variable (hthere : ∃ content, written.find? there = some (.file content))
include hthere

/-- A walk takes the same way through a tree with nodes of the same kinds, if there is a file where
it ended. -/
theorem walkWith_written
    {follow follow' : List String → List String → Except Refusal (List String)}
    (hfollow : ∀ {here cs}, follow here cs = .ok there → follow' here cs = .ok there)
    (h : walkWith follow p root here cs = .ok there) :
    walkWith follow' .reach written here cs = .ok there := by
  induction cs generalizing here with
  | nil => exact h
  | cons c cs ih =>
      unfold walkWith at h ⊢
      split at h
      case isFalse => cases h
      case isTrue hdir =>
      rw [if_pos (isDirectory_written hkinds hdir)]
      split at h
      · next hstay =>
          rw [if_pos hstay]
          exact ih h
      next hstay =>
      rw [if_neg hstay]
      split at h
      · next hrise =>
          rw [if_pos hrise]
          exact ih h
      next hrise =>
      rw [if_neg hrise, if_neg (show ¬ Purpose.reach.forbids cs = true from Bool.false_ne_true)]
      split at h
      · cases h
      split at h
      · cases h
      next hlong =>
      rw [if_neg hlong]
      split at h
      · next hmissing =>
          obtain ⟨rfl, rfl⟩ := eq_of_atMissing h
          obtain ⟨content, hcontent⟩ := hthere
          rw [hcontent]
          rfl
      · next target hlink =>
          obtain ⟨m, hm, hlike⟩ := hkinds _ _ hlink
          rw [hm]
          cases m with
          | link target' =>
              obtain rfl : target = target' := hlike
              exact hfollow h
          | _ => cases hlike
      · next n hlink hnode =>
          obtain ⟨m, hm, hlike⟩ := hkinds _ _ hnode
          rw [hm]
          cases m with
          | link target =>
              cases n with
              | link target' => exact absurd rfl (hlink target')
              | _ => cases hlike
          | _ => exact ih h

theorem walk_written {links : Nat} (h : walk p root links here cs = .ok there) :
    walk .reach written links here cs = .ok there := by
  induction links generalizing here cs with
  | zero => exact walkWith_written hkinds hthere (fun h => by cases h) h
  | succ links ih => exact walkWith_written hkinds hthere (fun h => ih h) h

end written

/-! ### Writing and reading -/

namespace FileSystem
variable {fs changed : FileSystem} {path : String} {content : List UInt8}

theorem isEnd_of_locate {p : Purpose} {location : List String}
    (h : fs.locate p path = .ok location) : IsEnd fs.root location := by
  unfold locate at h
  split at h
  · cases h
  · obtain ⟨c, cs, hcs⟩ := List.exists_cons_of_ne_nil (components_ne_nil path)
    rw [hcs] at h
    exact isEnd_of_walk (.inl (isDirectory_of_walk h)) h

/-- **What is written under a path is read under it.** -/
theorem read_of_write (h : fs.write path content = .ok changed) :
    changed.read path = .ok content := by
  obtain ⟨location, hlocate, h⟩ := exists_of_bind h
  split at h
  · cases h
  next hdir =>
  obtain rfl := Except.ok.inj h
  rcases isEnd_of_locate hlocate with hisdir | ⟨directory, name, rfl, hfree⟩
  · exact absurd hisdir hdir
  have hfile := Node.find?_put_self (.file content) (directory ++ [name]) fs.root
  refine read_of_locate ?_ hfile
  unfold locate at hlocate ⊢
  split at hlocate
  · cases hlocate
  · exact walk_written (fun _ _ hn => Node.exists_resembling hfree content hn) ⟨content, hfile⟩
      hlocate

end FileSystem
end CodeListing
