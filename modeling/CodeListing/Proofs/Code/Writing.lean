import CodeListing.Code.Instruction
import CodeListing.Proofs.Success

/-! # What it takes to write integers

Showing a unit can go wrong in one way only, once its operands refer to what is there: an integer
has more digits than are written.  `Writes` says of an action which integers it writes: it succeeds
if all of them are short, and otherwise it fails because of the digits.  Which of several long
integers comes first makes no difference, so the integers of a sequence are those of its parts
(`Writes.bind`, `Writes.mapM`).  A constant writes the integers it holds at any depth
(`writes_shown`). -/

namespace CodeListing

/-- An integer with no more digits than are written. -/
def IsShort (n : Int) : Prop := n.natAbs < Nat.pow 10 digitLimit

instance (n : Int) : Decidable (IsShort n) := inferInstanceAs (Decidable (_ < _))

theorem fitsDigitLimit_iff (n : Int) : fitsDigitLimit n = true ↔ IsShort n := decide_eq_true_iff

/-- An action that succeeds if some integers are short and otherwise fails because of the digits. -/
def Writes {α : Type} (r : Except Fault α) (ns : List Int) : Prop :=
  (∃ a, r = .ok a) ∧ (∀ n ∈ ns, IsShort n) ∨ r = .error .tooManyDigits ∧ ∃ n ∈ ns, ¬ IsShort n

namespace Writes
variable {α β : Type} {r : Except Fault α} {ns ms : List Int}

theorem of_ok {a : α} (h : r = .ok a) : Writes r [] := by
  left
  refine ⟨⟨a, h⟩, ?_⟩
  intro n hn
  cases hn

theorem congr (h : Writes r ns) (hmem : ∀ n, n ∈ ns ↔ n ∈ ms) : Writes r ms := by
  rcases h with ⟨hok, hshort⟩ | ⟨herror, n, hn, hlong⟩
  · left
    exact ⟨hok, fun n hn => hshort n ((hmem n).mpr hn)⟩
  · right
    exact ⟨herror, n, (hmem n).mp hn, hlong⟩

theorem ok_of_short (h : Writes r ns) (hshort : ∀ n ∈ ns, IsShort n) : ∃ a, r = .ok a := by
  rcases h with ⟨hok, -⟩ | ⟨-, n, hn, hlong⟩
  · exact hok
  · exact absurd (hshort n hn) hlong

theorem error_of_long (h : Writes r ns) {n : Int} (hn : n ∈ ns) (hlong : ¬ IsShort n) :
    r = .error .tooManyDigits := by
  rcases h with ⟨-, hshort⟩ | ⟨herror, -⟩
  · exact absurd (hshort n hn) hlong
  · exact herror

theorem of_short (h : Writes r ns) (hshort : ∀ n ∈ ns, IsShort n) : Writes r [] := by
  obtain ⟨a, ha⟩ := h.ok_of_short hshort
  exact of_ok ha

theorem short_of_ok {a : α} (h : Writes r ns) (hr : r = .ok a) : ∀ n ∈ ns, IsShort n := by
  rcases h with ⟨-, hshort⟩ | ⟨herror, -⟩
  · exact hshort
  · rw [hr] at herror
    cases herror

theorem bind {f : α → Except Fault β} (hr : Writes r ns)
    (hf : ∀ a, r = .ok a → (∀ n ∈ ns, IsShort n) → Writes (f a) ms) :
    Writes (r >>= f) (ns ++ ms) := by
  rcases hr with ⟨⟨a, rfl⟩, hshort⟩ | ⟨rfl, n, hn, hlong⟩
  · rcases hf a rfl hshort with ⟨hok, hshort'⟩ | ⟨herror, n, hn, hlong⟩
    · left
      refine ⟨hok, ?_⟩
      intro n hn
      rcases List.mem_append.mp hn with hn | hn
      · exact hshort n hn
      · exact hshort' n hn
    · right
      exact ⟨herror, n, List.mem_append_right _ hn, hlong⟩
  · right
    exact ⟨rfl, n, List.mem_append_left _ hn, hlong⟩

theorem map (hr : Writes r ns) (f : α → β) : Writes (r >>= fun a => pure (f a)) ns := by
  have h : Writes (r >>= fun a => pure (f a)) (ns ++ []) := hr.bind fun a _ _ => of_ok rfl
  rwa [List.append_nil] at h

/-- A traversal writes the integers of all its steps. -/
theorem mapM {f : α → Except Fault β} {integers : α → List Int} {xs : List α}
    (h : ∀ x ∈ xs, Writes (f x) (integers x)) : Writes (xs.mapM f) (xs.flatMap integers) := by
  induction xs with
  | nil => exact of_ok rfl
  | cons x xs ih =>
      rw [List.mapM_cons, List.flatMap_cons]
      have hx := h x List.mem_cons_self
      have hxs := ih fun y hy => h y (List.mem_cons_of_mem x hy)
      exact hx.bind fun y _ _ => hxs.map (y :: ·)

end Writes

/-! ### Constants -/

mutual

/-- The integers that a constant holds at any depth. -/
def Constant.integers : Constant → List Int
  | .int n => [n]
  | .tuple items => integersIn items
  | .set items => integersIn items
  | _ => []

/-- The integers that some constants hold. -/
def integersIn : List Constant → List Int
  | [] => []
  | k :: ks => k.integers ++ integersIn ks

end

/-- What is written of an integer is its decimal form. -/
theorem decimal_of_written {n : Int} {cs : List Char} (h : writtenDecimal n = .ok cs) :
    Numeral.decimal n = cs := by
  unfold writtenDecimal at h
  split at h
  · exact Except.ok.inj h
  · cases h

theorem writes_decimal (n : Int) : Writes (writtenDecimal n) [n] := by
  unfold writtenDecimal
  by_cases h : fitsDigitLimit n = true
  · rw [if_pos h]
    left
    refine ⟨⟨_, rfl⟩, ?_⟩
    intro m hm
    obtain rfl := List.mem_singleton.mp hm
    exact (fitsDigitLimit_iff m).mp h
  · rw [if_neg h]
    right
    exact ⟨rfl, n, List.mem_singleton_self n, fun hn => h ((fitsDigitLimit_iff n).mpr hn)⟩

mutual

theorem writes_shown : ∀ k : Constant, Writes k.shown k.integers
  | .none | .truth _ | .ellipsis | .number _ | .text _ | .bytes _ | .code _ => by
      rw [Constant.shown, Constant.integers]
      · exact .of_ok rfl
      all_goals
        intros
        contradiction
  | .int n => by
      have h := (writes_decimal n).map String.ofList
      unfold writtenDecimal at h
      rw [Constant.shown, Constant.integers]
      by_cases hn : fitsDigitLimit n = true
      · rw [if_pos hn] at h ⊢
        exact h
      · rw [if_neg hn] at h ⊢
        exact h
  | .tuple items => by
      rw [Constant.shown, Constant.integers]
      exact (writes_shownItems items).map tupleText
  | .set items => by
      rw [Constant.shown, Constant.integers]
      exact (writes_shownItems items).map setText

theorem writes_shownItems : ∀ ks : List Constant, Writes (shownItems ks) (integersIn ks)
  | [] => by
      rw [shownItems, integersIn]
      exact .of_ok rfl
  | k :: ks => by
      rw [shownItems, integersIn]
      exact (writes_shown k).bind fun x _ _ => (writes_shownItems ks).map (x :: ·)

end

end CodeListing
