import Mathlib.Data.List.Forall2

/-! # Actions that succeed

An action that succeeds is made of actions that do (`exists_of_bind`, `exists_of_map`), and one that
fails, fails with the first that does (`error_of_bind`).  A traversal that succeeds relates what it
goes through to what it results in, element by element (`forall₂_of_mapM`). -/

namespace CodeListing

/-- What comes after another action is reached by a result of the first. -/
theorem exists_of_bind {ε α β : Type} {r : Except ε α} {f : α → Except ε β} {b : β}
    (h : r >>= f = .ok b) : ∃ a, r = .ok a ∧ f a = .ok b := by
  cases hr : r with
  | ok a =>
      rw [hr] at h
      exact ⟨a, rfl, h⟩
  | error e =>
      rw [hr] at h
      cases h

theorem error_of_bind {ε α β : Type} {r : Except ε α} {f : α → Except ε β} {e : ε}
    (h : r >>= f = .error e) : r = .error e ∨ ∃ a, r = .ok a ∧ f a = .error e := by
  cases hr : r with
  | ok a =>
      rw [hr] at h
      exact .inr ⟨a, rfl, h⟩
  | error e' =>
      rw [hr] at h
      obtain rfl : e' = e := Except.error.inj h
      exact .inl rfl

theorem exists_of_map {ε α β : Type} {r : Except ε α} {f : α → β} {b : β}
    (h : (r >>= fun a => pure (f a)) = .ok b) : ∃ a, r = .ok a ∧ f a = b := by
  obtain ⟨a, ha, h⟩ := exists_of_bind h
  exact ⟨a, ha, Except.ok.inj h⟩

theorem forall₂_of_mapM {ε α β : Type} {f : α → Except ε β} {xs : List α} {ys : List β}
    (h : xs.mapM f = .ok ys) : List.Forall₂ (fun x y => f x = .ok y) xs ys := by
  induction xs generalizing ys with
  | nil =>
      obtain rfl : [] = ys := Except.ok.inj h
      exact .nil
  | cons x xs ih =>
      rw [List.mapM_cons] at h
      obtain ⟨y, hy, h⟩ := exists_of_bind h
      obtain ⟨zs, hzs, h⟩ := exists_of_bind h
      obtain rfl : y :: zs = ys := Except.ok.inj h
      exact .cons hy (ih hzs)

/-! ### Lists side by side -/

theorem exists_of_mem_right {α β : Type} {R : α → β → Prop} {xs : List α} {ys : List β}
    (h : List.Forall₂ R xs ys) {y : β} (hy : y ∈ ys) : ∃ x ∈ xs, R x y := by
  induction h with
  | nil => cases hy
  | cons hxy _ ih =>
      rcases List.mem_cons.mp hy with rfl | hy
      · exact ⟨_, List.mem_cons_self, hxy⟩
      · obtain ⟨x, hx, hR⟩ := ih hy
        exact ⟨x, List.mem_cons_of_mem _ hx, hR⟩

theorem getElem?_of_forall₂ {α β : Type} {R : α → β → Prop} {xs : List α} {ys : List β}
    (h : List.Forall₂ R xs ys) (n : Nat) :
    xs[n]? = none ∧ ys[n]? = none ∨ ∃ x y, xs[n]? = some x ∧ ys[n]? = some y ∧ R x y := by
  induction h generalizing n with
  | nil => exact .inl ⟨rfl, rfl⟩
  | @cons x y xs ys hxy _ ih =>
      cases n with
      | zero => exact .inr ⟨x, y, rfl, rfl, hxy⟩
      | succ n => exact ih n

theorem getElem?_right_of_forall₂ {α β : Type} {R : α → β → Prop} {xs : List α} {ys : List β}
    (h : List.Forall₂ R xs ys) {n : Nat} {x : α} (hx : xs[n]? = some x) :
    ∃ y, ys[n]? = some y ∧ R x y := by
  obtain ⟨hnone, -⟩ | ⟨x', y, hx', hy, hxy⟩ := getElem?_of_forall₂ h n
  · simp [hnone] at hx
  · obtain rfl : x' = x := by simpa [hx'] using hx
    exact ⟨y, hy, hxy⟩

theorem forall₂_trans {α β γ : Type} {R : α → β → Prop} {S : β → γ → Prop} {xs : List α}
    {ys : List β} {zs : List γ} (h : List.Forall₂ R xs ys) (h' : List.Forall₂ S ys zs) :
    List.Forall₂ (fun x z => ∃ y, R x y ∧ S y z) xs zs := by
  induction h generalizing zs with
  | nil =>
      cases h'
      exact .nil
  | cons hxy _ ih =>
      cases h' with
      | cons hyz hrest => exact .cons ⟨_, hxy, hyz⟩ (ih hrest)

end CodeListing
