import CodeListing.Backend.Host

/-! # Blocks with a result

The result of a block is the value of its last statement, if that is an expression (`hasResult`).
`bindLast` assigns the value of such a statement to `resultName`, statement and name standing where
the expression stood, and leaves every other statement as it is. -/

namespace CodeListing

/-- The name that the result of a block is bound to. -/
def resultName : String := "__block_result__"

/-- A statement that binds its value, if it is an expression. -/
def Statement.bound : Statement → Statement
  | expression value span => assignment resultName span value span
  | s => s

/-- Whether the last of some statements is an expression. -/
def hasResult (ss : Statements) : Bool :=
  match ss.getLast? with
  | some (.expression ..) => true
  | _ => false

/-- Statements of which the last binds its value. -/
def bindLast : Statements → Statements
  | [] => []
  | [s] => [s.bound]
  | s :: ss => s :: bindLast ss

@[simp] theorem bound_bound (s : Statement) : s.bound.bound = s.bound := by
  cases s <;> rfl

theorem bindLast_concat (ss : Statements) (s : Statement) :
    bindLast (ss ++ [s]) = ss ++ [s.bound] := by
  induction ss with
  | nil => rfl
  | cons t ss ih =>
      cases ss with
      | nil => rfl
      | cons u ss => exact congrArg (t :: ·) ih

theorem length_bindLast (ss : Statements) : (bindLast ss).length = ss.length := by
  rcases ss.eq_nil_or_concat with rfl | ⟨ss, s, rfl⟩
  · rfl
  · rw [List.concat_eq_append, bindLast_concat, List.length_append, List.length_append]
    rfl

theorem bindLast_bindLast (ss : Statements) : bindLast (bindLast ss) = bindLast ss := by
  rcases ss.eq_nil_or_concat with rfl | ⟨ss, s, rfl⟩
  · rfl
  · rw [List.concat_eq_append, bindLast_concat, bindLast_concat, bound_bound]

theorem hasResult_iff {ss : Statements} :
    hasResult ss = true ↔ ∃ value span, ss.getLast? = some (.expression value span) := by
  unfold hasResult
  split
  · next value span h => exact ⟨fun _ => ⟨value, span, h⟩, fun _ => rfl⟩
  · next hother =>
      refine ⟨nofun, ?_⟩
      rintro ⟨value, span, h⟩
      exact absurd h (hother value span)

theorem bindLast_of_not_hasResult {ss : Statements} (h : hasResult ss = false) :
    bindLast ss = ss := by
  rcases ss.eq_nil_or_concat with rfl | ⟨ss, s, rfl⟩
  · rfl
  · rw [List.concat_eq_append] at h ⊢
    rw [bindLast_concat]
    cases s with
    | expression value span =>
        rw [hasResult_iff.mpr ⟨value, span, List.getLast?_concat⟩] at h
        cases h
    | assignment target targetSpan value span => rfl
    | other kind span => rfl

end CodeListing
