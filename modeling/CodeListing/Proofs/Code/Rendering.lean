import CodeListing.Code.Listing
import CodeListing.Proofs.Code.Ranges

/-! # What it takes to show a unit

A unit whose operands refer to what is there (`CodeUnit.WellFormed`) is shown unless it writes an
integer with too many digits.  An instruction writes its argument, the target of its jump or the
integers of the constant it loads (`CodeUnit.integersOf`), and that is all that a unit writes with a
limit (`CodeUnit.writes_row`, `CodeUnit.writes_render`).  What is shown is complete: each unit has
its header and one row for each of its steps (`CodeUnit.lists_of_render`). -/

namespace CodeListing

/-- An index into a table of some length, where a negative index counts from the end. -/
def IsIndex (length : Nat) (i : Int) : Prop := -(length : Int) ≤ i ∧ i < length

theorem fromEitherEnd?_of_isIndex {α : Type} {xs : List α} {i : Int} (h : IsIndex xs.length i) :
    ∃ x, fromEitherEnd? xs i = some x := by
  obtain ⟨hlo, hhi⟩ := h
  unfold fromEitherEnd?
  by_cases hi : 0 ≤ i
  · rw [if_pos hi]
    exact ⟨_, List.getElem?_eq_getElem (by omega)⟩
  · rw [if_neg hi, if_pos hlo]
    exact ⟨_, List.getElem?_eq_getElem (by omega)⟩

theorem writes_lookUp {α : Type} {xs : List α} {i : Int} (h : IsIndex xs.length i)
    (beyond : Fault) : Writes (lookUp beyond xs i) [] := by
  obtain ⟨x, hx⟩ := fromEitherEnd?_of_isIndex h
  have hlook : lookUp beyond xs i = .ok x := by rw [lookUp, hx]
  exact .of_ok hlook

theorem fromEitherEnd?_of_lookUp {α : Type} {beyond : Fault} {xs : List α} {i : Int} {x : α}
    (h : lookUp beyond xs i = .ok x) : fromEitherEnd? xs i = some x := by
  unfold lookUp at h
  split at h
  · next y hy =>
      obtain rfl : y = x := Except.ok.inj h
      exact hy
  · cases h

theorem writes_lookUpSlot {names : List String} {i : Int} (hlo : 0 ≤ i) (hhi : i < names.length) :
    Writes (lookUpSlot names i) [] := by
  obtain ⟨n, rfl⟩ := Int.eq_ofNat_of_zero_le hlo
  have hn : names[n]? = some names[n] := List.getElem?_eq_getElem (by omega)
  have hlook : lookUpSlot names (.ofNat n) = .ok names[n] := by
    simp only [lookUpSlot, hn]
  exact .of_ok hlook

namespace CodeUnit
variable (u : CodeUnit)

/-- Whether an argument that is read in some way refers to what is there. -/
def Refers (kind : OperandKind) (a : Int) : Prop :=
  match kind with
  | .constant => IsIndex u.constants.length a
  | .name => IsIndex u.names.length a
  | .globalName => IsIndex u.names.length (a / 2)
  | .slot => 0 ≤ a ∧ a < u.slots.length
  | .comparison => IsIndex comparisons.length a
  | .arithmetic => IsIndex operators.length a
  | _ => True

/-- All arguments of a unit refer to what is there. -/
def WellFormed : Prop :=
  ∀ s ∈ steps u.words, ∀ a ∈ s.argument, u.Refers s.opcode.operand a

instance (kind : OperandKind) (a : Int) : Decidable (u.Refers kind a) :=
  match kind with
  | .constant | .name | .globalName | .slot | .comparison | .arithmetic =>
    inferInstanceAs (Decidable (_ ∧ _))
  | .plain | .forward | .backward | .conversion | .closureParts | .extension =>
    inferInstanceAs (Decidable True)

instance : Decidable u.WellFormed :=
  inferInstanceAs (Decidable (∀ s ∈ steps u.words, ∀ a ∈ s.argument, u.Refers s.opcode.operand a))

/-- The integers that an operand writes. -/
def operandIntegers (kind : OperandKind) (target : Option Int) (a : Int) : List Int :=
  match kind with
  | .constant => ((fromEitherEnd? u.constants a).map Constant.integers).getD []
  | .forward | .backward => [target.getD 0]
  | _ => []

/-- The integers that an instruction writes. -/
def integersOf (s : Step) : List Int :=
  match s.argument with
  | none => []
  | some a => u.operandIntegers s.opcode.operand s.target? a ++ [a]

/-- The integers that the instructions of a unit write. -/
def integers : List Int := (steps u.words).flatMap u.integersOf

variable {u}

/-- An operand that refers to what is there writes its integers. -/
theorem writes_operandOf {kind : OperandKind} {a : Int} (h : u.Refers kind a)
    (target : Option Int) :
    Writes (u.operandOf kind target a) (u.operandIntegers kind target a) := by
  cases kind with
  | plain => exact .of_ok rfl
  | extension => exact .of_ok rfl
  | constant =>
      have hshow : ∀ k, lookUp .outOfTuple u.constants a = .ok k →
          Writes (k.shown >>= fun shown => pure (some k, shown))
            (u.operandIntegers .constant target a) := by
        intro k hk
        rw [operandIntegers, fromEitherEnd?_of_lookUp hk]
        exact (writes_shown k).map fun shown => (some k, shown)
      exact (writes_lookUp h .outOfTuple).bind fun k hk _ => hshow k hk
  | name => exact (writes_lookUp h .outOfTuple).map fun n => (none, n)
  | globalName =>
      exact (writes_lookUp h .outOfTuple).map fun n =>
        (none, if a % 2 = 1 ∧ n ≠ "" then "NULL + " ++ n else n)
  | forward | backward =>
      exact (writes_decimal (target.getD 0)).map fun cs => (none, "to " ++ String.ofList cs)
  | slot => exact (writes_lookUpSlot h.1 h.2).map fun n => (none, n)
  | comparison => exact (writes_lookUp h .outOfTuple).map fun n => (none, n)
  | arithmetic => exact (writes_lookUp h .outOfList).map fun n => (none, n)
  | conversion => exact .of_ok rfl
  | closureParts => exact .of_ok rfl

theorem value_of_operandOf {kind : OperandKind} {target : Option Int} {a : Int}
    {p : Option Constant × String} (h : u.operandOf kind target a = .ok p) :
    p.1 = if kind = .constant then fromEitherEnd? u.constants a else none := by
  cases kind with
  | constant =>
      obtain ⟨k, hk, h⟩ := exists_of_bind h
      obtain ⟨shown, -, h⟩ := exists_of_bind h
      obtain rfl := Except.ok.inj h
      exact (fromEitherEnd?_of_lookUp hk).symm
  | plain | extension | conversion | closureParts =>
      obtain rfl := Except.ok.inj h
      rfl
  | name | globalName | forward | backward | slot | comparison | arithmetic =>
      obtain ⟨n, -, h⟩ := exists_of_bind h
      obtain rfl := Except.ok.inj h
      rfl

theorem integers_of_operandOf {kind : OperandKind} {target : Option Int} {a : Int} {k : Constant}
    {operand : String} (h : u.operandOf kind target a = .ok (some k, operand)) :
    k.integers = u.operandIntegers kind target a := by
  have hvalue : some k = _ := value_of_operandOf h
  split at hvalue
  · next hkind =>
      subst hkind
      rw [operandIntegers, ← hvalue]
      rfl
  · cases hvalue

end CodeUnit

/-! ### Rows -/

theorem Instruction.writes_lineText (line : Option Int) :
    Writes (Instruction.lineText line) line.toList := by
  cases line with
  | none => exact .of_ok rfl
  | some l => exact (writes_decimal l).map fun cs => cs.leftpad 4 ' '

/-- An instruction at a short line, whose constant has short integers only, writes its argument. -/
theorem Instruction.writes_text (i : Instruction) {line : Option Int}
    (hline : ∀ l ∈ line, IsShort l)
    (hvalue : ∀ k, i.value = some k → ∀ n ∈ k.integers, IsShort n) :
    Writes (i.text line) i.argument.toList := by
  have hnumber : Writes (lineText line) [] :=
    (writes_lineText line).of_short fun l hl => hline l (by simpa using hl)
  have hargument : Writes i.argumentText i.argument.toList := by
    unfold argumentText
    cases i.argument with
    | none => exact .of_ok rfl
    | some a => exact (writes_decimal a).map fun cs => ' ' :: cs.rightpad 6 ' '
  have hoperand : Writes i.operandText [] := by
    unfold operandText
    split
    · exact .of_ok rfl
    · next items hitems =>
        split
        · have hset := (writes_shownItems items).map fun xs =>
            bracedSet (xs.mergeSort fun a b => decide (a ≤ b))
          exact hset.of_short (hvalue _ hitems)
        · exact .of_ok rfl
    · exact .of_ok rfl
  have htext : Writes (i.text line) ([] ++ (i.argument.toList ++ [])) :=
    hnumber.bind fun number _ _ => hargument.bind fun cs _ _ => hoperand.map fun operand =>
      i.layOut number cs operand
  rwa [List.append_nil, List.nil_append] at htext

namespace CodeUnit
variable {u : CodeUnit}

/-- The instruction of a step, where `p` is the constant and the operand that its argument refers
to. -/
def instructionWith (targets : List Int) (s : Step) (p : Option Constant × String) : Instruction :=
  ⟨s.offset, s.opcode.name, s.argument, p.1, p.2, (s.offset : Int) ∈ targets⟩

theorem instruction_of_none (targets : List Int) {s : Step} (h : s.argument = none) :
    u.instruction targets s = .ok (instructionWith targets s (none, "")) := by
  unfold instruction instructionWith
  rw [h]
  rfl

theorem instruction_of_some (targets : List Int) {s : Step} {a : Int} (h : s.argument = some a) :
    u.instruction targets s =
      u.operandOf s.opcode.operand s.target? a >>= fun p => pure (instructionWith targets s p) := by
  unfold instruction instructionWith
  rw [h]

theorem writes_row (targets : List Int) {starts : List (Nat × Int)}
    (hstarts : ∀ p ∈ starts, IsShort p.2) {s : Step}
    (h : ∀ a, s.argument = some a → u.Refers s.opcode.operand a) :
    Writes (u.row targets starts s) (u.integersOf s) := by
  have hline : ∀ l ∈ starts.lookup s.offset, IsShort l :=
    fun l hl => hstarts _ (LineTable.mem_of_lookup hl)
  have htext : ∀ p : Option Constant × String, (∀ k, p.1 = some k → ∀ n ∈ k.integers, IsShort n) →
      Writes ((instructionWith targets s p).text (starts.lookup s.offset)) s.argument.toList :=
    fun p hp => (instructionWith targets s p).writes_text hline hp
  unfold row integersOf
  cases ha : s.argument with
  | none =>
      rw [instruction_of_none targets ha]
      rw [ha] at htext
      exact htext (none, "") fun k hk => by cases hk
  | some a =>
      rw [instruction_of_some targets ha]
      rw [ha] at htext
      have hinstruction := (writes_operandOf (h a ha) s.target?).map (instructionWith targets s)
      refine hinstruction.bind ?_
      intro i hi hshort
      obtain ⟨⟨value, operand⟩, hp, hi⟩ := exists_of_bind hi
      obtain rfl := Except.ok.inj hi
      refine htext (value, operand) ?_
      rintro k rfl n hn
      rw [integers_of_operandOf hp] at hn
      exact hshort n hn

theorem isShort_of_mem_lineStarts {p : Nat × Int} (h : p ∈ u.lineStarts) : IsShort p.2 :=
  LineTable.isShort_of_mem_lineStarts h

theorem writes_body (h : u.WellFormed) : Writes u.body u.integers :=
  Writes.mapM fun s hs => writes_row _ (fun _ => isShort_of_mem_lineStarts) (h s hs)

theorem writes_listing (h : u.WellFormed) : Writes u.listing u.integers :=
  (writes_body h).map fun rows => String.join ((u.header :: rows).map (· ++ "\n"))

/-- A unit with all units nested in it writes the integers of all of them. -/
theorem writes_render (h : ∀ v ∈ u.units, v.WellFormed) :
    Writes u.render (u.units.flatMap integers) := by
  have hlistings : Writes (u.units.mapM listing) (u.units.flatMap integers) :=
    Writes.mapM fun v hv => writes_listing (h v hv)
  exact hlistings.map fun listings => "\n".intercalate listings

/-! ### Complete listings -/

/-- A listing that is complete: the header of the unit, then a row for each of its steps. -/
def Lists (u : CodeUnit) (listing : String) : Prop :=
  ∃ rows, listing = String.join ((u.header :: rows).map (· ++ "\n")) ∧
    List.Forall₂
      (fun s row => u.row ((steps u.words).filterMap Step.target?) u.lineStarts s = .ok row)
      (steps u.words) rows

theorem lists_of_listing {shown : String} (h : u.listing = .ok shown) : u.Lists shown := by
  obtain ⟨rows, hrows, h⟩ := exists_of_bind h
  refine ⟨rows, (Except.ok.inj h).symm, ?_⟩
  exact forall₂_of_mapM hrows

/-- What is shown of a unit consists of complete listings, one for each unit in it. -/
theorem lists_of_render {shown : String} (h : u.render = .ok shown) :
    ∃ listings, shown = "\n".intercalate listings ∧ List.Forall₂ Lists u.units listings := by
  obtain ⟨listings, hlistings, h⟩ := exists_of_bind h
  refine ⟨listings, (Except.ok.inj h).symm, ?_⟩
  exact (forall₂_of_mapM hlistings).imp fun v shown hv => lists_of_listing hv

end CodeUnit

/-- A unit that loads its constants in order and returns the last one. -/
def CodeUnit.loading (ks : List Constant) : CodeUnit where
  name := "<module>"
  file := "f"
  firstLine := 1
  words := (List.range ks.length).map (fun i => ⟨100, i.toUInt8⟩) ++ [⟨83, 0⟩]
  lineTable := [0xf0, 1, 1, 1, 1]
  constants := ks
  names := []
  slots := []

end CodeListing
