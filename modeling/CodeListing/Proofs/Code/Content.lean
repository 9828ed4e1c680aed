import CodeListing.Proofs.Code.Rendering
import CodeListing.Proofs.Text.Content

/-! # What a listing is made of

A listing shows names of variables and the texts of floating-point and complex numbers as they were
given (`CodeUnit.GivenIn`).  All other characters in it are printable or end a line: texts and
strings of bytes stand between quotes, units are shown by their labels, and the rest are numbers and
fixed words.  So if the given texts are made of characters with a property that the printable ones
have, each constant is (`madeOf_shown`), each operand (`CodeUnit.madeOf_operandOf`), each line
(`CodeUnit.madeOf_row`) and, if the line feed has the property too, the text that shows a unit and
all units nested in it (`CodeUnit.madeOf_render`). -/

namespace CodeListing

/-! ### Constants -/

mutual

/-- The texts of the numbers that a constant holds at any depth, as they were given. -/
def Constant.numbers : Constant → List String
  | .number shown => [shown]
  | .tuple items => numbersIn items
  | .set items => numbersIn items
  | _ => []

/-- The texts of the numbers that some constants hold. -/
def numbersIn : List Constant → List String
  | [] => []
  | k :: ks => k.numbers ++ numbersIn ks

end

theorem mem_numbersIn {ks : List Constant} {k : Constant} {text : String} (hk : k ∈ ks)
    (h : text ∈ k.numbers) : text ∈ numbersIn ks := by
  induction ks with
  | nil => cases hk
  | cons l ls ih =>
      rw [numbersIn, List.mem_append]
      rcases List.mem_cons.mp hk with rfl | hk
      · exact .inl h
      · exact .inr (ih hk)

theorem ascii_label (u : CodeUnit) : MadeOf isPrintableAscii u.label := by
  unfold CodeUnit.label
  simp only [madeOf_append]
  exact ⟨⟨⟨⟨⟨⟨by decide, ascii_escape _⟩, by decide⟩, ascii_escape _⟩, by decide⟩,
    ascii_numeralText _⟩, by decide⟩

theorem printable_label (u : CodeUnit) : MadeOf isPrintable u.label :=
  (ascii_label u).mono fun _ => printable_of_ascii

section
variable {p : Char → Bool} (hp : ∀ c, isPrintable c = true → p c = true)
include hp

theorem madeOf_tupleText {xs : List String} (h : ∀ x ∈ xs, MadeOf p x) :
    MadeOf p (tupleText xs) := by
  have fixed {s : String} (hs : MadeOf isPrintable s) : MadeOf p s := hs.mono hp
  unfold tupleText
  split
  · next x =>
      simp only [madeOf_append]
      exact ⟨⟨fixed (by decide), h x (List.mem_singleton_self x)⟩, fixed (by decide)⟩
  · simp only [madeOf_append]
    exact ⟨⟨fixed (by decide), madeOf_intercalate (fixed (by decide)) h⟩, fixed (by decide)⟩

theorem madeOf_bracedSet {xs : List String} (h : ∀ x ∈ xs, MadeOf p x) :
    MadeOf p (bracedSet xs) := by
  have fixed {s : String} (hs : MadeOf isPrintable s) : MadeOf p s := hs.mono hp
  unfold bracedSet
  simp only [madeOf_append]
  exact ⟨⟨fixed (by decide), madeOf_intercalate (fixed (by decide)) h⟩, fixed (by decide)⟩

theorem madeOf_setText {xs : List String} (h : ∀ x ∈ xs, MadeOf p x) : MadeOf p (setText xs) := by
  unfold setText
  split
  · exact MadeOf.mono (by decide) hp
  · exact madeOf_bracedSet hp h

end

mutual

/-- A constant is shown with such characters if its numbers are given with them. -/
theorem madeOf_shown {p : Char → Bool} (hp : ∀ c, isPrintable c = true → p c = true) :
    ∀ (k : Constant) (shown : String), k.shown = .ok shown → (∀ t ∈ k.numbers, MadeOf p t) →
      MadeOf p shown
  | .none | .ellipsis => by
      intro shown h _
      rw [Constant.shown] at h
      obtain rfl := Except.ok.inj h
      exact MadeOf.mono (by decide) hp
  | .truth b => by
      intro shown h _
      rw [Constant.shown] at h
      obtain rfl := Except.ok.inj h
      cases b <;> exact MadeOf.mono (by decide) hp
  | .int n => by
      intro shown h _
      rw [Constant.shown] at h
      by_cases hn : fitsDigitLimit n = true
      · rw [if_pos hn] at h
        obtain rfl := Except.ok.inj h
        exact (madeOf_numeralText n).mono hp
      · rw [if_neg hn] at h
        cases h
  | .number text => by
      intro shown h hgiven
      rw [Constant.shown] at h
      obtain rfl := Except.ok.inj h
      rw [Constant.numbers] at hgiven
      exact hgiven text (List.mem_singleton_self text)
  | .text s => by
      intro shown h _
      rw [Constant.shown] at h
      obtain rfl := Except.ok.inj h
      exact (madeOf_quoteText s).mono hp
  | .bytes bs => by
      intro shown h _
      rw [Constant.shown] at h
      obtain rfl := Except.ok.inj h
      exact (madeOf_quoteBytes bs).mono hp
  | .tuple items => by
      intro shown h hgiven
      rw [Constant.shown] at h
      rw [Constant.numbers] at hgiven
      obtain ⟨xs, hxs, rfl⟩ := exists_of_map h
      exact madeOf_tupleText hp (madeOf_shownItems hp items xs hxs hgiven)
  | .set items => by
      intro shown h hgiven
      rw [Constant.shown] at h
      rw [Constant.numbers] at hgiven
      obtain ⟨xs, hxs, rfl⟩ := exists_of_map h
      exact madeOf_setText hp (madeOf_shownItems hp items xs hxs hgiven)
  | .code u => by
      intro shown h _
      rw [Constant.shown] at h
      obtain rfl := Except.ok.inj h
      exact (printable_label u).mono hp

theorem madeOf_shownItems {p : Char → Bool} (hp : ∀ c, isPrintable c = true → p c = true) :
    ∀ (ks : List Constant) (xs : List String), shownItems ks = .ok xs →
      (∀ t ∈ numbersIn ks, MadeOf p t) → ∀ x ∈ xs, MadeOf p x
  | [] => by
      intro xs h _
      rw [shownItems] at h
      obtain rfl := Except.ok.inj h
      intro x hx
      cases hx
  | k :: ks => by
      intro xs h hgiven
      rw [shownItems] at h
      rw [numbersIn] at hgiven
      obtain ⟨y, hy, h⟩ := exists_of_bind h
      obtain ⟨ys, hys, rfl⟩ := exists_of_map h
      have hk := madeOf_shown hp k y hy fun t ht => hgiven t (List.mem_append_left _ ht)
      have hks := madeOf_shownItems hp ks ys hys fun t ht => hgiven t (List.mem_append_right _ ht)
      exact List.forall_mem_cons.mpr ⟨hk, hks⟩

end

/-! ### Operands -/

theorem mem_of_fromEitherEnd? {α : Type} {xs : List α} {i : Int} {x : α}
    (h : fromEitherEnd? xs i = some x) : x ∈ xs := by
  unfold fromEitherEnd? at h
  split at h
  · exact List.mem_of_getElem? h
  · split at h
    · exact List.mem_of_getElem? h
    · cases h

theorem mem_of_lookUp {α : Type} {beyond : Fault} {xs : List α} {i : Int} {x : α}
    (h : lookUp beyond xs i = .ok x) : x ∈ xs :=
  mem_of_fromEitherEnd? (fromEitherEnd?_of_lookUp h)

theorem mem_of_lookUpSlot {names : List String} {i : Int} {name : String}
    (h : lookUpSlot names i = .ok name) : name ∈ names := by
  cases i with
  | ofNat n =>
      cases hn : names[n]? with
      | some found =>
          simp only [lookUpSlot, hn] at h
          obtain rfl := Except.ok.inj h
          exact List.mem_of_getElem? hn
      | none =>
          simp only [lookUpSlot, hn] at h
          cases h
  | negSucc n => cases h

theorem printable_of_writtenDecimal {n : Int} {cs : List Char} (h : writtenDecimal n = .ok cs) :
    ∀ c ∈ cs, isPrintable c = true := by
  rw [← decimal_of_written h]
  exact fun c hc => printable_of_mem_numeralChars c (mem_decimal hc)

theorem printable_conversionText (a : Int) : MadeOf isPrintable (conversionText a) := by
  have hhow : ∀ how : String, how ∈ ["str", "repr", "ascii", ""] → MadeOf isPrintable
      (if a / 4 % 2 = 1 then if how = "" then "with format" else how ++ ", with format"
        else how) := by
    intro how hmem
    have hprintable : MadeOf isPrintable how ∧ MadeOf isPrintable (how ++ ", with format") := by
      revert how
      decide
    split
    · split
      · decide
      · exact hprintable.2
    · exact hprintable.1
  unfold conversionText
  split <;> exact hhow _ (by decide)

theorem printable_functionParts (a : Int) : MadeOf isPrintable (functionParts a) := by
  refine madeOf_intercalate (by decide) fun part hpart => ?_
  obtain ⟨⟨name, k⟩, hp, rfl⟩ := List.mem_map.mp hpart
  have hname := List.fst_mem_of_mem_zipIdx (List.mem_of_mem_filter hp)
  have hall : ∀ name ∈ ["defaults", "kwdefaults", "annotations", "closure"],
      MadeOf isPrintable name := by
    decide
  exact hall name hname

/-- A unit whose names, which are shown as they are, are made of characters with a property, and so
are the texts of its numbers. -/
structure CodeUnit.GivenIn (p : Char → Bool) (u : CodeUnit) : Prop where
  names : ∀ name ∈ u.names, MadeOf p name
  slots : ∀ name ∈ u.slots, MadeOf p name
  numbers : ∀ text ∈ numbersIn u.constants, MadeOf p text

namespace CodeUnit
variable {p : Char → Bool} {u : CodeUnit}

theorem madeOf_operandOf (hp : ∀ c, isPrintable c = true → p c = true) (hu : u.GivenIn p)
    {kind : OperandKind} {target : Option Int} {a : Int} {r : Option Constant × String}
    (h : u.operandOf kind target a = .ok r) : MadeOf p r.2 := by
  cases kind with
  | plain | extension =>
      obtain rfl := Except.ok.inj h
      exact MadeOf.mono (by decide) hp
  | constant =>
      obtain ⟨k, hk, h⟩ := exists_of_bind h
      obtain ⟨shown, hshown, rfl⟩ := exists_of_map h
      exact madeOf_shown hp k shown hshown fun t ht =>
        hu.numbers t (mem_numbersIn (mem_of_lookUp hk) ht)
  | name =>
      obtain ⟨n, hn, rfl⟩ := exists_of_map h
      exact hu.names n (mem_of_lookUp hn)
  | globalName =>
      obtain ⟨n, hn, rfl⟩ := exists_of_map h
      have hname := hu.names n (mem_of_lookUp hn)
      show MadeOf p (if _ then _ else _)
      split
      · exact madeOf_append.mpr ⟨MadeOf.mono (by decide) hp, hname⟩
      · exact hname
  | forward | backward =>
      obtain ⟨cs, hcs, rfl⟩ := exists_of_map h
      have hnumber := madeOf_ofList.mpr (printable_of_writtenDecimal hcs)
      exact madeOf_append.mpr ⟨MadeOf.mono (by decide) hp, hnumber.mono hp⟩
  | slot =>
      obtain ⟨n, hn, rfl⟩ := exists_of_map h
      exact hu.slots n (mem_of_lookUpSlot hn)
  | comparison =>
      obtain ⟨n, hn, rfl⟩ := exists_of_map h
      have hall : ∀ n ∈ comparisons, MadeOf isPrintable n := by decide
      exact (hall n (mem_of_lookUp hn)).mono hp
  | arithmetic =>
      obtain ⟨n, hn, rfl⟩ := exists_of_map h
      have hall : ∀ n ∈ operators, MadeOf isPrintable n := by decide
      exact (hall n (mem_of_lookUp hn)).mono hp
  | conversion =>
      obtain rfl := Except.ok.inj h
      exact (printable_conversionText a).mono hp
  | closureParts =>
      obtain rfl := Except.ok.inj h
      exact (printable_functionParts a).mono hp

end CodeUnit

/-! ### Names of operations -/

theorem printable_ofNumber (n : Nat) : MadeOf isPrintable (Opcode.ofNumber n).name := by
  have htable : ∀ o ∈ Opcode.table, MadeOf isPrintable o.name := by decide +kernel
  unfold Opcode.ofNumber
  cases hfind : Opcode.table.find? fun o => o.number == n with
  | some o => exact htable o (List.mem_of_find?_eq_some hfind)
  | none =>
      refine madeOf_ofList.mpr fun c hc => ?_
      simp only [List.mem_cons, List.mem_append, List.not_mem_nil, or_false] at hc
      rcases hc with rfl | hc | rfl
      · decide
      · exact printable_of_mem_numeralChars c (mem_natural hc)
      · decide

theorem exists_word_of_mem_stepsFrom {offset skip : Nat} {extension : Int} {words : List Word}
    {s : Step} (h : s ∈ stepsFrom offset skip extension words) :
    ∃ w ∈ words, s.opcode = Opcode.ofNumber w.operation.toNat := by
  induction words generalizing offset skip extension with
  | nil => cases h
  | cons w ws ih =>
      have hrest : ∀ {offset skip : Nat} {extension : Int}, s ∈ stepsFrom offset skip extension ws →
          ∃ v ∈ w :: ws, s.opcode = Opcode.ofNumber v.operation.toNat := by
        intro offset skip extension h
        obtain ⟨v, hv, hs⟩ := ih h
        exact ⟨v, List.mem_cons_of_mem w hv, hs⟩
      cases skip with
      | succ skip => exact hrest h
      | zero =>
          rw [stepsFrom] at h
          dsimp only at h
          split at h
          · rcases List.mem_cons.mp h with rfl | h
            · exact ⟨w, List.mem_cons_self, rfl⟩
            · exact hrest h
          · rcases List.mem_cons.mp h with rfl | h
            · exact ⟨w, List.mem_cons_self, rfl⟩
            · exact hrest h

theorem printable_of_mem_steps {words : List Word} {s : Step} (h : s ∈ steps words) :
    MadeOf isPrintable s.opcode.name := by
  obtain ⟨w, -, hw⟩ := exists_word_of_mem_stepsFrom h
  rw [hw]
  exact printable_ofNumber _

/-! ### Lines -/

namespace Instruction
variable (i : Instruction)

/-- The number of a line, or the blanks in its place. -/
def lineNumber (line : Option Int) : List Char :=
  match line with
  | some l => (Numeral.decimal l).leftpad 4 ' '
  | none => List.replicate 4 ' '

/-- What stands behind the number of the line, but for blanks at the end. -/
def rest (argument : List Char) (operand : String) : String :=
  (if i.isTarget then " >> " else "    ") ++ String.ofList (Numeral.signedHexWide 8 i.offset) ++
    ": " ++ String.ofList (i.name.toList.rightpad 20 ' ') ++ String.ofList argument ++
    (if operand = "" then "" else "; " ++ operand)

theorem layOut_eq (number argument : List Char) (operand : String) :
    i.layOut number argument operand =
      trimEnd (String.ofList number ++ i.rest argument operand) := by
  simp only [layOut, rest, String.append_assoc]

theorem lineNumber_of_lineText {line : Option Int} {number : List Char}
    (h : lineText line = .ok number) : lineNumber line = number := by
  cases line with
  | none => exact Except.ok.inj h
  | some l =>
      obtain ⟨cs, hcs, rfl⟩ := exists_of_map h
      rw [lineNumber, decimal_of_written hcs]

/-- The line of an instruction lays out the number of its line, its argument and its operand. -/
theorem exists_of_text {line : Option Int} {row : String} (h : i.text line = .ok row) :
    ∃ argument operand, i.argumentText = .ok argument ∧ i.operandText = .ok operand ∧
      row = i.layOut (lineNumber line) argument operand := by
  obtain ⟨number, hnumber, h⟩ := exists_of_bind h
  obtain ⟨argument, hargument, h⟩ := exists_of_bind h
  obtain ⟨operand, hoperand, rfl⟩ := exists_of_map h
  rw [lineNumber_of_lineText hnumber]
  exact ⟨argument, operand, hargument, hoperand, rfl⟩

theorem mem_lineNumber {line : Option Int} {c : Char} (h : c ∈ lineNumber line) :
    c ∈ ' ' :: numeralChars := by
  cases line with
  | none =>
      rw [(List.mem_replicate.mp h).2]
      exact List.mem_cons_self
  | some l =>
      rcases mem_of_mem_leftpad h with rfl | h
      · exact List.mem_cons_self
      · exact List.mem_cons_of_mem _ (mem_decimal h)

section
variable {p : Char → Bool} (hp : ∀ c, isPrintable c = true → p c = true)
include hp

theorem madeOf_rest (hname : MadeOf p i.name) {argument : List Char}
    (hargument : ∀ c ∈ argument, p c = true) {operand : String} (hoperand : MadeOf p operand) :
    MadeOf p (i.rest argument operand) := by
  have fixed {s : String} (hs : MadeOf isPrintable s) : MadeOf p s := hs.mono hp
  unfold rest
  simp only [madeOf_append, madeOf_ofList]
  refine ⟨⟨⟨⟨⟨?_, ?_⟩, fixed (by decide)⟩, ?_⟩, hargument⟩, ?_⟩
  · split <;> exact fixed (by decide)
  · exact fun c hc => hp c (printable_of_mem_numeralChars c (mem_signedHexWide hc))
  · intro c hc
    rcases mem_of_mem_rightpad hc with rfl | hc
    · exact hp _ (by decide)
    · exact hname c hc
  · split
    · exact fixed (by decide)
    · exact madeOf_append.mpr ⟨fixed (by decide), hoperand⟩

theorem madeOf_layOut (line : Option Int) (hname : MadeOf p i.name) {argument : List Char}
    (hargument : ∀ c ∈ argument, p c = true) {operand : String} (hoperand : MadeOf p operand) :
    MadeOf p (i.layOut (lineNumber line) argument operand) := by
  have hnumber : ∀ c ∈ lineNumber line, isPrintable c = true := by
    intro c hc
    rcases List.mem_cons.mp (mem_lineNumber hc) with rfl | hc
    · decide
    · exact printable_of_mem_numeralChars c hc
  rw [layOut_eq]
  apply madeOf_trimEnd
  rw [madeOf_append, madeOf_ofList]
  exact ⟨fun c hc => hp c (hnumber c hc), i.madeOf_rest hp hname hargument hoperand⟩

theorem madeOf_operandText (hoperand : MadeOf p i.operand)
    (hvalue : ∀ k, i.value = some k → ∀ t ∈ k.numbers, MadeOf p t) {operand : String}
    (h : i.operandText = .ok operand) : MadeOf p operand := by
  unfold operandText at h
  split at h
  · obtain rfl := Except.ok.inj h
    exact (printable_label _).mono hp
  · next items hitems =>
      split at h
      · obtain ⟨xs, hxs, rfl⟩ := exists_of_map h
        have hset := hvalue _ hitems
        rw [Constant.numbers] at hset
        have hshown := madeOf_shownItems hp items xs hxs hset
        exact madeOf_bracedSet hp fun x hx => hshown x (List.mem_mergeSort.mp hx)
      · obtain rfl := Except.ok.inj h
        exact hoperand
  · obtain rfl := Except.ok.inj h
    exact hoperand

end

theorem printable_of_argumentText {argument : List Char} (h : i.argumentText = .ok argument) :
    ∀ c ∈ argument, isPrintable c = true := by
  unfold argumentText at h
  split at h
  · obtain ⟨cs, hcs, rfl⟩ := exists_of_map h
    intro c hc
    rcases List.mem_cons.mp hc with rfl | hc
    · decide
    · rcases mem_of_mem_rightpad hc with rfl | hc
      · decide
      · exact printable_of_writtenDecimal hcs c hc
  · obtain rfl := Except.ok.inj h
    intro c hc
    cases hc

end Instruction

namespace CodeUnit
variable {u : CodeUnit} {targets : List Int} {s : Step} {i : Instruction}

theorem exists_of_instruction (h : u.instruction targets s = .ok i) :
    ∃ p, i = instructionWith targets s p ∧
      (p = (none, "") ∨ ∃ a, u.operandOf s.opcode.operand s.target? a = .ok p) := by
  cases ha : s.argument with
  | none =>
      rw [instruction_of_none targets ha] at h
      exact ⟨_, (Except.ok.inj h).symm, .inl rfl⟩
  | some a =>
      rw [instruction_of_some targets ha] at h
      obtain ⟨p, hp, rfl⟩ := exists_of_map h
      exact ⟨p, rfl, .inr ⟨a, hp⟩⟩

theorem shown_of_operandOf {kind : OperandKind} {target : Option Int} {a : Int} {k : Constant}
    {operand : String} (h : u.operandOf kind target a = .ok (some k, operand)) :
    k ∈ u.constants ∧ k.shown = .ok operand := by
  cases kind with
  | constant =>
      obtain ⟨l, hl, h⟩ := exists_of_bind h
      obtain ⟨shown, hshown, h⟩ := exists_of_map h
      obtain ⟨hk, rfl⟩ := Prod.mk.inj h
      obtain rfl := Option.some.inj hk
      exact ⟨mem_of_lookUp hl, hshown⟩
  | plain | extension | conversion | closureParts => cases h
  | name | globalName | forward | backward | slot | comparison | arithmetic =>
      obtain ⟨n, -, h⟩ := exists_of_map h
      cases h

theorem value_of_instruction (h : u.instruction targets s = .ok i) {k : Constant}
    (hk : i.value = some k) : k ∈ u.constants ∧ ∃ shown, k.shown = .ok shown := by
  obtain ⟨⟨value, operand⟩, rfl, hp | ⟨a, hp⟩⟩ := exists_of_instruction h
  · obtain ⟨rfl, -⟩ := Prod.mk.inj hp
    cases hk
  · obtain rfl : value = some k := hk
    obtain ⟨hmem, hshown⟩ := shown_of_operandOf hp
    exact ⟨hmem, operand, hshown⟩

/-- The line of a step lays out an instruction whose name, argument and operand are made of such
characters. -/
theorem exists_layOut_of_row {p : Char → Bool} (hp : ∀ c, isPrintable c = true → p c = true)
    (hu : u.GivenIn p) (hs : s ∈ steps u.words) {starts : List (Nat × Int)} {row : String}
    (h : u.row targets starts s = .ok row) :
    ∃ (i : Instruction) (argument : List Char) (operand : String),
      row = i.layOut (Instruction.lineNumber (starts.lookup s.offset)) argument operand ∧
      MadeOf p i.name ∧ (∀ c ∈ argument, p c = true) ∧ MadeOf p operand := by
  obtain ⟨i, hi, h⟩ := exists_of_bind h
  obtain ⟨argument, operand, hargument, hoperand, rfl⟩ := i.exists_of_text h
  have hname : MadeOf p i.name := by
    obtain ⟨r, rfl, -⟩ := exists_of_instruction hi
    exact (printable_of_mem_steps hs).mono hp
  have hgiven : MadeOf p i.operand := by
    obtain ⟨r, rfl, rfl | ⟨a, hr⟩⟩ := exists_of_instruction hi
    · intro c hc
      cases hc
    · exact madeOf_operandOf hp hu hr
  have hvalue : ∀ k, i.value = some k → ∀ t ∈ k.numbers, MadeOf p t := fun k hk t ht =>
    hu.numbers t (mem_numbersIn (value_of_instruction hi hk).1 ht)
  refine ⟨i, argument, operand, rfl, hname, fun c hc => ?_, ?_⟩
  · exact hp c (i.printable_of_argumentText hargument c hc)
  · exact i.madeOf_operandText hp hgiven hvalue hoperand

theorem printable_header (u : CodeUnit) : MadeOf isPrintable u.header := by
  unfold header
  simp only [madeOf_append]
  exact ⟨⟨by decide, printable_label u⟩, by decide⟩

section
variable {p : Char → Bool} (hp : ∀ c, isPrintable c = true → p c = true) (hfeed : p '\n' = true)
include hp hfeed

theorem madeOf_listing (hu : u.GivenIn p) {shown : String} (h : u.listing = .ok shown) :
    MadeOf p shown := by
  obtain ⟨rows, rfl, hrows⟩ := lists_of_listing h
  apply madeOf_join
  intro line hline
  obtain ⟨row, hrow, rfl⟩ := List.mem_map.mp hline
  have hend : MadeOf p "\n" := by
    intro c hc
    rwa [List.mem_singleton.mp hc]
  refine madeOf_append.mpr ⟨?_, hend⟩
  rcases List.mem_cons.mp hrow with rfl | hrow
  · exact (printable_header u).mono hp
  · obtain ⟨s, hs, hrow⟩ := exists_of_mem_right hrows hrow
    obtain ⟨i, argument, operand, rfl, hname, hargument, hoperand⟩ :=
      exists_layOut_of_row hp hu hs hrow
    exact i.madeOf_layOut hp _ hname hargument hoperand

/-- A text that shows units is made of such characters if these were given with them. -/
theorem madeOf_render (hu : ∀ v ∈ u.units, v.GivenIn p) {text : String}
    (h : u.render = .ok text) : MadeOf p text := by
  obtain ⟨listings, hlistings, rfl⟩ := exists_of_map h
  refine madeOf_intercalate ?_ fun shown hshown => ?_
  · intro c hc
    rwa [List.mem_singleton.mp hc]
  · obtain ⟨v, hv, hlisting⟩ := exists_of_mem_right (forall₂_of_mapM hlistings) hshown
    exact madeOf_listing hp hfeed (hu v hv) hlisting

end

end CodeUnit
end CodeListing
