import CodeListing.Proofs.Code.Content
import CodeListing.Proofs.Text.Numerals
import CodeListing.Proofs.Text.Pieces

/-! # The columns of a row

The columns of a row are padded, and most of them may be absent or wider than their place.  Still
each can be read off the row (`Columns.ofRow`).  The margin ends at the first colon, and its words
are the number of the line, the mark and the offset, of which the first two may be missing
(`Margin.ofWords`).  Behind it a name ends where a blank or a semicolon follows it; then digits are
the argument, and what stands behind a semicolon is the operand.

What is read off a row is what was laid out in it (`Instruction.margin_layOut`,
`Instruction.ofRow_layOut`), the columns behind the margin only if the name is a word (`IsWord`) and
the operand does not end in a blank (`EndsFilled`), for blanks at the end are dropped.  So
instructions with the same row are alike in all columns (`Instruction.text_determines`). -/

namespace CodeListing

/-! ### Beginnings of a kind -/

section
variable {p : Char → Bool} {xs ys : List Char} (hx : ∀ c ∈ xs, p c = true)
  (hy : ∀ c ∈ ys.head?, p c = false)
include hx hy

theorem dropWhile_append_of_head : (xs ++ ys).dropWhile p = ys := by
  rw [List.dropWhile_append_of_pos hx]
  cases ys with
  | nil => rfl
  | cons y ys => rw [List.dropWhile_cons_of_neg (by simp [hy y rfl])]

theorem takeWhile_append_of_head : (xs ++ ys).takeWhile p = xs := by
  rw [List.takeWhile_append_of_pos hx]
  cases ys with
  | nil => simp
  | cons y ys => rw [List.takeWhile_cons_of_neg (by simp [hy y rfl]), List.append_nil]

end

/-- What stands in front of a character that is kept, and the character, are not dropped. -/
theorem dropEnd_append_cons {p : Char → Bool} {c : Char} (hc : p c = false) (xs ys : List Char) :
    dropEnd p (xs ++ c :: ys) = xs ++ c :: dropEnd p ys := by
  unfold dropEnd
  rw [List.reverse_append, List.reverse_cons, List.append_assoc, List.singleton_append,
    List.dropWhile_append]
  split
  · next hempty =>
      rw [List.isEmpty_iff] at hempty
      rw [hempty, List.dropWhile_cons_of_neg (by simp [hc])]
      simp
  · simp

theorem dropEnd_append {p : Char → Bool} {xs : List Char} (hne : xs ≠ [])
    (hx : ∀ c ∈ xs.getLast?, p c = false) (ys : List Char) :
    dropEnd p (xs ++ ys) = xs ++ dropEnd p ys := by
  obtain ⟨front, c, rfl⟩ := List.eq_nil_or_concat xs |>.resolve_left hne
  have hc : p c = false := hx c (by simp)
  rw [List.concat_eq_append, List.append_assoc, List.append_assoc, List.singleton_append,
    dropEnd_append_cons hc, List.singleton_append]

theorem dropEnd_replicate {p : Char → Bool} {c : Char} (hc : p c = true) (k : Nat) :
    dropEnd p (List.replicate k c) = [] := by
  simp [dropEnd, hc]

/-! ### Words -/

/-- What stands between blanks. -/
def words (cs : List Char) : List (List Char) := (cut ' ' cs).filter (· ≠ [])

theorem words_append_cons (xs ys : List Char) : words (xs ++ ' ' :: ys) = words xs ++ words ys := by
  unfold words
  rw [cut_eq_splitOn, cut_eq_splitOn, cut_eq_splitOn, List.splitOn_append_cons_self,
    List.filter_append]

theorem words_blanks_append (k : Nat) (cs : List Char) :
    words (List.replicate k ' ' ++ cs) = words cs := by
  induction k with
  | zero => rfl
  | succ k ih => exact (words_append_cons [] _).trans ih

theorem words_eq_singleton {cs : List Char} (hne : cs ≠ []) (h : ' ' ∉ cs) : words cs = [cs] := by
  unfold words
  rw [cut_eq_splitOn, List.splitOn_eq_singleton h]
  simp [hne]

/-! ### The margin -/

/-- What stands in front of the name of an instruction. -/
structure Margin where
  line : Option Int
  isTarget : Bool
  offset : Int
deriving DecidableEq

namespace Margin

/-- The mark of an instruction that a jump leads to. -/
def arrow : List Char := ['>', '>']

/-- What some words say: the last one is the offset. -/
def ofWords (ws : List (List Char)) : Margin where
  line := (ws.dropLast.find? (· ≠ arrow)).map readDecimal
  isTarget := arrow ∈ ws
  offset := readHex (ws.getLastD [])

/-- The margin of a row ends at the first colon. -/
def ofRow (row : List Char) : Margin := ofWords (words (row.takeWhile (· ≠ ':')))

end Margin

/-- The characters of numbers are none of those that stand between the columns. -/
theorem ne_of_mem_numeralChars {c d : Char} (h : c ∈ numeralChars)
    (hd : d ∈ [' ', ':', ';', '>']) : c ≠ d := by
  have hall : (numeralChars.all fun c => c ∉ [' ', ':', ';', '>']) = true := by decide
  rintro rfl
  exact of_decide_eq_true (List.all_eq_true.mp hall c h) hd

theorem blank_of_mem_numeralChars {c : Char} (h : c ∈ numeralChars) : isBlank c = false := by
  have hall : (numeralChars.all fun c => !isBlank c) = true := by decide
  simpa using List.all_eq_true.mp hall c h

theorem ne_arrow {cs : List Char} (h : ∀ c ∈ cs, c ∈ numeralChars) : cs ≠ Margin.arrow := by
  rintro rfl
  exact ne_of_mem_numeralChars (h '>' List.mem_cons_self) (by decide) rfl

namespace Instruction
variable (i : Instruction)

/-- The margin of an instruction as it is shown. -/
def front (line : Option Int) : List Char :=
  lineNumber line ++ ' ' :: ((if i.isTarget then Margin.arrow else [' ', ' ']) ++
    ' ' :: Numeral.signedHexWide 8 i.offset)

theorem words_lineNumber (line : Option Int) :
    words (lineNumber line) = (line.map Numeral.decimal).toList := by
  cases line with
  | none => rfl
  | some l =>
      have hblank : ' ' ∉ Numeral.decimal l := fun h =>
        ne_of_mem_numeralChars (mem_decimal h) (by decide) rfl
      exact (words_blanks_append _ _).trans (words_eq_singleton (decimal_ne_nil l) hblank)

theorem words_front (line : Option Int) : words (i.front line) =
    ((line.map Numeral.decimal).toList ++ if i.isTarget then [Margin.arrow] else []) ++
      [Numeral.signedHexWide 8 i.offset] := by
  have hblank : ' ' ∉ Numeral.signedHexWide 8 i.offset := fun h =>
    ne_of_mem_numeralChars (mem_signedHexWide h) (by decide) rfl
  have hmark : words (if i.isTarget then Margin.arrow else [' ', ' ']) =
      if i.isTarget then [Margin.arrow] else [] := by
    split <;> decide
  rw [front, words_append_cons, words_append_cons, words_lineNumber, hmark,
    words_eq_singleton (signedHexWide_ne_nil 8 i.offset) hblank, List.append_assoc]

/-- The margin of an instruction is read back from its words. -/
theorem ofWords_front (line : Option Int) :
    Margin.ofWords (words (i.front line)) = ⟨line, i.isTarget, i.offset⟩ := by
  have hdecimal : ∀ l, Numeral.decimal l ≠ Margin.arrow := fun l =>
    ne_arrow fun c hc => mem_decimal hc
  have hhex : Numeral.signedHexWide 8 i.offset ≠ Margin.arrow := ne_arrow fun c hc =>
    mem_signedHexWide hc
  rw [words_front, Margin.ofWords, List.dropLast_concat, List.getLastD_concat,
    readHex_signedHexWide]
  cases line with
  | none => cases hmark : i.isTarget <;> simp [hhex.symm]
  | some l =>
      cases hmark : i.isTarget <;>
        simp [hhex.symm, hdecimal l, (hdecimal l).symm, readDecimal_decimal]

theorem colon_not_mem_front (line : Option Int) : ∀ c ∈ i.front line, c ≠ ':' := by
  have hnumeral : ∀ c ∈ numeralChars, c ≠ ':' := fun c hc => ne_of_mem_numeralChars hc (by decide)
  intro c hc
  rcases List.mem_append.mp hc with hc | hc
  · rcases List.mem_cons.mp (mem_lineNumber hc) with rfl | hc
    · decide
    · exact hnumeral c hc
  rcases List.mem_cons.mp hc with rfl | hc
  · decide
  rcases List.mem_append.mp hc with hc | hc
  · have hmark : (if i.isTarget then Margin.arrow else [' ', ' ']).all (· ≠ ':') = true := by
      split <;> decide
    exact of_decide_eq_true (List.all_eq_true.mp hmark c hc)
  rcases List.mem_cons.mp hc with rfl | hc
  · decide
  · exact hnumeral c (mem_signedHexWide hc)

/-- An operand as it stands at the end of a row. -/
def operandPart (operand : String) : List Char :=
  if operand = "" then [] else ';' :: ' ' :: operand.toList

theorem toList_layOut (line : Option Int) (argument : List Char) (operand : String) :
    (i.layOut (lineNumber line) argument operand).toList =
      i.front line ++ ':' :: dropEnd isBlank
        (' ' :: (i.name.toList.rightpad 20 ' ' ++ (argument ++ operandPart operand))) := by
  have hoperand : (if operand = "" then "" else "; " ++ operand).toList = operandPart operand := by
    unfold operandPart
    split <;> simp
  have hmark : (if i.isTarget then " >> " else "    ").toList =
      ' ' :: ((if i.isTarget then Margin.arrow else [' ', ' ']) ++ [' ']) := by
    split <;> rfl
  rw [layOut, toList_trimEnd, ← dropEnd_append_cons (by decide), front]
  simp only [String.toList_append, String.toList_ofList, hoperand, hmark]
  simp

/-- The margin of a row is that of the instruction, whatever stands behind it. -/
theorem margin_layOut (line : Option Int) (argument : List Char) (operand : String) :
    Margin.ofRow (i.layOut (lineNumber line) argument operand).toList =
      ⟨line, i.isTarget, i.offset⟩ := by
  have hfront : ∀ c ∈ i.front line, decide (c ≠ ':') = true := fun c hc =>
    decide_eq_true (i.colon_not_mem_front line c hc)
  rw [Margin.ofRow, toList_layOut, takeWhile_append_of_head hfront (by simp), ofWords_front]

end Instruction

/-! ### The fields behind the margin -/

/-- Whether a character belongs to a name or to a number behind the margin. -/
def inField (c : Char) : Bool := c ≠ ' ' && c ≠ ';'

/-- What stands in front of the first blank or semicolon. -/
def field (cs : List Char) : List Char := cs.takeWhile inField

/-- What stands behind the field and the blanks that follow it. -/
def behindField (cs : List Char) : List Char := (cs.dropWhile inField).dropWhile (· = ' ')

section
variable {xs ys : List Char} {k : Nat} (hx : ∀ c ∈ xs, inField c = true)
  (hend : ∀ c ∈ (List.replicate k ' ' ++ ys).head?, inField c = false)
include hx hend

theorem field_append : field (xs ++ (List.replicate k ' ' ++ ys)) = xs :=
  takeWhile_append_of_head hx hend

theorem behindField_append (hy : ∀ c ∈ ys.head?, c ≠ ' ') :
    behindField (xs ++ (List.replicate k ' ' ++ ys)) = ys := by
  have hblanks : ∀ c ∈ List.replicate k ' ', decide (c = ' ') = true := fun c hc =>
    decide_eq_true (List.mem_replicate.mp hc).2
  rw [behindField, dropWhile_append_of_head hx hend,
    dropWhile_append_of_head hblanks fun c hc => decide_eq_false (hy c hc)]

end

/-- A text whose last character is not blank, if it has one. -/
def EndsFilled (s : String) : Prop := ∀ c ∈ s.toList.getLast?, isBlank c = false

instance (s : String) : Decidable (EndsFilled s) :=
  decidable_of_iff (s.toList.getLast?.all (fun c => !isBlank c) = true) <| by
    unfold EndsFilled
    cases s.toList.getLast? <;> simp

/-- A name without blanks and semicolons. -/
structure IsWord (name : String) : Prop where
  filled : name ≠ ""
  plain : ∀ c ∈ name.toList, isBlank c = false ∧ c ≠ ';'

instance (name : String) : Decidable (IsWord name) :=
  decidable_of_iff
    (name ≠ "" ∧ (name.toList.all fun c => isBlank c = false ∧ c ≠ ';') = true)
    ⟨fun ⟨filled, plain⟩ => ⟨filled, by simpa using plain⟩,
      fun ⟨filled, plain⟩ => ⟨filled, by simpa using plain⟩⟩

namespace Instruction

theorem head_operandPart {operand : String} {c : Char} (h : c ∈ (operandPart operand).head?) :
    c = ';' := by
  unfold operandPart at h
  split at h
  · cases h
  · exact (Option.some.inj h).symm

theorem head_blanks_operandPart {k : Nat} {operand : String} {c : Char}
    (h : c ∈ (List.replicate k ' ' ++ operandPart operand).head?) : inField c = false := by
  cases k with
  | zero =>
      rw [head_operandPart h]
      decide
  | succ k =>
      obtain rfl : ' ' = c := Option.some.inj h
      decide

theorem drop_operandPart (operand : String) : (operandPart operand).drop 2 = operand.toList := by
  unfold operandPart
  split
  · next h => simp [h]
  · rfl

/-- Blanks are dropped only if no operand stands behind them. -/
theorem dropEnd_blanks_operandPart {operand : String} (hoperand : EndsFilled operand) (k : Nat) :
    ∃ m, dropEnd isBlank (List.replicate k ' ' ++ operandPart operand) =
      List.replicate m ' ' ++ operandPart operand := by
  by_cases hempty : operand = ""
  · refine ⟨0, ?_⟩
    rw [operandPart, if_pos hempty, List.append_nil, dropEnd_replicate (by decide)]
    rfl
  · have hne : operand.toList ≠ [] := fun h => hempty (String.toList_eq_nil_iff.mp h)
    obtain ⟨front, c, hlast⟩ := (List.eq_nil_or_concat operand.toList).resolve_left hne
    have hc : isBlank c = false := hoperand c (by simp [hlast])
    refine ⟨k, dropEnd_eq_self ⟨List.replicate k ' ' ++ ';' :: ' ' :: front, ?_⟩ hc⟩
    rw [operandPart, if_neg hempty, hlast]
    simp

variable (i : Instruction)

def digits : List Char := (i.argument.map Numeral.decimal).getD []

theorem inField_of_mem_digits {c : Char} (h : c ∈ i.digits) : inField c = true := by
  unfold digits at h
  cases harg : i.argument with
  | none => simp [harg] at h
  | some a =>
      simp only [harg, Option.map_some, Option.getD_some] at h
      have hblank : c ≠ ' ' := ne_of_mem_numeralChars (mem_decimal h) (by decide)
      have hmark : c ≠ ';' := ne_of_mem_numeralChars (mem_decimal h) (by decide)
      simp [inField, hblank, hmark]

theorem argument_of_digits :
    (if i.digits = [] then none else some (readDecimal i.digits)) = i.argument := by
  unfold digits
  cases i.argument with
  | none => rfl
  | some a =>
      simp only [Option.map_some, Option.getD_some]
      rw [if_neg (decimal_ne_nil a), readDecimal_decimal]

/-- Behind the name stand blanks, the digits of the argument, blanks and the operand.  Without an
argument the blanks are not parted. -/
theorem exists_fields {argument : List Char} (hargument : i.argumentText = .ok argument)
    {operand : String} (hoperand : EndsFilled operand) (k : Nat) :
    ∃ m n, dropEnd isBlank (List.replicate k ' ' ++ (argument ++ operandPart operand)) =
        List.replicate m ' ' ++ (i.digits ++ (List.replicate n ' ' ++ operandPart operand)) ∧
      (∀ c ∈ (List.replicate m ' ' ++
        (i.digits ++ (List.replicate n ' ' ++ operandPart operand))).head?, inField c = false) ∧
      ∀ c ∈ (i.digits ++ (List.replicate n ' ' ++ operandPart operand)).head?, c ≠ ' ' := by
  unfold argumentText at hargument
  cases harg : i.argument with
  | none =>
      simp only [harg] at hargument
      obtain rfl := Except.ok.inj hargument
      have hdigits : i.digits = [] := by simp [digits, harg]
      obtain ⟨m, hm⟩ := dropEnd_blanks_operandPart hoperand k
      rw [hdigits]
      refine ⟨m, 0, hm, fun c => head_blanks_operandPart, ?_⟩
      intro c hc
      rw [head_operandPart hc]
      decide
  | some a =>
      simp only [harg] at hargument
      obtain ⟨cs, hcs, rfl⟩ := exists_of_map hargument
      have hdigits : i.digits = cs := by simp [digits, harg, decimal_of_written hcs]
      have hne : cs ≠ [] := by
        rw [← decimal_of_written hcs]
        exact decimal_ne_nil a
      have hfield : ∀ c ∈ cs, inField c = true := fun c hc => i.inField_of_mem_digits (hdigits ▸ hc)
      obtain ⟨n, hn⟩ := dropEnd_blanks_operandPart hoperand (6 - cs.length)
      rw [hdigits]
      refine ⟨k + 1, n, ?_, ?_, ?_⟩
      · -- the digits do not end in a blank, so nothing in front of their end is dropped
        have hlast : ∀ c ∈ (List.replicate (k + 1) ' ' ++ cs).getLast?, isBlank c = false := by
          intro c hc
          rw [List.getLast?_append_of_ne_nil _ hne] at hc
          have hmem : c ∈ Numeral.decimal a := decimal_of_written hcs ▸ List.mem_of_getLast? hc
          exact blank_of_mem_numeralChars (mem_decimal hmem)
        calc dropEnd isBlank (List.replicate k ' ' ++ (' ' :: cs.rightpad 6 ' ' ++
              operandPart operand))
            = dropEnd isBlank (List.replicate (k + 1) ' ' ++ cs ++
                (List.replicate (6 - cs.length) ' ' ++ operandPart operand)) := by
              simp [List.replicate_succ']
          _ = List.replicate (k + 1) ' ' ++ cs ++
                (List.replicate n ' ' ++ operandPart operand) := by
              rw [dropEnd_append (by simp) hlast, hn]
          _ = _ := List.append_assoc ..
      · intro c hc
        obtain rfl : ' ' = c := Option.some.inj hc
        decide
      · intro c hc
        obtain ⟨d, ds, rfl⟩ := List.exists_cons_of_ne_nil hne
        obtain rfl : d = c := Option.some.inj hc
        rintro rfl
        exact absurd (hfield ' ' List.mem_cons_self) (by decide)

end Instruction

/-- The columns of a row. -/
structure Columns where
  margin : Margin
  name : List Char
  argument : Option Int
  operand : List Char
deriving DecidableEq

/-- What the columns of a row say. -/
def Columns.ofRow (row : List Char) : Columns :=
  let behind := (row.dropWhile (· ≠ ':')).drop 2
  let digits := field (behindField behind)
  { margin := Margin.ofRow row
    name := field behind
    argument := if digits = [] then none else some (readDecimal digits)
    operand := (behindField (behindField behind)).drop 2 }

namespace Instruction
variable {i : Instruction}

theorem ofRow_layOut (line : Option Int) (hname : IsWord i.name) {argument : List Char}
    (hargument : i.argumentText = .ok argument) {operand : String} (hoperand : EndsFilled operand) :
    Columns.ofRow (i.layOut (lineNumber line) argument operand).toList =
      ⟨⟨line, i.isTarget, i.offset⟩, i.name.toList, i.argument, operand.toList⟩ := by
  have hfront : ∀ c ∈ i.front line, decide (c ≠ ':') = true := fun c hc =>
    decide_eq_true (i.colon_not_mem_front line c hc)
  have hne : i.name.toList ≠ [] := fun h => hname.filled (String.toList_eq_nil_iff.mp h)
  have hlast : ∀ c ∈ (' ' :: i.name.toList).getLast?, isBlank c = false := by
    intro c hc
    rw [List.getLast?_cons_of_ne_nil hne] at hc
    exact (hname.plain c (List.mem_of_getLast? hc)).1
  have hfield : ∀ c ∈ i.name.toList, inField c = true := by
    intro c hc
    obtain ⟨hblank, hmark⟩ := hname.plain c hc
    have hspace : c ≠ ' ' := by
      rintro rfl
      exact absurd hblank (by decide)
    simp [inField, hspace, hmark]
  obtain ⟨m, n, hfields, hend, hhead⟩ :=
    i.exists_fields hargument hoperand (20 - i.name.toList.length)
  have hbehind : ((i.layOut (lineNumber line) argument operand).toList.dropWhile (· ≠ ':')).drop 2 =
      i.name.toList ++ (List.replicate m ' ' ++
        (i.digits ++ (List.replicate n ' ' ++ operandPart operand))) := by
    rw [toList_layOut, dropWhile_append_of_head hfront (by simp), List.rightpad, List.append_assoc,
      ← List.cons_append, dropEnd_append (List.cons_ne_nil _ _) hlast, hfields]
    rfl
  have hdigits : ∀ c ∈ i.digits, inField c = true := fun c => i.inField_of_mem_digits
  have hoperandHead : ∀ c ∈ (operandPart operand).head?, c ≠ ' ' := by
    intro c hc
    rw [head_operandPart hc]
    decide
  unfold Columns.ofRow
  dsimp only
  rw [margin_layOut, hbehind, field_append hfield hend, behindField_append hfield hend hhead,
    field_append hdigits fun c => head_blanks_operandPart,
    behindField_append hdigits (fun c => head_blanks_operandPart) hoperandHead,
    argument_of_digits, drop_operandPart]

/-- **Rows lose nothing.**  Instructions with the same row are alike in all columns, whatever the
widths of these. -/
theorem text_determines {i j : Instruction} {line line' : Option Int} {row : String}
    (hi : IsWord i.name) (hj : IsWord j.name)
    (hioperand : ∀ operand, i.operandText = .ok operand → EndsFilled operand)
    (hjoperand : ∀ operand, j.operandText = .ok operand → EndsFilled operand)
    (h : i.text line = .ok row) (h' : j.text line' = .ok row) :
    line = line' ∧ i.isTarget = j.isTarget ∧ i.offset = j.offset ∧ i.name = j.name ∧
      i.argument = j.argument ∧ i.operandText = j.operandText := by
  obtain ⟨argument, operand, hargument, hoperand, rfl⟩ := i.exists_of_text h
  obtain ⟨argument', operand', hargument', hoperand', hrow⟩ := j.exists_of_text h'
  have hcolumns := ofRow_layOut line hi hargument (hioperand operand hoperand)
  rw [hrow, ofRow_layOut line' hj hargument' (hjoperand operand' hoperand')] at hcolumns
  injection hcolumns with hmargin hnames harguments hoperands
  injection hmargin with hline htarget hoffset
  refine ⟨hline.symm, htarget.symm, hoffset.symm, (String.toList_injective hnames).symm,
    harguments.symm, ?_⟩
  rw [hoperand, hoperand', String.toList_injective hoperands]

/-- An instruction whose name, argument and offset are wider than their columns. -/
def wide (value : Option Constant) : Instruction where
  offset := 0x123456789
  name := "LOAD_A_RATHER_LONG_NAME"
  argument := some 1234567
  value := value
  operand := "x; y"
  isTarget := true

/-- Wide columns are told apart like narrow ones: the same row shows an instruction that refers to
another constant with the same operand. -/
theorem text_determines_wide :
    ∃ row, (wide none).text (some 123456) = .ok row ∧
      (wide (some (.text "x"))).text (some 123456) = .ok row ∧
      (wide none).operandText = (wide (some (.text "x"))).operandText := by
  have hword : IsWord "LOAD_A_RATHER_LONG_NAME" := by decide
  have hoperand : ∀ operand, (wide none).operandText = .ok operand → EndsFilled operand := by
    intro operand h
    obtain rfl := Except.ok.inj h
    decide
  have hwrites : Writes ((wide none).text (some 123456)) [1234567] :=
    (wide none).writes_text (by decide +kernel) fun k hk => by cases hk
  obtain ⟨row, h⟩ := hwrites.ok_of_short (by decide +kernel)
  have hsame : ∀ line, (wide (some (.text "x"))).text line = (wide none).text line := by
    intro line
    unfold text
    rfl
  have h' := (hsame (some 123456)).trans h
  obtain ⟨-, -, -, -, -, halike⟩ := text_determines hword hword hoperand hoperand h h'
  exact ⟨row, h, h', halike⟩

end Instruction
end CodeListing
