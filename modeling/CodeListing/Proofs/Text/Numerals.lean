import CodeListing.Proofs.Text.Content

/-! # Numerals read back

An integer is read back from its decimal form (`readDecimal_decimal`) and from its hexadecimal form,
whatever the width it was filled up to (`readHex_signedHexWide`).  So different integers have
different decimal forms (`decimal_injective`). -/

namespace CodeListing

/-! ### Decimal forms -/

/-- The integer that has a decimal form. -/
def readDecimal : List Char → Int
  | '-' :: ds => -(Nat.ofDigitChars 10 ds 0 : Int)
  | ds => Nat.ofDigitChars 10 ds 0

theorem isDigit_of_mem_natural {n : Nat} {c : Char} (h : c ∈ Numeral.natural n) :
    c.isDigit = true := by
  rw [Numeral.natural_eq_toDigits] at h
  exact Nat.isDigit_of_mem_toDigits (by decide) (by decide) h

theorem natural_ne_nil (n : Nat) : Numeral.natural n ≠ [] := by
  rw [Numeral.natural_eq_toDigits]
  exact Nat.toDigits_ne_nil

theorem ofDigitChars_natural (n : Nat) : Nat.ofDigitChars 10 (Numeral.natural n) 0 = n := by
  rw [Numeral.natural_eq_toDigits]
  exact Nat.ofDigitChars_ten_toDigits

theorem readDecimal_decimal (n : Int) : readDecimal (Numeral.decimal n) = n := by
  cases n with
  | ofNat m =>
      rw [Numeral.decimal, readDecimal, ofDigitChars_natural]
      · rfl
      · intro ds hds
        have hsign := isDigit_of_mem_natural (hds ▸ List.mem_cons_self : '-' ∈ Numeral.natural m)
        exact absurd hsign (by decide)
  | negSucc m =>
      rw [Numeral.decimal, readDecimal, ofDigitChars_natural]
      rfl

theorem decimal_injective : Function.Injective Numeral.decimal :=
  Function.LeftInverse.injective readDecimal_decimal

theorem decimal_ne_nil (n : Int) : Numeral.decimal n ≠ [] := by
  cases n with
  | ofNat m => exact natural_ne_nil m
  | negSucc m => exact List.cons_ne_nil _ _

/-! ### Hexadecimal forms -/

/-- The integer that has a hexadecimal form, with zeros in front or without. -/
def readHex : List Char → Int
  | '-' :: ds => -(hexValue ds : Int)
  | ds => hexValue ds

theorem hexValue_replicate_append (k : Nat) (ds : List Char) :
    hexValue (List.replicate k '0' ++ ds) = hexValue ds := by
  induction k with
  | zero => rfl
  | succ k ih =>
      rw [List.replicate_succ, List.cons_append]
      exact ih

theorem hexValue_hexWide (width n : Nat) : hexValue (Numeral.hexWide width n) = n := by
  rw [Numeral.hexWide, List.leftpad, hexValue_replicate_append, hexValue_hex]

theorem mem_hexDigits_of_mem_hexWide {width n : Nat} {c : Char}
    (h : c ∈ Numeral.hexWide width n) : c ∈ hexDigits := by
  rcases mem_of_mem_leftpad h with rfl | h
  · decide
  · exact mem_hex n c h

theorem hexWide_ne_nil (width n : Nat) : Numeral.hexWide width n ≠ [] := by
  intro h
  exact hex_ne_nil n (List.append_eq_nil_iff.mp h).2

theorem readHex_signedHexWide (width : Nat) (n : Int) :
    readHex (Numeral.signedHexWide width n) = n := by
  cases n with
  | ofNat m =>
      rw [Numeral.signedHexWide, readHex, hexValue_hexWide]
      · rfl
      · intro ds hds
        have hsign := mem_hexDigits_of_mem_hexWide
          (hds ▸ List.mem_cons_self : '-' ∈ Numeral.hexWide width m)
        exact absurd hsign (by decide)
  | negSucc m =>
      rw [Numeral.signedHexWide, readHex, hexValue_hexWide]
      rfl

theorem signedHexWide_ne_nil (width : Nat) (n : Int) : Numeral.signedHexWide width n ≠ [] := by
  cases n with
  | ofNat m => exact hexWide_ne_nil width m
  | negSucc m => exact List.cons_ne_nil _ _

end CodeListing
