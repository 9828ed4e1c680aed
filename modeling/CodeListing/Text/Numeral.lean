/-! # Whole numbers in text

Decimal and hexadecimal digits of whole numbers, as lists of characters.  `decimal` writes an
integer with a minus sign where it is negative and nothing in front otherwise; `hex` writes the
lowercase hexadecimal form without leading zeros; `hexWide` fills that form with zeros up to a
width and never cuts it.

Numbers may have thousands of digits, so long ones are written `groupLength` digits at a time
(`longDigits`); the digits are the same as one at a time (`natural_eq_toDigits`). -/

namespace CodeListing.Numeral

/-- How many digits of a long number are written at a time. -/
def groupLength : Nat := 18

/-- The last group of a long number, filled with zeros. -/
def lastGroup (n : Nat) : List Char :=
  (Nat.toDigits 10 (n % Nat.pow 10 groupLength)).leftpad groupLength '0'

/-- The decimal digits of a natural number, with further digits behind them. -/
def longDigits (n : Nat) (behind : List Char) : List Char :=
  if n < Nat.pow 10 groupLength then Nat.toDigits 10 n ++ behind
  else longDigits (n / Nat.pow 10 groupLength) (lastGroup n ++ behind)
termination_by n
decreasing_by
  next h => exact Nat.div_lt_self (Nat.lt_of_lt_of_le (show 0 < Nat.pow 10 groupLength by decide)
    (Nat.le_of_not_lt h)) (by decide)

/-- The decimal digits of a natural number, the most significant first. -/
def natural (n : Nat) : List Char :=
  if n < Nat.pow 10 groupLength then Nat.toDigits 10 n else longDigits n []

def decimal : Int → List Char
  | .ofNat n => natural n
  | .negSucc n => '-' :: natural (n + 1)

/-- The lowercase hexadecimal digits of a natural number, the most significant first. -/
def hex (n : Nat) : List Char := Nat.toDigits 16 n

/-- The hexadecimal digits of `n`, with zeros in front up to `width` characters. -/
def hexWide (width n : Nat) : List Char := (hex n).leftpad width '0'

/-- An integer in hexadecimal, with zeros between its sign and its digits up to `width`
characters in all. -/
def signedHexWide (width : Nat) : Int → List Char
  | .ofNat n => hexWide width n
  | .negSucc n => '-' :: hexWide (width - 1) (n + 1)

def text (n : Int) : String := String.ofList (decimal n)

theorem leftpad_append_digit {k d r : Nat} (hk : 0 < k) (hr : r < 10) :
    (Nat.toDigits 10 (10 * d + r)).leftpad (k + 1) '0' =
      (Nat.toDigits 10 d).leftpad k '0' ++ [r.digitChar] := by
  rcases Nat.eq_zero_or_pos d with rfl | hd
  · rw [Nat.mul_zero, Nat.zero_add, Nat.toDigits_of_lt_base hr, Nat.toDigits_zero]
    obtain ⟨k, rfl⟩ : ∃ j, k = j + 1 := ⟨k - 1, by omega⟩
    simp [List.leftpad, List.replicate_succ', -List.replicate_append_replicate]
  · rw [← Nat.toDigits_append_toDigits (by decide) hd hr, Nat.toDigits_of_lt_base hr]
    simp [List.leftpad]

/-- The digits of a number are those in front of the last group, followed by that group. -/
theorem toDigits_append_leftpad {n : Nat} (hn : 0 < n) (k d : Nat)
    (hd : d < Nat.pow 10 (k + 1)) :
    Nat.toDigits 10 n ++ (Nat.toDigits 10 d).leftpad (k + 1) '0' =
      Nat.toDigits 10 (Nat.pow 10 (k + 1) * n + d) := by
  induction k generalizing d with
  | zero =>
    have hone : Nat.pow 10 (0 + 1) = 10 := rfl
    rw [hone] at hd ⊢
    rw [Nat.toDigits_of_lt_base hd, ← Nat.toDigits_append_toDigits (by decide) hn hd,
      Nat.toDigits_of_lt_base hd]
    rfl
  | succ k ih =>
    have hpow : Nat.pow 10 (k + 1 + 1) = Nat.pow 10 (k + 1) * 10 := rfl
    rw [hpow] at hd ⊢
    have hq : d / 10 < Nat.pow 10 (k + 1) := by
      rwa [Nat.div_lt_iff_lt_mul (by decide)]
    have hr : d % 10 < 10 := Nat.mod_lt _ (by decide)
    have hpos : 0 < Nat.pow 10 (k + 1) * n + d / 10 :=
      Nat.add_pos_left (Nat.mul_pos (Nat.pow_pos (by decide)) hn) _
    have hsum : Nat.pow 10 (k + 1) * 10 * n + d =
        10 * (Nat.pow 10 (k + 1) * n + d / 10) + d % 10 := by
      rw [Nat.mul_add, Nat.mul_comm _ 10, Nat.mul_assoc]
      omega
    rw [hsum, ← Nat.toDigits_append_toDigits (by decide) hpos hr, ← ih _ hq,
      Nat.toDigits_of_lt_base hr, List.append_assoc, ← leftpad_append_digit (Nat.succ_pos k) hr,
      Nat.div_add_mod]

theorem longDigits_eq (n : Nat) (behind : List Char) :
    longDigits n behind = Nat.toDigits 10 n ++ behind := by
  fun_induction longDigits n behind with
  | case1 => rfl
  | case2 n behind h ih =>
    have hq : 0 < n / Nat.pow 10 groupLength := Nat.div_pos (Nat.le_of_not_lt h) (by decide)
    have hr : n % Nat.pow 10 groupLength < Nat.pow 10 groupLength := Nat.mod_lt _ (by decide)
    rw [ih, ← List.append_assoc]
    exact congrArg (· ++ behind) <|
      (toDigits_append_leftpad hq (groupLength - 1) _ hr).trans
        (congrArg _ (Nat.div_add_mod n (Nat.pow 10 groupLength)))

theorem natural_eq_toDigits (n : Nat) : natural n = Nat.toDigits 10 n := by
  unfold natural
  split
  · rfl
  · rw [longDigits_eq, List.append_nil]

end CodeListing.Numeral
