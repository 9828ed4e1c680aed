import CodeListing.Text.Escape
import Mathlib.Data.List.DropRight
import Mathlib.Data.List.Forall2
import Mathlib.Data.List.Induction

/-! # Escaped text read back

An escaped text is a concatenation of tokens (`IsTokenized`).  A token is a character that stands
for itself, a backslash with one of six letters behind it, or a code point in hexadecimal without
zeros in front (`IsToken`), and every character has exactly one, the one that is written for it
(`isToken_iff`).  `unescape?` reads a text character by character, with what it has seen of a token
as its state, and accepts exactly what is written (`unescape?_eq_some_iff`).

A quote is safe where a backslash escapes it, which one does unless it is escaped itself: the
backslashes in front of a quote have to be odd in number.  A token ends in an even number of them
(`backslashes_token`), so only its own token decides about a quote (`backslashes_of_quote`). -/

namespace CodeListing

/-! ### Hexadecimal forms -/

/-- The lowercase hexadecimal digits, each at the place of its value. -/
def hexDigits : List Char := "0123456789abcdef".toList

/-- The number that hexadecimal digits denote, the most significant first. -/
def hexValue (ds : List Char) : Nat := ds.foldl (fun n d => 16 * n + hexDigits.idxOf d) 0

/-- Hexadecimal digits, at least one, with no zero in front of another digit. -/
structure IsHexForm (ds : List Char) : Prop where
  digits : ∀ d ∈ ds, d ∈ hexDigits
  ne_nil : ds ≠ []
  canonical : ds.head? = some '0' → ds = ['0']

instance (ds : List Char) : Decidable (IsHexForm ds) :=
  decidable_of_iff
    (ds.all (· ∈ hexDigits) = true ∧ ds ≠ [] ∧ (ds.head? = some '0' → ds = ['0']))
    ⟨fun ⟨digits, ne_nil, canonical⟩ => ⟨by simpa using digits, ne_nil, canonical⟩,
      fun ⟨digits, ne_nil, canonical⟩ => ⟨by simpa using digits, ne_nil, canonical⟩⟩

theorem hexValue_concat (ds : List Char) (d : Char) :
    hexValue (ds ++ [d]) = 16 * hexValue ds + hexDigits.idxOf d := by
  simp [hexValue]

theorem idxOf_lt {d : Char} (h : d ∈ hexDigits) : hexDigits.idxOf d < 16 :=
  List.idxOf_lt_length_of_mem h

theorem digitChar_idxOf (d : Char) (h : d ∈ hexDigits) : (hexDigits.idxOf d).digitChar = d := by
  have hall : (hexDigits.all fun d => (hexDigits.idxOf d).digitChar = d) = true := by decide
  exact of_decide_eq_true (List.all_eq_true.mp hall d h)

theorem idxOf_digitChar : ∀ n < 16, hexDigits.idxOf n.digitChar = n := by decide

theorem digitChar_mem_hexDigits : ∀ n < 16, n.digitChar ∈ hexDigits := by decide

theorem digitChar_eq_zero : ∀ n < 16, n.digitChar = '0' → n = 0 := by decide

theorem hex_of_lt {n : Nat} (h : n < 16) : Numeral.hex n = [n.digitChar] :=
  Nat.toDigits_of_lt_base h

/-- One more digit in a number is one more digit in its form. -/
theorem hex_step {n d : Nat} (hn : 0 < n) (hd : d < 16) :
    Numeral.hex (16 * n + d) = Numeral.hex n ++ [d.digitChar] := by
  have h := Nat.toDigits_append_toDigits (b := 16) (by decide) hn hd
  rw [Nat.toDigits_of_lt_base hd] at h
  exact h.symm

/-- A number has one digit, or one digit more than a smaller number that is not zero. -/
theorem hexInduction {P : Nat → Prop} (digit : ∀ d < 16, P d)
    (step : ∀ n d, 0 < n → d < 16 → P n → P (16 * n + d)) (n : Nat) : P n := by
  induction n using Nat.strongRecOn with
  | ind n ih =>
      by_cases hn : n < 16
      · exact digit n hn
      · have hstep := step (n / 16) (n % 16) (by omega) (Nat.mod_lt n (by decide))
          (ih (n / 16) (by omega))
        rwa [Nat.div_add_mod] at hstep

theorem hex_ne_nil (n : Nat) : Numeral.hex n ≠ [] := Nat.toDigits_ne_nil

theorem mem_hex (n : Nat) : ∀ d ∈ Numeral.hex n, d ∈ hexDigits := by
  induction n using hexInduction with
  | digit d hd =>
      rw [hex_of_lt hd]
      simpa using digitChar_mem_hexDigits d hd
  | step n d hn hd ih =>
      rw [hex_step hn hd]
      intro c hc
      rcases List.mem_append.mp hc with hc | hc
      · exact ih c hc
      · rw [List.mem_singleton.mp hc]
        exact digitChar_mem_hexDigits d hd

theorem head?_hex (n : Nat) : (Numeral.hex n).head? = some '0' → n = 0 := by
  induction n using hexInduction with
  | digit d hd =>
      rw [hex_of_lt hd]
      intro h
      exact digitChar_eq_zero d hd (Option.some.inj h)
  | step n d hn hd ih =>
      rw [hex_step hn hd, List.head?_append_of_ne_nil _ (hex_ne_nil n)]
      intro h
      have := ih h
      omega

theorem hexValue_hex (n : Nat) : hexValue (Numeral.hex n) = n := by
  induction n using hexInduction with
  | digit d hd =>
      rw [hex_of_lt hd]
      simpa [hexValue] using idxOf_digitChar d hd
  | step n d hn hd ih => rw [hex_step hn hd, hexValue_concat, ih, idxOf_digitChar d hd]

theorem isHexForm_hex (n : Nat) : IsHexForm (Numeral.hex n) where
  digits := mem_hex n
  ne_nil := hex_ne_nil n
  canonical h := by
    rw [head?_hex n h]
    rfl

/-- A form of one digit more has that digit behind a form that does not denote zero. -/
theorem IsHexForm.of_concat {ds : List Char} {d : Char} (h : IsHexForm (ds ++ [d]))
    (hds : ds ≠ []) : IsHexForm ds ∧ ds.head? ≠ some '0' := by
  have hhead : ds.head? ≠ some '0' := by
    intro h0
    have hall := h.canonical (by rw [List.head?_append_of_ne_nil _ hds]; exact h0)
    have hlength := congrArg List.length hall
    simp at hlength
    exact hds hlength
  have hform : IsHexForm ds :=
    ⟨fun x hx => h.digits x (List.mem_append_left _ hx), hds, fun h0 => absurd h0 hhead⟩
  exact ⟨hform, hhead⟩

theorem hex_hexValue {ds : List Char} (h : IsHexForm ds) : Numeral.hex (hexValue ds) = ds := by
  induction ds using List.reverseRecOn with
  | nil => exact absurd rfl h.ne_nil
  | append_singleton ds d ih =>
      have hd : d ∈ hexDigits := h.digits d (by simp)
      rw [hexValue_concat]
      by_cases hds : ds = []
      · subst hds
        have hzero : hexValue [] = 0 := rfl
        rw [hzero, Nat.mul_zero, Nat.zero_add, hex_of_lt (idxOf_lt hd), digitChar_idxOf d hd]
        rfl
      · obtain ⟨hform, hhead⟩ := h.of_concat hds
        have hhex := ih hform
        have hpos : 0 < hexValue ds := by
          apply Nat.pos_of_ne_zero
          intro h0
          rw [h0] at hhex
          rw [← hhex] at hhead
          exact hhead rfl
        rw [hex_step hpos (idxOf_lt hd), hhex, digitChar_idxOf d hd]

/-! ### Tokens -/

/-- The letters that stand behind a backslash, each with the character it is written for. -/
def shortForms : List (Char × Char) :=
  [('t', '\t'), ('r', '\r'), ('n', '\n'), ('\\', '\\'), ('\'', '\''), ('"', '"')]

/-- Whether a character stands for itself. -/
def IsPlainChar (c : Char) : Prop := isPrintableAscii c = true ∧ c ∉ ['\\', '\'', '"']

/-- Whether a character is written by its code point. -/
def IsCoded (c : Char) : Prop := isPrintableAscii c = false ∧ c ∉ ['\t', '\r', '\n']

instance (c : Char) : Decidable (IsPlainChar c) := inferInstanceAs (Decidable (_ ∧ _))

instance (c : Char) : Decidable (IsCoded c) := inferInstanceAs (Decidable (_ ∧ _))

/-- The tokens of escaped text, each with the character it is written for. -/
inductive IsToken : List Char → Char → Prop where
  | plain {c : Char} (hc : IsPlainChar c) : IsToken [c] c
  | short {l c : Char} (hc : (l, c) ∈ shortForms) : IsToken ['\\', l] c
  | coded {c : Char} {ds : List Char} (hc : IsCoded c) (hds : IsHexForm ds)
      (hvalue : hexValue ds = c.toNat) : IsToken ('\\' :: 'u' :: '{' :: (ds ++ ['}'])) c

theorem escapeChar_of_short : ∀ p ∈ shortForms, escapeChar p.2 = ['\\', p.1] := by decide

theorem escapeChar_of_plain {c : Char} (h : IsPlainChar c) : escapeChar c = [c] := by
  have hcontrol : c ≠ '\t' ∧ c ≠ '\r' ∧ c ≠ '\n' := by
    refine ⟨?_, ?_, ?_⟩ <;> (rintro rfl; exact absurd h.1 (by decide))
  have hquote := h.2
  simp only [List.mem_cons, List.not_mem_nil, or_false, not_or] at hquote
  simp [escapeChar, hcontrol, hquote, h.1]

theorem escapeChar_of_coded {c : Char} (h : IsCoded c) : escapeChar c = codePointEscape c := by
  have hcontrol := h.2
  simp only [List.mem_cons, List.not_mem_nil, or_false, not_or] at hcontrol
  have hquote : c ≠ '\\' ∧ c ≠ '\'' ∧ c ≠ '"' := by
    refine ⟨?_, ?_, ?_⟩ <;> (rintro rfl; exact absurd h.1 (by decide))
  simp [escapeChar, hcontrol, hquote, h.1]

/-- Every character has one token, the one that is written for it. -/
theorem isToken_iff {t : List Char} {c : Char} : IsToken t c ↔ t = escapeChar c := by
  constructor
  · intro h
    cases h with
    | plain hc => exact (escapeChar_of_plain hc).symm
    | short hc => exact (escapeChar_of_short _ hc).symm
    | coded hc hds hvalue =>
        rw [escapeChar_of_coded hc, codePointEscape, ← hvalue, hex_hexValue hds]
  · rintro rfl
    by_cases hshort : c ∈ shortForms.map Prod.snd
    · obtain ⟨p, hp, rfl⟩ := List.mem_map.mp hshort
      rw [escapeChar_of_short p hp]
      exact .short hp
    · simp only [shortForms, List.map_cons, List.map_nil, List.mem_cons, List.not_mem_nil,
        or_false, not_or] at hshort
      obtain ⟨ht, hr, hn, hbackslash, happostrophe, hquote⟩ := hshort
      by_cases hc : isPrintableAscii c = true
      · have hplain : IsPlainChar c := ⟨hc, by simp [*]⟩
        rw [escapeChar_of_plain hplain]
        exact .plain hplain
      · have hcoded : IsCoded c := ⟨by simpa using hc, by simp [*]⟩
        rw [escapeChar_of_coded hcoded]
        exact .coded hcoded (isHexForm_hex _) (hexValue_hex _)

/-! ### Reading back -/

/-- How much of a token has been read. -/
inductive Reading where
  | start
  | backslash
  | brace
  | digits (ds : List Char)

/-- The characters of a token that have been read. -/
def Reading.front : Reading → List Char
  | start => []
  | backslash => ['\\']
  | brace => ['\\', 'u']
  | digits ds => '\\' :: 'u' :: '{' :: ds

/-- The character that is written by hexadecimal digits. -/
def codedChar? (ds : List Char) : Option Char :=
  let c := Char.ofNat (hexValue ds)
  if IsHexForm ds ∧ hexValue ds = c.toNat ∧ IsCoded c then some c else none

/-- The text whose escaped form goes on in some way, or nothing if none does. -/
def unescapeFrom : Reading → List Char → Option (List Char)
  | .start, [] => some []
  | .start, c :: cs =>
    if c = '\\' then unescapeFrom .backslash cs
    else if IsPlainChar c then (unescapeFrom .start cs).map (c :: ·)
    else none
  | .backslash, l :: cs =>
    if l = 'u' then unescapeFrom .brace cs
    else (shortForms.lookup l).bind fun c => (unescapeFrom .start cs).map (c :: ·)
  | .brace, c :: cs => if c = '{' then unescapeFrom (.digits []) cs else none
  | .digits ds, d :: cs =>
    if d = '}' then (codedChar? ds).bind fun c => (unescapeFrom .start cs).map (c :: ·)
    else unescapeFrom (.digits (ds ++ [d])) cs
  | _, [] => none

/-- The text that has an escaped form. -/
def unescape? (w : String) : Option String :=
  (unescapeFrom .start w.toList).map String.ofList

theorem codedChar?_eq_some_iff {ds : List Char} {c : Char} :
    codedChar? ds = some c ↔ IsCoded c ∧ IsHexForm ds ∧ hexValue ds = c.toNat := by
  unfold codedChar?
  constructor
  · intro h
    dsimp only at h
    split at h
    · next hds =>
        obtain rfl := Option.some.inj h
        exact ⟨hds.2.2, hds.1, hds.2.1⟩
    · cases h
  · rintro ⟨hc, hds, hvalue⟩
    have hchar : Char.ofNat (hexValue ds) = c := by rw [hvalue, Char.ofNat_toNat]
    simp only [hchar]
    rw [if_pos ⟨hds, hvalue, hc⟩]

/-- Digits are read up to the closing brace. -/
theorem unescapeFrom_digits {ds : List Char} (h : '}' ∉ ds) (read rest : List Char) :
    unescapeFrom (.digits read) (ds ++ '}' :: rest) =
      unescapeFrom (.digits (read ++ ds)) ('}' :: rest) := by
  induction ds generalizing read with
  | nil => simp
  | cons d ds ih =>
      rw [List.mem_cons, not_or] at h
      rw [List.cons_append, unescapeFrom, if_neg (Ne.symm h.1), ih h.2, List.append_assoc]
      rfl

theorem lookup_shortForms : ∀ p ∈ shortForms, p.1 ≠ 'u' ∧ shortForms.lookup p.1 = some p.2 := by
  decide

theorem unescapeFrom_token {t : List Char} {c : Char} (h : IsToken t c) (rest : List Char) :
    unescapeFrom .start (t ++ rest) = (unescapeFrom .start rest).map (c :: ·) := by
  cases h with
  | plain hc =>
      have hbackslash : c ≠ '\\' := by
        rintro rfl
        exact hc.2 List.mem_cons_self
      rw [List.singleton_append, unescapeFrom, if_neg hbackslash, if_pos hc]
  | @short l c hc =>
      obtain ⟨hu, hlookup⟩ := lookup_shortForms (l, c) hc
      show unescapeFrom .start ('\\' :: l :: rest) = _
      rw [unescapeFrom, if_pos rfl, unescapeFrom, if_neg hu, hlookup]
      rfl
  | @coded c ds hc hds hvalue =>
      have hbrace : '}' ∉ ds := fun hd => absurd (hds.digits _ hd) (by decide)
      have hchar := codedChar?_eq_some_iff.mpr ⟨hc, hds, hvalue⟩
      show unescapeFrom .start ('\\' :: 'u' :: '{' :: (ds ++ ['}'] ++ rest)) = _
      rw [unescapeFrom, if_pos rfl, unescapeFrom, if_pos rfl, unescapeFrom, if_pos rfl,
        List.append_assoc, List.singleton_append, unescapeFrom_digits hbrace, List.nil_append,
        unescapeFrom, if_pos rfl, hchar]
      rfl

theorem unescapeFrom_escapeChars (s : List Char) :
    unescapeFrom .start (escapeChars s) = some s := by
  induction s with
  | nil => rfl
  | cons c s ih => rw [escapeChars_cons, unescapeFrom_token (isToken_iff.mpr rfl), ih]; rfl

/-- The last character of a token ends its reading. -/
theorem eq_escapeChars_of_token {front w s : List Char} {l c : Char}
    (ht : IsToken (front ++ [l]) c)
    (ih : ∀ {s}, unescapeFrom .start w = some s → w = escapeChars s)
    (h : (unescapeFrom .start w).map (c :: ·) = some s) : front ++ l :: w = escapeChars s := by
  obtain ⟨s, hs, rfl⟩ := Option.map_eq_some_iff.mp h
  rw [escapeChars_cons, ← ih hs, ← isToken_iff.mp ht, List.append_assoc, List.singleton_append]

/-- What is read is an escaped form together with what has been read before. -/
theorem eq_escapeChars_of_unescapeFrom {r : Reading} {w s : List Char}
    (h : unescapeFrom r w = some s) : r.front ++ w = escapeChars s := by
  fun_induction unescapeFrom r w generalizing s with
  | case1 =>
      obtain rfl := Option.some.inj h
      rfl
  | case2 cs ih => exact ih h
  | case3 c cs _ hc ih => exact eq_escapeChars_of_token (.plain hc) ih h
  | case5 cs ih => exact ih h
  | case6 l cs _ ih =>
      obtain ⟨c, hc, h⟩ := Option.bind_eq_some_iff.mp h
      have hmem : (l, c) ∈ shortForms := by
        obtain ⟨front, rest, hsplit, -⟩ := List.lookup_eq_some_iff.mp hc
        rw [hsplit]
        exact List.mem_append_right _ List.mem_cons_self
      exact eq_escapeChars_of_token (.short hmem) ih h
  | case7 cs ih => exact ih h
  | case9 ds cs ih =>
      obtain ⟨c, hc, h⟩ := Option.bind_eq_some_iff.mp h
      obtain ⟨hcoded, hform, hvalue⟩ := codedChar?_eq_some_iff.mp hc
      exact eq_escapeChars_of_token (.coded hcoded hform hvalue) ih h
  | case10 ds d cs _ ih =>
      rw [← ih h]
      simp [Reading.front]
  | case4 | case8 | case11 => cases h

/-- Reading accepts exactly what is written. -/
theorem unescape?_eq_some_iff {w s : String} : unescape? w = some s ↔ escape s = w := by
  unfold unescape?
  constructor
  · intro h
    obtain ⟨cs, hcs, rfl⟩ := Option.map_eq_some_iff.mp h
    apply String.toList_injective
    rw [toList_escape, String.toList_ofList]
    exact (eq_escapeChars_of_unescapeFrom hcs).symm
  · rintro rfl
    rw [toList_escape, unescapeFrom_escapeChars, Option.map_some, String.ofList_toList]

/-! ### Quotes -/

/-- How many backslashes stand at the end of some characters. -/
def backslashes (front : List Char) : Nat := (front.rtakeWhile (· == '\\')).length

theorem backslashes_concat (front : List Char) (c : Char) :
    backslashes (front ++ [c]) = if c = '\\' then backslashes front + 1 else 0 := by
  unfold backslashes
  rw [List.rtakeWhile_concat]
  split <;> simp_all

theorem backslashes_append (front rest : List Char) :
    backslashes (front ++ rest) =
      if rest.all (· == '\\') = true then backslashes front + backslashes rest
      else backslashes rest := by
  induction rest using List.reverseRecOn with
  | nil => simp [backslashes]
  | append_singleton rest c ih =>
      rw [← List.append_assoc, backslashes_concat, backslashes_concat, ih, List.all_append]
      by_cases hc : c = '\\'
      · subst hc
        simp only [if_true, List.all_cons, List.all_nil, beq_self_eq_true, Bool.and_true]
        split <;> omega
      · rw [if_neg hc, if_neg hc, if_neg]
        simp [hc]

/-- A token in front of some characters does not change whether what follows them is escaped. -/
theorem backslashes_token {t : List Char} {c : Char} (ht : IsToken t c) (front : List Char) :
    backslashes (t ++ front) % 2 = backslashes front % 2 := by
  have heven : backslashes t % 2 = 0 := by
    cases ht with
    | plain hc =>
        have hne : c ≠ '\\' := by
          rintro rfl
          exact hc.2 List.mem_cons_self
        have hzero := backslashes_concat [] c
        rw [if_neg hne] at hzero
        exact congrArg (· % 2) hzero
    | @short l c hc =>
        have hall : ∀ p ∈ shortForms, backslashes ['\\', p.1] % 2 = 0 := by decide
        exact hall (l, c) hc
    | @coded c ds hc hds hvalue =>
        have hzero := backslashes_concat ('\\' :: 'u' :: '{' :: ds) '}'
        exact congrArg (· % 2) hzero
  rw [backslashes_append]
  split
  · omega
  · rfl

/-- A quote in a token stands behind the backslash that begins it. -/
theorem front_of_quote {front rest : List Char} {q c : Char}
    (ht : IsToken (front ++ q :: rest) c) (hq : q = '\'' ∨ q = '"') : front = ['\\'] := by
  have hmem : q ∈ front ++ q :: rest := by simp
  generalize hw : front ++ q :: rest = w at ht hmem
  cases ht with
  | plain hc =>
      obtain rfl := List.mem_singleton.mp hmem
      exact absurd (by rcases hq with rfl | rfl <;> simp) hc.2
  | @short l c hc =>
      cases front with
      | nil =>
          obtain ⟨rfl, -⟩ := List.cons.inj hw
          exact absurd hq (by decide)
      | cons b front =>
          obtain ⟨rfl, hw⟩ := List.cons.inj hw
          cases front with
          | nil => rfl
          | cons b front => simp at hw
  | @coded c ds hc hds hvalue =>
      simp only [List.mem_cons, List.mem_append, List.not_mem_nil, or_false] at hmem
      have hdigit : q ∉ hexDigits := by rcases hq with rfl | rfl <;> decide
      rcases hmem with rfl | rfl | rfl | hmem | rfl
      · exact absurd hq (by decide)
      · exact absurd hq (by decide)
      · exact absurd hq (by decide)
      · exact absurd (hds.digits q hmem) hdigit
      · exact absurd hq (by decide)

theorem backslashes_of_quote {s front rest : List Char} {q : Char} (hq : q = '\'' ∨ q = '"')
    (h : escapeChars s = front ++ q :: rest) : backslashes front % 2 = 1 := by
  induction s generalizing front with
  | nil => simp at h
  | cons c s ih =>
      have ht : IsToken (escapeChar c) c := isToken_iff.mpr rfl
      rw [escapeChars_cons, List.append_eq_append_iff] at h
      rcases h with ⟨front, rfl, h⟩ | ⟨inside, hinside, h⟩
      · rw [backslashes_token ht]
        exact ih h
      · cases inside with
        | nil =>
            rw [List.append_nil] at hinside
            have hparity := backslashes_token ht []
            rw [List.append_nil, hinside] at hparity
            rw [hparity]
            apply ih
            rw [List.nil_append] at h
            exact h.symm
        | cons b inside =>
            obtain ⟨rfl, -⟩ := List.cons.inj h
            rw [hinside] at ht
            rw [front_of_quote ht hq]
            rfl

/-! ### Escaped texts -/

/-- Printable ASCII in which every quote stands behind a backslash that escapes it. -/
structure IsHarmless (w : String) : Prop where
  printable : ∀ c ∈ w.toList, isPrintableAscii c = true
  guarded : ∀ front q rest, w.toList = front ++ q :: rest → q = '\'' ∨ q = '"' →
    backslashes front % 2 = 1

theorem printable_of_token {t : List Char} {c : Char} (ht : IsToken t c) :
    ∀ d ∈ t, isPrintableAscii d = true := by
  cases ht with
  | plain hc => simpa using hc.1
  | @short l c hc =>
      have hall : (shortForms.all fun p => isPrintableAscii p.1) = true := by decide
      intro d hd
      rcases List.mem_cons.mp hd with rfl | hd
      · decide
      · rw [List.mem_singleton.mp hd]
        exact List.all_eq_true.mp hall (l, c) hc
  | @coded c ds hc hds hvalue =>
      have hdigit : hexDigits.all isPrintableAscii = true := by decide
      intro d hd
      simp only [List.mem_cons, List.mem_append, List.not_mem_nil, or_false] at hd
      rcases hd with rfl | rfl | rfl | hd | rfl
      · decide
      · decide
      · decide
      · exact List.all_eq_true.mp hdigit d (hds.digits d hd)
      · decide

theorem isHarmless_escape (s : String) : IsHarmless (escape s) := by
  constructor
  case printable =>
    intro d hd
    rw [toList_escape] at hd
    obtain ⟨c, -, hd⟩ := List.mem_flatMap.mp hd
    exact printable_of_token (isToken_iff.mpr rfl) d hd
  case guarded =>
    intro front q rest hsplit hq
    rw [toList_escape] at hsplit
    exact backslashes_of_quote hq hsplit

/-- A text is a concatenation of tokens. -/
def IsTokenized (w : String) : Prop :=
  ∃ ts cs, List.Forall₂ IsToken ts cs ∧ w.toList = ts.flatten

theorem forall₂_isToken_iff {ts : List (List Char)} {cs : List Char} :
    List.Forall₂ IsToken ts cs ↔ ts = cs.map escapeChar := by
  have hrelation : IsToken = fun t c => t = escapeChar c := by
    funext t c
    exact propext isToken_iff
  rw [hrelation, ← List.forall₂_map_right_iff, List.forall₂_eq_eq_eq]

/-- The escaped texts are the concatenations of tokens. -/
theorem isTokenized_iff {w : String} : IsTokenized w ↔ ∃ s, escape s = w := by
  constructor
  · rintro ⟨ts, cs, hts, hw⟩
    obtain rfl := forall₂_isToken_iff.mp hts
    refine ⟨String.ofList cs, String.toList_injective ?_⟩
    rw [toList_escape, String.toList_ofList, hw, escapeChars, List.flatMap_def]
  · rintro ⟨s, rfl⟩
    refine ⟨_, s.toList, forall₂_isToken_iff.mpr rfl, ?_⟩
    rw [toList_escape, escapeChars, List.flatMap_def]

/-- **Escaping is exact.**  An escaped text is harmless, it is read back as the text it was made
of, and the escape of a concatenation is the concatenation of the escapes.  The escaped texts are
the concatenations of tokens, and escaping what has been read from one gives it again. -/
theorem escape_exact :
    (∀ s, IsHarmless (escape s)) ∧
    (∀ s, unescape? (escape s) = some s) ∧ Function.Injective escape ∧
    (∀ s t, escape (s ++ t) = escape s ++ escape t) ∧
    (∀ w, (∃ s, escape s = w) ↔ IsTokenized w) ∧
    (∀ w, IsTokenized w ↔ ∃ s, unescape? w = some s ∧ escape s = w) := by
  have hread : ∀ s, unescape? (escape s) = some s := fun s => unescape?_eq_some_iff.mpr rfl
  refine ⟨isHarmless_escape, hread, ?_, escape_append, fun w => isTokenized_iff.symm, ?_⟩
  · intro s t h
    apply Option.some.inj
    rw [← hread s, ← hread t, h]
  · intro w
    rw [isTokenized_iff]
    constructor
    · rintro ⟨s, rfl⟩
      exact ⟨s, hread s, rfl⟩
    · rintro ⟨s, -, hs⟩
      exact ⟨s, hs⟩

end CodeListing
