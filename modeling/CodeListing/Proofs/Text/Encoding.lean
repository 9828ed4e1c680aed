import CodeListing.Text.Utf8

/-! # Well-formed bytes

A number is written in one, two, three or four bytes: a lead byte with its highest bits, and
continuation bytes with six bits each (`Sequence.bytes`).  A sequence is well formed if no smaller
number of bytes has room for its number, and the number is that of a character: it is not one of the
surrogates, and not above `U+10FFFF` (`Sequence.IsWellFormed`).  Bytes are well formed if they are
such sequences one after the other, so that none of them breaks off (`IsWellFormed`).

A decoder that walks over the bytes never sees a number before its last byte has come.  It knows
the same sequences by their lead bytes and the ranges of the bytes behind
(`Sequence.IsWellFormed.continues`, `exists_sequence_of_continues`).  So it succeeds exactly on
well-formed bytes, and with the characters of the numbers (`decode_eq_ok_iff`).  The bytes of a text
are well formed, and the text is read back from them (`decode_toUTF8`). -/

namespace CodeListing.Utf8

/-- How many bytes a number is written in. -/
inductive Width where
  | one
  | two
  | three
  | four
deriving DecidableEq, Repr

namespace Width

/-- The least number for which fewer bytes have no room. -/
def least : Width → Nat
  | one => 0
  | two => 0x80
  | three => 0x800
  | four => 0x10000

/-- The least number for which there is no room. -/
def capacity : Width → Nat
  | one => 0x80
  | two => 0x800
  | three => 0x10000
  | four => 0x200000

/-- What is added to the highest bits of a number in its lead byte. -/
def marker : Width → Nat
  | one => 0
  | two => 0xc0
  | three => 0xe0
  | four => 0xf0

end Width

/-- A number in the bytes of some width, which has room for it. -/
structure Sequence where
  width : Width
  number : Nat
  fits : number < width.capacity

/-- A byte with the six lowest bits of a number. -/
def continuationByte (n : Nat) : UInt8 := .ofNat (0x80 + n % 64)

namespace Sequence
variable (s : Sequence)

def bytes : List UInt8 :=
  let n := s.number
  match s.width with
  | .one => [.ofNat n]
  | .two => [.ofNat (0xc0 + n / 64), continuationByte n]
  | .three => [.ofNat (0xe0 + n / 64 / 64), continuationByte (n / 64), continuationByte n]
  | .four =>
    [.ofNat (0xf0 + n / 64 / 64 / 64), continuationByte (n / 64 / 64), continuationByte (n / 64),
      continuationByte n]

/-- A sequence that is not overlong, and whose number is that of a character. -/
structure IsWellFormed : Prop where
  shortest : s.width.least ≤ s.number
  noSurrogate : ¬ (0xd800 ≤ s.number ∧ s.number ≤ 0xdfff)
  inRange : s.number ≤ 0x10ffff

def char : Char := .ofNat s.number

end Sequence

/-- Bytes that are well-formed sequences, one after the other. -/
def IsWellFormed (bytes : List UInt8) : Prop :=
  ∃ ss : List Sequence, (∀ s ∈ ss, s.IsWellFormed) ∧ bytes = ss.flatMap Sequence.bytes

/-! ### What lead bytes lead to -/

namespace Width

/-- The highest bits that a well-formed number can have in a width: the least ones, and the least
ones beyond. -/
def leads : Width → Nat × Nat
  | one => (0, 0x80)
  | two => (2, 0x20)
  | three => (0, 0x10)
  | four => (0, 5)

/-- The ranges of the bytes behind a lead byte with the given bits.  Where these bits alone do not
exclude an overlong sequence, a surrogate or a number above `U+10FFFF`, the next byte does. -/
def ranges : Width → Nat → List (Nat × Nat)
  | one, _ => []
  | two, _ => [continuation]
  | three, x =>
    [(if x = 0 then 0xa0 else 0x80, if x = 0xd then 0x9f else 0xbf), continuation]
  | four, x =>
    [(if x = 0 then 0x90 else 0x80, if x = 4 then 0x8f else 0xbf), continuation, continuation]

end Width

theorem leadOf_of_leads {w : Width} {x : Nat} (hlow : w.leads.1 ≤ x) (hhigh : x < w.leads.2) :
    leadOf (w.marker + x) = some (x, w.ranges x) := by
  cases w with
  | one => simp [Width.marker, Width.ranges, leadOf, show x < 0x80 from hhigh]
  | two =>
      change 2 ≤ x at hlow
      change x < 0x20 at hhigh
      show leadOf (0xc0 + x) = _
      rw [leadOf, if_neg (by omega), if_neg (by omega), if_pos (by omega), Nat.add_sub_cancel_left]
      rfl
  | three =>
      have hall : ∀ x < 0x10, leadOf (0xe0 + x) = some (x, Width.three.ranges x) := by decide
      exact hall x hhigh
  | four =>
      have hall : ∀ x < 5, leadOf (0xf0 + x) = some (x, Width.four.ranges x) := by decide
      exact hall x hhigh

theorem leads_of_leadOf {b x : Nat} {rs : List (Nat × Nat)} (h : leadOf b = some (x, rs)) :
    ∃ w : Width, b = w.marker + x ∧ w.leads.1 ≤ x ∧ x < w.leads.2 ∧ rs = w.ranges x := by
  unfold leadOf at h
  split at h
  · next hone =>
      obtain ⟨rfl, rfl⟩ := Prod.mk.inj (Option.some.inj h)
      exact ⟨.one, (Nat.zero_add b).symm, Nat.zero_le b, hone, rfl⟩
  split at h
  · cases h
  split at h
  · next hlow hhigh =>
      obtain ⟨rfl, rfl⟩ := Prod.mk.inj (Option.some.inj h)
      refine ⟨.two, ?_, ?_, ?_, rfl⟩ <;> simp only [Width.marker, Width.leads] <;> omega
  split at h
  · next hb =>
      obtain ⟨rfl, rfl⟩ := Prod.mk.inj (Option.some.inj h)
      exact ⟨.three, hb, by decide, by decide, rfl⟩
  split at h
  · next hb =>
      obtain ⟨rfl, rfl⟩ := Prod.mk.inj (Option.some.inj h)
      exact ⟨.three, hb, by decide, by decide, rfl⟩
  split at h
  · next hlow hfirst hsurrogate hhigh =>
      obtain ⟨rfl, rfl⟩ := Prod.mk.inj (Option.some.inj h)
      refine ⟨.three, ?_, Nat.zero_le _, ?_, ?_⟩
      · simp only [Width.marker]; omega
      · simp only [Width.leads]; omega
      · rw [Width.ranges, if_neg (by omega), if_neg (by omega), continuation]
  split at h
  · next hb =>
      obtain ⟨rfl, rfl⟩ := Prod.mk.inj (Option.some.inj h)
      exact ⟨.four, hb, by decide, by decide, rfl⟩
  split at h
  · next hlow hfirst hhigh =>
      obtain ⟨rfl, rfl⟩ := Prod.mk.inj (Option.some.inj h)
      refine ⟨.four, ?_, Nat.zero_le _, ?_, ?_⟩
      · simp only [Width.marker]; omega
      · simp only [Width.leads]; omega
      · rw [Width.ranges, if_neg (by omega), if_neg (by omega), continuation]
  split at h
  · next hb =>
      obtain ⟨rfl, rfl⟩ := Prod.mk.inj (Option.some.inj h)
      exact ⟨.four, hb, by decide, by decide, rfl⟩
  · cases h

/-! ### Bytes of one character -/

/-- Bytes within ranges, with the number that some bits become when the bytes are read behind
them. -/
inductive Continues : List (Nat × Nat) → Nat → List UInt8 → Nat → Prop where
  | done (n : Nat) : Continues [] n [] n
  | next {r : Nat × Nat} {rs : List (Nat × Nat)} {bits n : Nat} {b : UInt8} {bs : List UInt8}
      (hlow : r.1 ≤ b.toNat) (hhigh : b.toNat ≤ r.2)
      (hrest : Continues rs (64 * bits + (b.toNat - 0x80)) bs n) :
      Continues (r :: rs) bits (b :: bs) n

theorem toNat_continuationByte (n : Nat) : (continuationByte n).toNat = 0x80 + n % 64 :=
  UInt8.toNat_ofNat_of_lt' (show 0x80 + n % 64 < 256 by omega)

theorem toNat_lead {w : Width} {x : Nat} (h : x < w.leads.2) :
    (UInt8.ofNat (w.marker + x)).toNat = w.marker + x := by
  refine UInt8.toNat_ofNat_of_lt' (show w.marker + x < 256 from ?_)
  cases w <;> simp only [Width.marker, Width.leads] at h ⊢ <;> omega

theorem continuationByte_of_toNat {b : UInt8} {n : Nat} (h : b.toNat = 0x80 + n % 64) :
    continuationByte n = b := by
  rw [continuationByte, ← h, UInt8.ofNat_toNat]

theorem Continues.byte {r : Nat × Nat} {rs : List (Nat × Nat)} {k n : Nat} {bs : List UInt8}
    (hlow : r.1 ≤ 0x80 + k % 64) (hhigh : 0x80 + k % 64 ≤ r.2) (hrest : Continues rs k bs n) :
    Continues (r :: rs) (k / 64) (continuationByte k :: bs) n := by
  have hbits : 64 * (k / 64) + ((continuationByte k).toNat - 0x80) = k := by
    rw [toNat_continuationByte]
    omega
  refine .next ?_ ?_ (hbits.symm ▸ hrest) <;> rwa [toNat_continuationByte]

/-- The bytes of a well-formed sequence are a lead byte and bytes within its ranges. -/
theorem Sequence.IsWellFormed.continues {s : Sequence} (h : s.IsWellFormed) :
    ∃ (b : UInt8) (bs : List UInt8) (x : Nat), s.bytes = b :: bs ∧
      leadOf b.toNat = some (x, s.width.ranges x) ∧
      Continues (s.width.ranges x) x bs s.number := by
  obtain ⟨w, n, hfits⟩ := s
  obtain ⟨hshortest, hsurrogate, hrange⟩ := h
  dsimp only at hshortest hsurrogate hrange
  have hlead {x : Nat} (hlow : w.leads.1 ≤ x) (hhigh : x < w.leads.2) :
      leadOf (UInt8.ofNat (w.marker + x)).toNat = some (x, w.ranges x) := by
    rw [toNat_lead hhigh, leadOf_of_leads hlow hhigh]
  cases w with
  | one =>
      simp only [Width.least, Width.capacity] at hshortest hfits
      refine ⟨_, _, n, rfl, ?_, .done n⟩
      have := hlead (x := n) (Nat.zero_le n) hfits
      simpa [Width.marker] using this
  | two =>
      simp only [Width.least, Width.capacity] at hshortest hfits
      refine ⟨_, _, n / 64, rfl, hlead ?_ ?_, .byte ?_ ?_ (.done n)⟩
      all_goals simp only [Width.leads, continuation]; omega
  | three =>
      simp only [Width.least, Width.capacity] at hshortest hfits
      have hlow : (if n / 64 / 64 = 0 then 0xa0 else 0x80) ≤ 0x80 + n / 64 % 64 := by
        split <;> omega
      have hhigh : 0x80 + n / 64 % 64 ≤ (if n / 64 / 64 = 0xd then 0x9f else 0xbf) := by
        split <;> omega
      refine ⟨_, _, n / 64 / 64, rfl, hlead ?_ ?_, .byte hlow hhigh (.byte ?_ ?_ (.done n))⟩
      all_goals simp only [Width.leads, continuation]; omega
  | four =>
      simp only [Width.least, Width.capacity] at hshortest hfits
      have hlow : (if n / 64 / 64 / 64 = 0 then 0x90 else 0x80) ≤ 0x80 + n / 64 / 64 % 64 := by
        split <;> omega
      have hhigh : 0x80 + n / 64 / 64 % 64 ≤ (if n / 64 / 64 / 64 = 4 then 0x8f else 0xbf) := by
        split <;> omega
      refine ⟨_, _, n / 64 / 64 / 64, rfl, hlead ?_ ?_,
        .byte hlow hhigh (.byte ?_ ?_ (.byte ?_ ?_ (.done n)))⟩
      all_goals simp only [Width.leads, continuation]; omega

theorem eq_of_continues_nil {k n : Nat} {bs : List UInt8} (h : Continues [] k bs n) :
    bs = [] ∧ n = k := by
  cases h
  exact ⟨rfl, rfl⟩

/-- Behind some bits, the next byte carries six more. -/
theorem exists_of_continues {r : Nat × Nat} {rs : List (Nat × Nat)} {x n : Nat} {bs : List UInt8}
    (h : Continues (r :: rs) x bs n) (hlow : 0x80 ≤ r.1) (hhigh : r.2 ≤ 0xbf) :
    ∃ (k : Nat) (bs' : List UInt8), k / 64 = x ∧ r.1 ≤ 0x80 + k % 64 ∧ 0x80 + k % 64 ≤ r.2 ∧
      bs = continuationByte k :: bs' ∧ Continues rs k bs' n := by
  cases h with
  | @next _ _ _ _ b bs' hb hb' hrest =>
      have hbyte : b.toNat = 0x80 + (64 * x + (b.toNat - 0x80)) % 64 := by omega
      refine ⟨64 * x + (b.toNat - 0x80), bs', by omega, by omega, by omega, ?_, hrest⟩
      rw [continuationByte_of_toNat hbyte]

/-- A lead byte and bytes within its ranges are those of a well-formed sequence. -/
theorem exists_sequence_of_continues {b : UInt8} {bs : List UInt8} {x n : Nat}
    {rs : List (Nat × Nat)} (hlead : leadOf b.toNat = some (x, rs)) (h : Continues rs x bs n) :
    ∃ s : Sequence, s.IsWellFormed ∧ s.bytes = b :: bs ∧ s.number = n := by
  obtain ⟨w, hb, hlow, hhigh, rfl⟩ := leads_of_leadOf hlead
  obtain rfl : b = .ofNat (w.marker + x) := by rw [← hb, UInt8.ofNat_toNat]
  cases w with
  | one =>
      simp only [Width.leads] at hhigh
      obtain ⟨rfl, rfl⟩ := eq_of_continues_nil h
      refine ⟨⟨.one, n, hhigh⟩, ⟨Nat.zero_le n, ?_, ?_⟩, ?_, rfl⟩
      · dsimp only; omega
      · dsimp only; omega
      · simp only [Sequence.bytes, Width.marker, Nat.zero_add]
  | two =>
      simp only [Width.leads] at hlow hhigh
      obtain ⟨k, bs, hx, -, -, rfl, hrest⟩ := exists_of_continues h (by decide) (by decide)
      obtain ⟨rfl, rfl⟩ := eq_of_continues_nil hrest
      subst hx
      refine ⟨⟨.two, n, ?_⟩, ⟨?_, ?_, ?_⟩, rfl, rfl⟩
      all_goals simp only [Width.least, Width.capacity]; omega
  | three =>
      simp only [Width.leads] at hlow hhigh
      obtain ⟨j, bs, hx, hj, hj', rfl, hnext⟩ := exists_of_continues h
        (by dsimp only; split <;> omega) (by dsimp only; split <;> omega)
      obtain ⟨k, bs, hk, -, -, rfl, hrest⟩ := exists_of_continues hnext (by decide) (by decide)
      obtain ⟨rfl, rfl⟩ := eq_of_continues_nil hrest
      subst hk hx
      dsimp only at hj hj'
      refine ⟨⟨.three, n, ?_⟩, ⟨?_, ?_, ?_⟩, rfl, rfl⟩
      all_goals simp only [Width.least, Width.capacity]
      · omega
      · split at hj <;> omega
      · split at hj' <;> omega
      · omega
  | four =>
      simp only [Width.leads] at hlow hhigh
      obtain ⟨i, bs, hx, hi, hi', rfl, hnext⟩ := exists_of_continues h
        (by dsimp only; split <;> omega) (by dsimp only; split <;> omega)
      obtain ⟨j, bs, hj, -, -, rfl, hnext'⟩ := exists_of_continues hnext (by decide) (by decide)
      obtain ⟨k, bs, hk, -, -, rfl, hrest⟩ := exists_of_continues hnext' (by decide) (by decide)
      obtain ⟨rfl, rfl⟩ := eq_of_continues_nil hrest
      subst hk hj hx
      dsimp only at hi hi'
      refine ⟨⟨.four, n, ?_⟩, ⟨?_, ?_, ?_⟩, rfl, rfl⟩
      all_goals simp only [Width.least, Width.capacity]
      · omega
      · split at hi <;> omega
      · split at hi <;> omega
      · split at hi' <;> omega

/-! ### Bytes of a text -/

/-- What is read from a position on when bytes within some ranges are to come first, behind a lead
byte and bits that have been read. -/
def resume (pos position : Nat) (lead : UInt8) (bits : Nat) :
    List (Nat × Nat) → List UInt8 → Except Malformed (List Char)
  | [], bytes => (decodeFrom pos none bytes).map (Char.ofNat bits :: ·)
  | next :: later, bytes => decodeFrom pos (some ⟨position, lead, bits, next, later⟩) bytes

section
variable {pos position : Nat} {lead b : UInt8} {bits : Nat} {r : Nat × Nat}
  {rs : List (Nat × Nat)} {bytes : List UInt8} {cs : List Char}

theorem decodeFrom_of_lead (h : leadOf b.toNat = some (bits, rs)) :
    decodeFrom pos none (b :: bytes) = resume (pos + 1) pos b bits rs bytes := by
  rw [decodeFrom, h]
  cases rs <;> rfl

theorem resume_of_within (hlow : r.1 ≤ b.toNat) (hhigh : b.toNat ≤ r.2) :
    resume pos position lead bits (r :: rs) (b :: bytes) =
      resume (pos + 1) position lead (64 * bits + (b.toNat - 0x80)) rs bytes := by
  rw [resume, decodeFrom, if_pos ⟨hlow, hhigh⟩]
  cases rs <;> rfl

theorem map_eq_ok_iff {ε α β : Type} {f : α → β} {e : Except ε α} {b : β} :
    e.map f = .ok b ↔ ∃ a, e = .ok a ∧ b = f a := by
  cases e with
  | error e => simp [Except.map]
  | ok a => simp [Except.map, eq_comm]

/-- Reading goes on with the bytes that are to come, and succeeds if they do. -/
theorem resume_eq_ok_iff :
    resume pos position lead bits rs bytes = .ok cs ↔
      ∃ (bs rest : List UInt8) (n : Nat) (cs' : List Char), bytes = bs ++ rest ∧
        Continues rs bits bs n ∧ decodeFrom (pos + bs.length) none rest = .ok cs' ∧
        cs = .ofNat n :: cs' := by
  induction rs generalizing pos bits bytes with
  | nil =>
      rw [resume, map_eq_ok_iff]
      constructor
      · rintro ⟨cs', hrest, rfl⟩
        exact ⟨[], bytes, bits, cs', rfl, .done bits, hrest, rfl⟩
      · rintro ⟨bs, rest, n, cs', rfl, hbs, hrest, rfl⟩
        obtain ⟨rfl, rfl⟩ := eq_of_continues_nil hbs
        exact ⟨cs', hrest, rfl⟩
  | cons r rs ih =>
      constructor
      · intro h
        cases bytes with
        | nil => cases h
        | cons b bytes =>
            by_cases hb : r.1 ≤ b.toNat ∧ b.toNat ≤ r.2
            · rw [resume_of_within hb.1 hb.2] at h
              obtain ⟨bs, rest, n, cs', rfl, hbs, hrest, rfl⟩ := ih.mp h
              refine ⟨b :: bs, rest, n, cs', rfl, .next hb.1 hb.2 hbs, ?_, rfl⟩
              rwa [List.length_cons, Nat.add_comm bs.length, ← Nat.add_assoc]
            · rw [resume, decodeFrom, if_neg hb] at h
              cases h
      · rintro ⟨bs, rest, n, cs', rfl, hbs, hrest, rfl⟩
        cases hbs with
        | @next _ _ _ _ b bs hlow hhigh hbs =>
            rw [List.cons_append, resume_of_within hlow hhigh]
            rw [List.length_cons, Nat.add_comm bs.length, ← Nat.add_assoc] at hrest
            exact ih.mpr ⟨bs, rest, n, cs', rfl, hbs, hrest, rfl⟩

/-- Reading succeeds behind a well-formed sequence if it does so behind all of its bytes. -/
theorem decodeFrom_sequence {s : Sequence} (hs : s.IsWellFormed) {rest : List UInt8}
    (h : decodeFrom (pos + s.bytes.length) none rest = .ok cs) :
    decodeFrom pos none (s.bytes ++ rest) = .ok (s.char :: cs) := by
  obtain ⟨b, bs, x, hbytes, hlead, hbs⟩ := hs.continues
  rw [hbytes, List.length_cons, Nat.add_comm bs.length, ← Nat.add_assoc] at h
  rw [hbytes, List.cons_append, decodeFrom_of_lead hlead, resume_eq_ok_iff]
  exact ⟨bs, rest, s.number, cs, rfl, hbs, h, rfl⟩

theorem exists_sequence_of_decodeFrom (h : decodeFrom pos none (b :: bytes) = .ok cs) :
    ∃ (s : Sequence) (rest : List UInt8) (cs' : List Char), s.IsWellFormed ∧
      b :: bytes = s.bytes ++ rest ∧ decodeFrom (pos + s.bytes.length) none rest = .ok cs' ∧
      cs = s.char :: cs' := by
  cases hlead : leadOf b.toNat with
  | none =>
      rw [decodeFrom, hlead] at h
      cases h
  | some p =>
      obtain ⟨x, rs⟩ := p
      rw [decodeFrom_of_lead hlead, resume_eq_ok_iff] at h
      obtain ⟨bs, rest, n, cs', rfl, hbs, hrest, rfl⟩ := h
      obtain ⟨s, hs, hbytes, rfl⟩ := exists_sequence_of_continues hlead hbs
      refine ⟨s, rest, cs', hs, ?_, ?_, rfl⟩
      · rw [hbytes]
        rfl
      · rwa [hbytes, List.length_cons, Nat.add_comm bs.length, ← Nat.add_assoc]

end

theorem Sequence.bytes_ne_nil (s : Sequence) : s.bytes ≠ [] := by
  obtain ⟨w, n, hfits⟩ := s
  cases w <;> exact List.cons_ne_nil _ _

theorem decodeFrom_flatMap {ss : List Sequence} (hss : ∀ s ∈ ss, s.IsWellFormed) (pos : Nat) :
    decodeFrom pos none (ss.flatMap Sequence.bytes) = .ok (ss.map Sequence.char) := by
  induction ss generalizing pos with
  | nil => rfl
  | cons s ss ih =>
      obtain ⟨hs, hrest⟩ := List.forall_mem_cons.mp hss
      rw [List.flatMap_cons, List.map_cons]
      exact decodeFrom_sequence hs (ih hrest _)

theorem exists_sequences_of_decodeFrom {pos : Nat} {bytes : List UInt8} {cs : List Char}
    (h : decodeFrom pos none bytes = .ok cs) :
    ∃ ss : List Sequence, (∀ s ∈ ss, s.IsWellFormed) ∧ bytes = ss.flatMap Sequence.bytes ∧
      cs = ss.map Sequence.char := by
  induction hlength : bytes.length using Nat.strongRecOn generalizing pos bytes cs with
  | _ k ih =>
      cases bytes with
      | nil =>
          obtain rfl : [] = cs := Except.ok.inj h
          exact ⟨[], by simp, rfl, rfl⟩
      | cons b bytes =>
          obtain ⟨s, rest, cs', hs, hbytes, hrest, rfl⟩ := exists_sequence_of_decodeFrom h
          have hshorter : rest.length < k := by
            have hpos := List.length_pos_iff.mpr s.bytes_ne_nil
            rw [← hlength, hbytes, List.length_append]
            omega
          obtain ⟨ss, hss, rfl, rfl⟩ := ih rest.length hshorter hrest rfl
          exact ⟨s :: ss, List.forall_mem_cons.mpr ⟨hs, hss⟩, hbytes, rfl⟩

/-- **Decoding succeeds exactly on well-formed bytes**, and with the characters of their numbers. -/
theorem decode_eq_ok_iff {bytes : List UInt8} {cs : List Char} :
    decode bytes = .ok cs ↔
      ∃ ss : List Sequence, (∀ s ∈ ss, s.IsWellFormed) ∧ bytes = ss.flatMap Sequence.bytes ∧
        cs = ss.map Sequence.char := by
  constructor
  · exact exists_sequences_of_decodeFrom
  · rintro ⟨ss, hss, rfl, rfl⟩
    exact decodeFrom_flatMap hss 0

/-! ### Texts in bytes -/

theorem exists_sequence_of_char (c : Char) :
    ∃ s : Sequence, s.IsWellFormed ∧ s.bytes = String.utf8EncodeChar c ∧ s.char = c := by
  have hvalid : c.toNat < 0xd800 ∨ 0xdfff < c.toNat ∧ c.toNat < 0x110000 := c.valid
  have hchar : Char.ofNat c.toNat = c := Char.ofNat_toNat c
  have hval : c.val.toNat = c.toNat := rfl
  unfold String.utf8EncodeChar
  rw [hval]
  generalize c.toNat = n at hvalid hchar
  dsimp only
  have wellFormed (w : Width) (hfits : n < w.capacity) (hleast : w.least ≤ n) :
      (Sequence.mk w n hfits).IsWellFormed :=
    ⟨hleast, by dsimp only; omega, by dsimp only; omega⟩
  split
  · next hone =>
      refine ⟨⟨.one, n, ?_⟩, wellFormed _ _ ?_, rfl, hchar⟩
      all_goals simp only [Width.least, Width.capacity]; omega
  split
  · next htwo =>
      refine ⟨⟨.two, n, ?_⟩, wellFormed _ _ ?_, ?_, hchar⟩
      · simp only [Width.capacity]; omega
      · simp only [Width.least]; omega
      · rw [show n / 64 % 32 + 192 = 0xc0 + n / 64 by omega, Nat.add_comm (n % 64)]
        rfl
  split
  · next hthree =>
      refine ⟨⟨.three, n, ?_⟩, wellFormed _ _ ?_, ?_, hchar⟩
      · simp only [Width.capacity]; omega
      · simp only [Width.least]; omega
      · rw [show n / 4096 % 16 + 224 = 0xe0 + n / 64 / 64 by omega, Nat.add_comm (n / 64 % 64),
          Nat.add_comm (n % 64)]
        rfl
  · next hfour =>
      refine ⟨⟨.four, n, ?_⟩, wellFormed _ _ ?_, ?_, hchar⟩
      · simp only [Width.capacity]; omega
      · simp only [Width.least]; omega
      · rw [show n / 262144 % 8 + 240 = 0xf0 + n / 64 / 64 / 64 by omega,
          show n / 4096 % 64 + 128 = 0x80 + n / 64 / 64 % 64 by omega, Nat.add_comm (n / 64 % 64),
          Nat.add_comm (n % 64)]
        rfl

/-- The bytes of a text are well formed, and the text is read back from them. -/
theorem decode_toUTF8 (t : String) : decode t.toUTF8.data.toList = .ok t.toList := by
  have hbytes : t.toUTF8.data.toList = t.toList.flatMap String.utf8EncodeChar := by
    have htext : t.toUTF8 = t.toList.utf8Encode := by
      rw [← String.toByteArray_ofList, String.ofList_toList]
      rfl
    rw [htext, List.utf8Encode, List.data_toByteArray]
  rw [hbytes]
  generalize t.toList = cs
  rw [decode_eq_ok_iff]
  induction cs with
  | nil => exact ⟨[], by simp, rfl, rfl⟩
  | cons c cs ih =>
      obtain ⟨s, hs, hbytes, hchar⟩ := exists_sequence_of_char c
      obtain ⟨ss, hss, hrest, hchars⟩ := ih
      refine ⟨s :: ss, List.forall_mem_cons.mpr ⟨hs, hss⟩, ?_, ?_⟩
      · rw [List.flatMap_cons, List.flatMap_cons, hbytes, hrest]
      · rw [List.map_cons, hchar, ← hchars]

end CodeListing.Utf8
