import CodeListing.Fault
import CodeListing.Proofs.Text.Unescape
import CodeListing.Text.Blank
import CodeListing.Text.Integer
import CodeListing.Text.Quote

/-! # What texts are made of

A text that is put together from others is made of the characters of these (`MadeOf`).  Numbers are
written with digits and a sign (`mem_toDigits`), and the forms in which a text of any kind is shown,
escaped (`madeOf_escape`) or between quotes (`madeOf_quoteText`), hold printable characters only,
whatever the text holds.

A line feed is not printable (`notFeed_of_printable`), so such forms are on one line; a text is on
one line if it holds no line feed (`IsLine`). -/

namespace CodeListing

/-- A text of characters that all have a property. -/
def MadeOf (p : Char → Bool) (s : String) : Prop := ∀ c ∈ s.toList, p c = true

instance (p : Char → Bool) (s : String) : Decidable (MadeOf p s) :=
  List.decidableBAll (fun c => p c = true) s.toList

section
variable {p q : Char → Bool}

theorem MadeOf.mono {s : String} (hs : MadeOf p s) (h : ∀ c, p c = true → q c = true) :
    MadeOf q s :=
  fun c hc => h c (hs c hc)

theorem madeOf_ofList {cs : List Char} : MadeOf p (String.ofList cs) ↔ ∀ c ∈ cs, p c = true := by
  unfold MadeOf
  rw [String.toList_ofList]

theorem madeOf_append {s t : String} : MadeOf p (s ++ t) ↔ MadeOf p s ∧ MadeOf p t := by
  unfold MadeOf
  rw [String.toList_append, List.forall_mem_append]

theorem madeOf_intercalate {sep : String} {ss : List String} (hsep : MadeOf p sep)
    (h : ∀ s ∈ ss, MadeOf p s) : MadeOf p (sep.intercalate ss) := by
  induction ss with
  | nil =>
      intro c hc
      cases hc
  | cons s ss ih =>
      have hs := h s List.mem_cons_self
      cases ss with
      | nil => rwa [String.intercalate_singleton]
      | cons t ts =>
          rw [String.intercalate_cons_cons]
          have hrest := ih fun u hu => h u (List.mem_cons_of_mem s hu)
          exact madeOf_append.mpr ⟨madeOf_append.mpr ⟨hs, hsep⟩, hrest⟩

theorem madeOf_join {ss : List String} (h : ∀ s ∈ ss, MadeOf p s) : MadeOf p (String.join ss) := by
  induction ss with
  | nil =>
      intro c hc
      cases hc
  | cons s ss ih =>
      rw [String.join_cons]
      have hrest := ih fun t ht => h t (List.mem_cons_of_mem s ht)
      exact madeOf_append.mpr ⟨h s List.mem_cons_self, hrest⟩

end

theorem prefix_dropEnd (p : Char → Bool) (cs : List Char) : dropEnd p cs <+: cs :=
  List.rdropWhile_prefix p cs

theorem mem_dropEnd {p : Char → Bool} {c : Char} {cs : List Char} (h : c ∈ cs) (hc : p c = false) :
    c ∈ dropEnd p cs := by
  have hdrop : ∀ ds : List Char, c ∈ ds → c ∈ ds.dropWhile p := by
    intro ds hds
    induction ds with
    | nil => cases hds
    | cons d ds ih =>
        rw [List.dropWhile_cons]
        split
        · next hd =>
            rcases List.mem_cons.mp hds with rfl | hds
            · rw [hc] at hd
              cases hd
            · exact ih hds
        · exact hds
  exact List.mem_reverse.mpr (hdrop _ (List.mem_reverse.mpr h))

/-- What ends in something that is not dropped stays as it is. -/
theorem dropEnd_eq_self {p : Char → Bool} {c : Char} {cs : List Char} (h : [c] <:+ cs)
    (hc : p c = false) : dropEnd p cs = cs := by
  obtain ⟨front, rfl⟩ := h
  simp [dropEnd, hc]

theorem madeOf_trimEnd {p : Char → Bool} {s : String} (h : MadeOf p s) : MadeOf p (trimEnd s) := by
  intro c hc
  rw [toList_trimEnd] at hc
  exact h c ((prefix_dropEnd isBlank s.toList).subset hc)

theorem printable_of_ascii {c : Char} (h : isPrintableAscii c = true) : isPrintable c = true := by
  have hlt : c.toNat < 0x7f := by
    simp only [isPrintableAscii, Bool.and_eq_true, decide_eq_true_eq] at h
    exact h.2
  rw [isPrintable, if_pos hlt, h]

/-! ### Numbers -/

/-- The characters of a number in decimal or hexadecimal. -/
def numeralChars : List Char := '-' :: "0123456789abcdef".toList

theorem ascii_of_mem_numeralChars (c : Char) (h : c ∈ numeralChars) :
    isPrintableAscii c = true := by
  have hall : numeralChars.all isPrintableAscii = true := by decide
  exact List.all_eq_true.mp hall c h

theorem printable_of_mem_numeralChars (c : Char) (h : c ∈ numeralChars) : isPrintable c = true :=
  printable_of_ascii (ascii_of_mem_numeralChars c h)

theorem digitChar_mem {d : Nat} (h : d < 16) : d.digitChar ∈ numeralChars := by
  revert d
  decide

theorem mem_toDigits {b n : Nat} {c : Char} (hb : 1 < b) (hb' : b ≤ 16) (h : c ∈ Nat.toDigits b n) :
    c ∈ numeralChars := by
  induction n using Nat.strongRecOn with
  | ind n ih =>
      rw [Nat.toDigits_eq_if hb] at h
      split at h
      · next hn =>
          obtain rfl := List.mem_singleton.mp h
          exact digitChar_mem (Nat.lt_of_lt_of_le hn hb')
      · next hn =>
          rcases List.mem_append.mp h with h | h
          · exact ih _ (Nat.div_lt_self (by omega) hb) h
          · obtain rfl := List.mem_singleton.mp h
            exact digitChar_mem (Nat.lt_of_lt_of_le (Nat.mod_lt n (by omega)) hb')

theorem mem_natural {n : Nat} {c : Char} (h : c ∈ Numeral.natural n) : c ∈ numeralChars := by
  rw [Numeral.natural_eq_toDigits] at h
  exact mem_toDigits (by decide) (by decide) h

theorem mem_decimal {n : Int} {c : Char} (h : c ∈ Numeral.decimal n) : c ∈ numeralChars := by
  cases n with
  | ofNat m => exact mem_natural h
  | negSucc m =>
      rcases List.mem_cons.mp h with rfl | h
      · exact List.mem_cons_self
      · exact mem_natural h

theorem mem_of_mem_leftpad {k : Nat} {a c : Char} {cs : List Char} (h : c ∈ cs.leftpad k a) :
    c = a ∨ c ∈ cs :=
  (List.mem_append.mp h).imp_left fun h => (List.mem_replicate.mp h).2

theorem mem_of_mem_rightpad {k : Nat} {a c : Char} {cs : List Char} (h : c ∈ cs.rightpad k a) :
    c = a ∨ c ∈ cs :=
  (List.mem_append.mp h).symm.imp_left fun h => (List.mem_replicate.mp h).2

theorem mem_hexWide {width n : Nat} {c : Char} (h : c ∈ Numeral.hexWide width n) :
    c ∈ numeralChars := by
  rcases mem_of_mem_leftpad h with rfl | h
  · decide
  · exact mem_toDigits (by decide) (by decide) h

theorem mem_signedHexWide {width : Nat} {n : Int} {c : Char}
    (h : c ∈ Numeral.signedHexWide width n) : c ∈ numeralChars := by
  cases n with
  | ofNat m => exact mem_hexWide h
  | negSucc m =>
      rcases List.mem_cons.mp h with rfl | h
      · exact List.mem_cons_self
      · exact mem_hexWide h

theorem ascii_numeralText (n : Int) : MadeOf isPrintableAscii (Numeral.text n) :=
  madeOf_ofList.mpr fun c hc => ascii_of_mem_numeralChars c (mem_decimal hc)

theorem madeOf_numeralText (n : Int) : MadeOf isPrintable (Numeral.text n) :=
  (ascii_numeralText n).mono fun _ => printable_of_ascii

/-! ### Shown texts -/

theorem ascii_escape (s : String) : MadeOf isPrintableAscii (escape s) :=
  (isHarmless_escape s).printable

theorem madeOf_escape (s : String) : MadeOf isPrintable (escape s) :=
  (ascii_escape s).mono fun _ => printable_of_ascii

theorem printable_of_mem_numericEscape {n : Nat} {c : Char} (h : c ∈ numericEscape n) :
    isPrintable c = true := by
  have hwide : ∀ letter ∈ ['x', 'u', 'U'], ∀ width,
      c ∈ '\\' :: letter :: Numeral.hexWide width n → isPrintable c = true := by
    intro letter hletter width hc
    have hletters : ['x', 'u', 'U'].all isPrintable = true := by decide
    rcases List.mem_cons.mp hc with rfl | hc
    · decide
    rcases List.mem_cons.mp hc with rfl | hc
    · exact List.all_eq_true.mp hletters c hletter
    · exact printable_of_mem_numeralChars c (mem_hexWide hc)
  unfold numericEscape at h
  split at h
  · exact hwide 'x' (by simp) 2 h
  split at h
  · exact hwide 'u' (by simp) 4 h
  · exact hwide 'U' (by simp) 8 h

section
variable {keeps : Char → Bool} (hkeeps : ∀ c, keeps c = true → isPrintable c = true)
include hkeeps

theorem printable_of_mem_quoteChar {quote c d : Char} (hquote : isPrintable quote = true)
    (h : d ∈ quoteChar keeps quote c) : isPrintable d = true := by
  have hletter : ∀ l, isPrintable l = true → d ∈ ['\\', l] → isPrintable d = true := by
    intro l hl hd
    rcases List.mem_cons.mp hd with rfl | hd
    · decide
    · rwa [List.mem_singleton.mp hd]
  unfold quoteChar at h
  split at h
  · next hc =>
      refine hletter c ?_ h
      rcases hc with rfl | rfl
      · exact hquote
      · decide
  split at h
  · exact hletter 't' (by decide) h
  split at h
  · exact hletter 'n' (by decide) h
  split at h
  · exact hletter 'r' (by decide) h
  split at h
  · next hc =>
      rw [List.mem_singleton.mp h]
      exact hkeeps c hc
  · exact printable_of_mem_numericEscape h

theorem printable_of_mem_quoteChars {cs : List Char} {d : Char} (h : d ∈ quoteChars keeps cs) :
    isPrintable d = true := by
  have hquote : isPrintable (quoteFor cs) = true := by
    unfold quoteFor
    split <;> decide
  simp only [quoteChars, List.mem_cons, List.mem_append, List.not_mem_nil, or_false] at h
  rcases h with rfl | h | rfl
  · exact hquote
  · obtain ⟨c, -, hd⟩ := List.mem_flatMap.mp h
    exact printable_of_mem_quoteChar hkeeps hquote hd
  · exact hquote

end

theorem madeOf_quoteText (s : String) : MadeOf isPrintable (quoteText s) :=
  madeOf_ofList.mpr fun _ hc => printable_of_mem_quoteChars (fun _ h => h) hc

theorem madeOf_quoteBytes (bs : List UInt8) : MadeOf isPrintable (quoteBytes bs) := by
  refine madeOf_ofList.mpr fun c hc => ?_
  rcases List.mem_cons.mp hc with rfl | hc
  · decide
  · exact printable_of_mem_quoteChars (fun _ => printable_of_ascii) hc

/-! ### Texts on one line -/

/-- A text without a line feed. -/
def IsLine (s : String) : Prop := '\n' ∉ s.toList

instance (s : String) : Decidable (IsLine s) := inferInstanceAs (Decidable (¬ _))

/-- Whether a character is no line feed. -/
def notFeed (c : Char) : Bool := c ≠ '\n'

theorem notFeed_of_printable (c : Char) (h : isPrintable c = true) : notFeed c = true := by
  rw [notFeed, decide_eq_true_eq]
  rintro rfl
  exact absurd h (by decide)

theorem isLine_iff {s : String} : IsLine s ↔ MadeOf notFeed s := by
  unfold IsLine MadeOf notFeed
  constructor
  · intro h c hc
    rw [decide_eq_true_eq]
    rintro rfl
    exact h hc
  · intro h hfeed
    exact absurd (h '\n' hfeed) (by decide)

end CodeListing
