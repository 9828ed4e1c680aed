import CodeListing.Proofs.Code.Content
import CodeListing.Proofs.Text.Numerals
import CodeListing.Report

/-! # What labels identify

The label of a unit and the heading of a report hold texts in escaped form, which end at a quote.
In such a text every quote is escaped (`IsGuarded`), and so it cannot be taken for the one that ends
it: the first quote that is not escaped does (`IsGuarded.eq_of_append`).  The text in front of it
may be followed by fixed characters first (`IsGuarded.append`), as the name in a label is.

So the name, the file and the line of a unit can be told from its label, and the name of a source
from the first line of its report (`labels_identify`). -/

namespace CodeListing

/-! ### Guarded texts -/

/-- A text in which every quote is escaped, and a quote behind it is not. -/
structure IsGuarded (w : List Char) : Prop where
  guarded : ∀ front rest, w = front ++ '"' :: rest → backslashes front % 2 = 1
  behind : backslashes w % 2 = 0

/-- The first quote that is not escaped ends a guarded text. -/
theorem IsGuarded.eq_of_append {v w x y : List Char} (hv : IsGuarded v) (hw : IsGuarded w)
    (h : v ++ '"' :: x = w ++ '"' :: y) : v = w ∧ x = y := by
  have hexact : ∀ {v w x y a : List Char}, IsGuarded v → IsGuarded w → w = v ++ a →
      '"' :: x = a ++ '"' :: y → a = [] := by
    intro v w x y a hv hw hsplit hrest
    cases a with
    | nil => rfl
    | cons c a =>
        obtain ⟨rfl, -⟩ := List.cons.inj hrest
        have hodd := hw.guarded v a hsplit
        rw [hv.behind] at hodd
        cases hodd
  rcases List.append_eq_append_iff.mp h with ⟨a, hsplit, hrest⟩ | ⟨a, hsplit, hrest⟩
  · obtain rfl := hexact hv hw hsplit hrest
    rw [List.append_nil] at hsplit
    exact ⟨hsplit.symm, (List.cons.inj hrest).2⟩
  · obtain rfl := hexact hw hv hsplit hrest
    rw [List.append_nil] at hsplit
    exact ⟨hsplit, (List.cons.inj hrest).2.symm⟩

/-- Characters without quotes and backslashes may follow a guarded text. -/
theorem IsGuarded.append {w fixed : List Char} (hw : IsGuarded w)
    (hfixed : ∀ c ∈ fixed, c ≠ '"' ∧ c ≠ '\\') : IsGuarded (w ++ fixed) := by
  constructor
  case guarded =>
    intro front rest hsplit
    rcases List.append_eq_append_iff.mp hsplit with ⟨a, -, hrest⟩ | ⟨a, hfront, hrest⟩
    · have hmem : '"' ∈ fixed := hrest ▸ List.mem_append_right _ List.mem_cons_self
      exact absurd rfl (hfixed _ hmem).1
    · cases a with
      | nil =>
          rw [List.nil_append] at hrest
          have hmem : '"' ∈ fixed := hrest ▸ List.mem_cons_self
          exact absurd rfl (hfixed _ hmem).1
      | cons c a =>
          obtain ⟨rfl, -⟩ := List.cons.inj hrest
          exact hw.guarded front a hfront
  case behind =>
    rcases List.eq_nil_or_concat fixed with rfl | ⟨front, c, rfl⟩
    · rw [List.append_nil]
      exact hw.behind
    · have hc : c ≠ '\\' := (hfixed c (by simp)).2
      rw [List.concat_eq_append, ← List.append_assoc, backslashes_concat, if_neg hc]

theorem backslashes_escapeChars (s : List Char) : backslashes (escapeChars s) % 2 = 0 := by
  induction s with
  | nil => rfl
  | cons c s ih => rw [escapeChars_cons, backslashes_token (isToken_iff.mpr rfl), ih]

theorem isGuarded_escapeChars (s : List Char) : IsGuarded (escapeChars s) where
  guarded _ _ hsplit := backslashes_of_quote (.inr rfl) hsplit
  behind := backslashes_escapeChars s

theorem escapeChars_injective : Function.Injective escapeChars := by
  intro s t h
  apply Option.some.inj
  rw [← unescapeFrom_escapeChars s, ← unescapeFrom_escapeChars t, h]

/-! ### Labels -/

/-- Behind its fixed beginning a label is two guarded texts, each with a quote behind it, and the
number of a line. -/
theorem toList_label (u : CodeUnit) : u.label.toList =
    "<code object ".toList ++ ((escapeChars u.name.toList ++ ", file ".toList) ++ '"' ::
      (escapeChars u.file.toList ++ '"' ::
        (", line ".toList ++ (Numeral.decimal u.firstLine ++ ['>'])))) := by
  unfold CodeUnit.label
  simp only [String.toList_append]
  rw [toList_escape, toList_escape, Numeral.text, String.toList_ofList]
  simp

theorem label_eq_iff (u v : CodeUnit) :
    u.label = v.label ↔ u.name = v.name ∧ u.file = v.file ∧ u.firstLine = v.firstLine := by
  constructor
  · intro h
    have hfixed : (", file ".toList.all fun c => c ≠ '"' ∧ c ≠ '\\') = true := by decide
    have hname : ∀ s, IsGuarded (escapeChars s ++ ", file ".toList) := fun s =>
      (isGuarded_escapeChars s).append fun c hc =>
        of_decide_eq_true (List.all_eq_true.mp hfixed c hc)
    rw [← String.toList_inj, toList_label, toList_label] at h
    obtain ⟨hnames, h⟩ := (hname _).eq_of_append (hname _) (List.append_cancel_left h)
    obtain ⟨hfiles, h⟩ := (isGuarded_escapeChars _).eq_of_append (isGuarded_escapeChars _) h
    have hlines := List.append_cancel_right (List.append_cancel_left h)
    exact ⟨String.toList_injective (escapeChars_injective (List.append_cancel_right hnames)),
      String.toList_injective (escapeChars_injective hfiles), decimal_injective hlines⟩
  · rintro ⟨hname, hfile, hline⟩
    unfold CodeUnit.label
    rw [hname, hfile, hline]

/-! ### Reports -/

/-- The characters of a text in front of its first line feed. -/
def firstLine (text : String) : List Char := text.toList.takeWhile (· ≠ '\n')

theorem toList_reportHeading (name : String) : (reportHeading name).toList =
    "dis(\"".toList ++ (escapeChars name.toList ++ '"' :: [')', ':']) := by
  unfold reportHeading
  simp only [String.toList_append]
  rw [toList_escape]
  simp

theorem isLine_reportHeading (name : String) : IsLine (reportHeading name) := by
  rw [isLine_iff]
  unfold reportHeading
  simp only [madeOf_append]
  exact ⟨⟨by decide, (madeOf_escape name).mono notFeed_of_printable⟩, by decide⟩

theorem toList_reportText (display name : String) : (reportText display name).toList =
    (reportHeading name).toList ++ '\n' :: display.toList := by
  unfold reportText
  simp only [String.toList_append]
  simp

/-- The first line of a report is its heading, whatever the name of the source holds. -/
theorem firstLine_reportText (display name : String) :
    firstLine (reportText display name) = (reportHeading name).toList := by
  have hline : ∀ c ∈ (reportHeading name).toList, decide (c ≠ '\n') = true := by
    intro c hc
    rw [decide_eq_true_eq]
    rintro rfl
    exact isLine_reportHeading name hc
  rw [firstLine, toList_reportText, List.takeWhile_append_of_pos hline,
    List.takeWhile_cons_of_neg (by simp), List.append_nil]

/-- A name can be told from the heading of its report and whatever follows. -/
theorem name_of_heading {n m : String} {x y : List Char}
    (h : (reportHeading n).toList ++ x = (reportHeading m).toList ++ y) : n = m ∧ x = y := by
  rw [toList_reportHeading, toList_reportHeading, List.append_assoc, List.append_assoc,
    List.append_assoc, List.append_assoc] at h
  obtain ⟨hnames, h⟩ := (isGuarded_escapeChars _).eq_of_append (isGuarded_escapeChars _)
    (List.append_cancel_left h)
  have hname : n = m := String.toList_injective (escapeChars_injective hnames)
  exact ⟨hname, List.append_cancel_left h⟩

theorem reportText_eq_iff (n m x y : String) :
    reportText x n = reportText y m ↔ n = m ∧ x = y := by
  constructor
  · intro h
    rw [← String.toList_inj, toList_reportText, toList_reportText] at h
    obtain ⟨hname, hdisplay⟩ := name_of_heading h
    exact ⟨hname, String.toList_injective (List.cons.inj hdisplay).2⟩
  · rintro ⟨rfl, rfl⟩
    rfl

theorem firstLine_eq_iff (n m x y : String) :
    firstLine (reportText x n) = firstLine (reportText y m) ↔ n = m := by
  rw [firstLine_reportText, firstLine_reportText]
  constructor
  · intro h
    exact (name_of_heading (congrArg (· ++ []) h)).1
  · rintro rfl
    rfl

/-- **Labels identify what they name.**  Units have the same label just if their names, files and
lines are the same, and a label is one line of printable ASCII.  Reports are the same just if their
names and displays are, and the first line alone tells the name. -/
theorem labels_identify :
    (∀ u v : CodeUnit, u.label = v.label ↔
      u.name = v.name ∧ u.file = v.file ∧ u.firstLine = v.firstLine) ∧
    (∀ u : CodeUnit, MadeOf isPrintableAscii u.label ∧ IsLine u.label) ∧
    (∀ n m x y : String, reportText x n = reportText y m ↔ n = m ∧ x = y) ∧
    ∀ n m x y : String, firstLine (reportText x n) = firstLine (reportText y m) ↔ n = m := by
  refine ⟨label_eq_iff, fun u => ⟨ascii_label u, ?_⟩, reportText_eq_iff, firstLine_eq_iff⟩
  exact isLine_iff.mpr ((printable_label u).mono notFeed_of_printable)

end CodeListing
