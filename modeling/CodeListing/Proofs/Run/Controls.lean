import CodeListing.Backend.Artifact
import CodeListing.Proofs.Code.Sections
import CodeListing.Proofs.Run.Output

/-! # Reports without control characters

A control character in a report would be obeyed by the terminal that shows it.  Printable characters
are none (`not_control_of_printable`), so only texts that are shown as they were given can bring one
in.  Of a compiled unit these are the names of its variables and the texts of its numbers
(`CodeUnit.IsTame`); the names and files of units, and whatever texts and strings of bytes there are
among the constants, are escaped or quoted.  Hence the report of tame units holds no control
characters but its line feeds (`report_free_of_controls`). -/

namespace CodeListing

def isControl (c : Char) : Bool := c.toNat < 0x20 || (0x7f ≤ c.toNat && c.toNat ≤ 0x9f)

/-- Whether a character is a line feed or no control character. -/
def isHarmlessChar (c : Char) : Bool := c = '\n' || !isControl c

theorem isHarmlessChar_iff {c : Char} :
    isHarmlessChar c = true ↔ c = '\n' ∨ isControl c = false := by
  simp [isHarmlessChar]

/-- The control characters beyond the tilde are the first that are not shown as they are. -/
theorem not_control_of_printable {c : Char} (h : isPrintable c = true) : isControl c = false := by
  unfold isPrintable at h
  split at h
  · next hlt =>
      simp only [isPrintableAscii, Bool.and_eq_true, decide_eq_true_eq] at h
      simp only [isControl, Bool.or_eq_false_iff, Bool.and_eq_false_iff, decide_eq_false_iff_not]
      omega
  · next hge =>
      have hbeyond : ¬ c.toNat ≤ 0x9f := by
        intro hle
        have hmem : (0x7f, 0xa0) ∈ unprintable :=
          List.mem_append_left _ (List.mem_append_left _ List.mem_cons_self)
        have hrange := inRanges_of_mem hmem (Nat.le_of_not_lt hge) (by omega)
        rw [hrange] at h
        cases h
      simp only [isControl, Bool.or_eq_false_iff, Bool.and_eq_false_iff, decide_eq_false_iff_not]
      omega

theorem isHarmlessChar_of_printable (c : Char) (h : isPrintable c = true) :
    isHarmlessChar c = true :=
  isHarmlessChar_iff.mpr (.inr (not_control_of_printable h))

/-! ### Tame units -/

mutual

/-- Whether no unit is part of a constant. -/
def Constant.isUnitFree : Constant → Bool
  | .code _ => false
  | .tuple items => areUnitFree items
  | .set items => areUnitFree items
  | _ => true

/-- Whether no unit is part of some constants. -/
def areUnitFree : List Constant → Bool
  | [] => true
  | k :: ks => k.isUnitFree && areUnitFree ks

end

/-- Whether a constant is a unit, or no unit is part of it. -/
def Constant.isDirect : Constant → Bool
  | .code _ => true
  | k => k.isUnitFree

/-- A unit whose names hold no control characters and whose numbers have plain texts.  Units nested
in it are constants themselves and not part of others. -/
structure CodeUnit.IsTame (u : CodeUnit) : Prop where
  names : ∀ name ∈ u.names, MadeOf (fun c => !isControl c) name
  slots : ∀ name ∈ u.slots, MadeOf (fun c => !isControl c) name
  numbers : ∀ text ∈ numbersIn u.constants, MadeOf isPrintableAscii text
  direct : ∀ k ∈ u.constants, k.isDirect = true

namespace CodeUnit
variable {u : CodeUnit}

instance (u : CodeUnit) : Decidable u.IsTame :=
  decidable_of_iff ((∀ name ∈ u.names, MadeOf (fun c => !isControl c) name) ∧
      (∀ name ∈ u.slots, MadeOf (fun c => !isControl c) name) ∧
      (∀ text ∈ numbersIn u.constants, MadeOf isPrintableAscii text) ∧
      ∀ k ∈ u.constants, k.isDirect = true)
    ⟨fun ⟨names, slots, numbers, direct⟩ => ⟨names, slots, numbers, direct⟩,
      fun ⟨names, slots, numbers, direct⟩ => ⟨names, slots, numbers, direct⟩⟩

theorem IsTame.givenIn (h : u.IsTame) : u.GivenIn isHarmlessChar := by
  have tame {s : String} (hs : MadeOf (fun c => !isControl c) s) : MadeOf isHarmlessChar s :=
    hs.mono fun c hc => isHarmlessChar_iff.mpr (.inr (by simpa using hc))
  constructor
  case names => exact fun name hname => tame (h.names name hname)
  case slots => exact fun name hname => tame (h.slots name hname)
  case numbers =>
    intro text htext
    apply (h.numbers text htext).mono
    exact fun c hc => isHarmlessChar_of_printable c (printable_of_ascii hc)

end CodeUnit

/-! ### Reports -/

theorem madeOf_reportText {display : String} (h : MadeOf isHarmlessChar display) (name : String) :
    MadeOf isHarmlessChar (reportText display name) := by
  have hheading : MadeOf isPrintable (reportHeading name) := by
    unfold reportHeading
    simp only [madeOf_append]
    exact ⟨⟨by decide, madeOf_escape name⟩, by decide⟩
  unfold reportText
  simp only [madeOf_append]
  exact ⟨⟨hheading.mono isHarmlessChar_of_printable, by decide⟩, h⟩

theorem madeOf_terminated {text : String} (h : MadeOf isHarmlessChar text) :
    MadeOf isHarmlessChar (terminated text) := by
  unfold terminated
  split
  · exact h
  · exact madeOf_append.mpr ⟨h, by decide⟩

/-- **Reports without control characters.**  The instructions of a tame unit and of all units in it
are written unless an argument is too long; then the text of the report holds no control characters
but line feeds.  In any case what is left on the output holds none. -/
theorem report_free_of_controls (name : String) {u : CodeUnit}
    (hdecodes : ∀ v ∈ u.units, v.Decodes) (htame : ∀ v ∈ u.units, v.IsTame) :
    ((∀ v ∈ u.units, ∀ n ∈ v.arguments, IsShort n) →
      ∃ display, (Artifact.ofCode u).display = .ok display ∧
        ∀ c ∈ (reportText display name).toList, c = '\n' ∨ isControl c = false) ∧
    ((∃ v ∈ u.units, ∃ n ∈ v.arguments, ¬ IsShort n) →
      (Artifact.ofCode u).display = .error .tooManyDigits) ∧
    ∀ c ∈ (report (Artifact.ofCode u).display name).output.toList,
      c = '\n' ∨ isControl c = false := by
  have htext : ∀ {display}, u.render = .ok display →
      MadeOf isHarmlessChar (reportText display name) := by
    intro display hdisplay
    apply madeOf_reportText
    apply CodeUnit.madeOf_render isHarmlessChar_of_printable (by decide) _ hdisplay
    exact fun v hv => (htame v hv).givenIn
  have hwrites := CodeUnit.writes_render_of_decodes hdecodes
  refine ⟨fun hshort => ?_, ?_, ?_⟩
  · obtain ⟨display, hdisplay⟩ := hwrites.ok_of_short fun n hn => by
      obtain ⟨v, hv, hn⟩ := List.mem_flatMap.mp hn
      exact hshort v hv n hn
    exact ⟨display, hdisplay, fun c hc => isHarmlessChar_iff.mp (htext hdisplay c hc)⟩
  · rintro ⟨v, hv, n, hn, hlong⟩
    exact hwrites.error_of_long (List.mem_flatMap.mpr ⟨v, hv, hn⟩) hlong
  · intro c hc
    apply isHarmlessChar_iff.mp
    have hdisplay : (Artifact.ofCode u).display = u.render := rfl
    rw [hdisplay] at hc
    cases hrender : u.render with
    | error f =>
        rw [report_of_fault hrender name] at hc
        cases hc
    | ok display =>
        rw [report_of_shown hrender name] at hc
        refine madeOf_join (fun s hs => ?_) c hc
        have hcases : s = terminated (reportText display name) ∨ s = "" := by
          simpa [Event.output] using hs
        rcases hcases with rfl | rfl
        · exact madeOf_terminated (htext hrender)
        · decide

/-- Sequences that would clear the screen or name the window, wherever a text is escaped or quoted,
are reported without a control character. -/
theorem report_free_of_controls_hostile :
    let inner : CodeUnit := { CodeUnit.loading [.int 7] with name := "\x1b[2J\n", file := "\x07" }
    let outer : CodeUnit := .loading [.text "\x1b]0;\u009b\x07\n", .bytes [0x1b, 0x9b, 0x0a],
      .tuple [.text "\r", .number "1.5"], .set [.text "\x7f", .int 1], .code inner]
    ∃ display, (Artifact.ofCode outer).display = .ok display ∧
      ∀ c ∈ (reportText display "\x1b[2J\n").toList, c = '\n' ∨ isControl c = false := by
  intro inner outer
  exact (report_free_of_controls "\x1b[2J\n" (u := outer) (by decide +kernel) (by decide)).1
    (by decide +kernel)

end CodeListing
