import CodeListing.Proofs.Backend.Outcome
import CodeListing.Proofs.Code.Rendering
import CodeListing.Proofs.Run.Output

/-! # Reports on accepted sources

A source that the host accepts is compiled to a unit.  If the operands of the unit and of all units
in it refer to what is there, the report is complete, unless one of them writes an integer with more
digits than are written (`run_reports_accepted`).  Nesting is not bounded, neither of units nor of
the constants in a unit: the stack is taken to have room for all levels of it. -/

namespace CodeListing

section
variable {host : Host} {fs : FileSystem} {resolver : Resolver} {c : Configuration} {source : Source}
  {options : Options} {u : CodeUnit}
  (hload : (loadSource fs resolver c.source).result = .ok source)
  (hlevel : Options.make c.level = .ok options)
  (hanswer : Native.answer host (c.request source options) = .ok u)
include hload hlevel hanswer

/-- **Accepted sources are reported.**  The host compiles a source to a unit in which, as in all
units nested in it, operands refer to what is there.  If they write short integers only, the run
returns, and its report consists of complete listings, one for each unit.  If one of them writes an
integer with more digits than are written, the run fails because of the digits and leaves the output
alone. -/
theorem run_reports_accepted (hformed : ∀ v ∈ u.units, v.WellFormed) :
    ((∀ v ∈ u.units, ∀ n ∈ v.integers, IsShort n) →
      (run host fs resolver Native.backend c).result = .ok () ∧
      ∃ listings, List.Forall₂ CodeUnit.Lists u.units listings ∧
        (run host fs resolver Native.backend c).written =
          [.write (terminated (reportText ("\n".intercalate listings) source.name)), .flush]) ∧
    ((∃ v ∈ u.units, ∃ n ∈ v.integers, ¬ IsShort n) →
      (run host fs resolver Native.backend c).result = .error (.foreign .tooManyDigits) ∧
      (run host fs resolver Native.backend c).written = []) := by
  have hwrites := CodeUnit.writes_render hformed
  constructor
  · intro hshort
    rcases hwrites with ⟨⟨shown, hshown⟩, -⟩ | ⟨-, n, hn, hlong⟩
    · obtain ⟨listings, rfl, hlisted⟩ := CodeUnit.lists_of_render hshown
      obtain ⟨hresult, hwritten⟩ := run_of_shown hload hlevel hanswer hshown
      exact ⟨hresult, listings, hlisted, hwritten⟩
    · obtain ⟨v, hv, hn⟩ := List.mem_flatMap.mp hn
      exact absurd (hshort v hv n hn) hlong
  · rintro ⟨v, hv, n, hn, hlong⟩
    rcases hwrites with ⟨-, hshort⟩ | ⟨herror, -⟩
    · exact absurd (hshort n (List.mem_flatMap.mpr ⟨v, hv, hn⟩)) hlong
    · exact run_of_unshown hload hlevel hanswer herror

end

/-- A set, a tuple with a long integer and a unit with constants of its own are reported. -/
theorem run_reports_nested :
    let u : CodeUnit := .loading
      [.set [.int 7, .int (-3)], .tuple [.int (Nat.pow 10 4299), .text "x"],
        .code (.loading [.none])]
    let t := run (.compilingTo u) (.single "f" [120, 10]) (fun _ => .ok "/f") Native.backend
      ⟨.given (.ofText "f"), .blockExpr, .int 7, 0⟩
    t.result = .ok () ∧ ∃ outer inner, u.Lists outer ∧ (CodeUnit.loading [.none]).Lists inner ∧
      t.written =
        [.write (terminated (reportText ("\n".intercalate [outer, inner]) "f")), .flush] := by
  intro u t
  have hformed : ∀ v ∈ u.units, v.WellFormed := by decide
  have hshort : ∀ v ∈ u.units, ∀ n ∈ v.integers, IsShort n := by decide +kernel
  obtain ⟨hresult, listings, hlists, hwritten⟩ :=
    (@run_reports_accepted (.compilingTo u) (.single "f" [120, 10]) (fun _ => .ok "/f")
      ⟨.given (.ofText "f"), .blockExpr, .int 7, 0⟩ ⟨.ofText "/f", "f", "x\n"⟩
      ⟨.number 7, by decide⟩ u rfl rfl rfl hformed).1 hshort
  rw [show u.units = [u, .loading [.none]] from rfl] at hlists
  obtain ⟨outer, rest, houter, hrest, rfl⟩ := List.forall₂_cons_left_iff.mp hlists
  obtain ⟨inner, none, hinner, hnone, rfl⟩ := List.forall₂_cons_left_iff.mp hrest
  obtain rfl := List.forall₂_nil_left_iff.mp hnone
  exact ⟨hresult, outer, inner, houter, hinner, hwritten⟩

/-- The host accepts an integer that is too long to be written. -/
theorem run_fails_of_long_integer :
    let u : CodeUnit := .loading [.int (Nat.pow 16 3600)]
    let t := run (.compilingTo u) (.single "f" [120, 10]) (fun _ => .ok "/f") Native.backend
      (.plain "f")
    (∀ v ∈ u.units, v.WellFormed) ∧ t.said = ["Compiling..."] ∧
      t.result = .error (.foreign .tooManyDigits) ∧ t.written = [] := by
  intro u t
  have hformed : ∀ v ∈ u.units, v.WellFormed := by decide
  have hlong : ∃ n ∈ u.units.flatMap CodeUnit.integers, ¬ IsShort n := by
    refine ⟨Nat.pow 16 3600, ?_, ?_⟩
    · decide +kernel
    · decide +kernel
  have hrender : u.render = .error .tooManyDigits := by
    rcases CodeUnit.writes_render hformed with ⟨-, hshort⟩ | ⟨herror, -⟩
    · obtain ⟨n, hn, hlong⟩ := hlong
      exact absurd (hshort n hn) hlong
    · exact herror
  have hrun : (Native.backend.run (.compilingTo u)
      ⟨"x\n", .exec, "f", ⟨.number 0, by decide⟩⟩).result = .ok (.ofCode u) :=
    Native.run_of_answered rfl
  exact ⟨hformed, said_of_compiled rfl rfl hrun, run_of_unshown rfl rfl rfl hrender⟩

end CodeListing
