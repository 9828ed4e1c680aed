import CodeListing.Proofs.Text.Paragraphs
import CodeListing.Text.Utf8
import Mathlib.Data.List.Chain

/-! # Line ends

A line ends with a carriage return and a line feed, with a carriage return alone or with a line feed
alone (`LineEnd`).  `Lined` is a text taken apart at its line ends; it is proper if no line has a
character of a line end in it, and no carriage return that counts alone has a line feed behind it
(`Lined.IsProper`).  Every text is taken apart properly (`exists_lined`).

Unifying the line ends puts one line feed in the place of each, and changes nothing else
(`Lined.IsProper.unifyLineEnds_chars`).  So no carriage return is left
(`Lined.IsProper.return_notMem_unified`), and the pieces of the unified text are the lines
(`Lined.pieces_unified`).  A text without a carriage return stays as it is
(`unifyLineEnds_eq_self`). -/

namespace CodeListing

/-- How a line ends. -/
inductive LineEnd where
  | pair
  | loneReturn
  | loneFeed
deriving DecidableEq, Repr

def LineEnd.chars : LineEnd → List Char
  | pair => ['\r', '\n']
  | loneReturn => ['\r']
  | loneFeed => ['\n']

/-- A line and the line end in front of it. -/
abbrev FurtherLine := LineEnd × List Char

/-- Whether the line ends of two lines are two: directly behind a carriage return, a line feed is no
line end of its own. -/
def Apart (e e' : FurtherLine) : Prop := ¬ (e = (.loneReturn, []) ∧ e'.1 = .loneFeed)

/-- A text as its first line, and each further line with the line end in front of it. -/
structure Lined where
  first : List Char
  further : List FurtherLine

namespace Lined
variable (d : Lined)

def lines : List (List Char) := d.first :: d.further.map Prod.snd

def chars : List Char := d.first ++ d.further.flatMap fun e => e.1.chars ++ e.2

/-- The text with a line feed in the place of each line end. -/
def unified : List Char := d.first ++ d.further.flatMap fun e => '\n' :: e.2

/-- A text taken apart at all of its line ends, and within none. -/
structure IsProper : Prop where
  plain : ∀ l ∈ d.lines, '\r' ∉ l ∧ '\n' ∉ l
  whole : d.further.IsChain Apart

end Lined

open Utf8 (unifyLineEnds)

/-! ### Unifying, step by step -/

section
variable {c : Char} {l cs : List Char}

theorem unifyLineEnds_pair (cs : List Char) :
    unifyLineEnds ('\r' :: '\n' :: cs) = '\n' :: unifyLineEnds cs := rfl

theorem unifyLineEnds_return (h : cs.head? ≠ some '\n') :
    unifyLineEnds ('\r' :: cs) = '\n' :: unifyLineEnds cs := by
  cases cs with
  | nil => rfl
  | cons c cs =>
      rw [unifyLineEnds, if_pos rfl]
      rintro cs' - hfeed
      exact h (congrArg List.head? hfeed)

theorem unifyLineEnds_cons_of_ne (h : c ≠ '\r') (cs : List Char) :
    unifyLineEnds (c :: cs) = c :: unifyLineEnds cs := by
  rw [unifyLineEnds, if_neg h]
  rintro cs' rfl -
  exact h rfl

theorem unifyLineEnds_append (h : '\r' ∉ l) (cs : List Char) :
    unifyLineEnds (l ++ cs) = l ++ unifyLineEnds cs := by
  induction l with
  | nil => rfl
  | cons c l ih =>
      rw [List.mem_cons, not_or] at h
      rw [List.cons_append, unifyLineEnds_cons_of_ne (Ne.symm h.1), ih h.2, List.cons_append]

theorem unifyLineEnds_eq_self (h : '\r' ∉ cs) : unifyLineEnds cs = cs := by
  have hall := unifyLineEnds_append h []
  rwa [List.append_nil, unifyLineEnds, List.append_nil] at hall

end

/-! ### Texts taken apart -/

namespace Lined

/-- Behind a carriage return that counts alone no line feed comes first. -/
theorem head?_behind_return {l : List Char} {es : List FurtherLine} (hl : '\n' ∉ l)
    (h : List.IsChain Apart ((.loneReturn, l) :: es)) :
    (l ++ es.flatMap fun e => e.1.chars ++ e.2).head? ≠ some '\n' := by
  cases l with
  | cons c l =>
      intro hc
      obtain rfl := Option.some.inj hc
      exact hl List.mem_cons_self
  | nil =>
      cases es with
      | nil =>
          intro hc
          cases hc
      | cons e es =>
          have hapart := (List.isChain_cons_cons.mp h).1
          obtain ⟨ending, l⟩ := e
          cases ending with
          | pair => exact show some '\r' ≠ some '\n' by decide
          | loneReturn => exact show some '\r' ≠ some '\n' by decide
          | loneFeed => exact absurd ⟨rfl, rfl⟩ hapart

theorem unifyLineEnds_further {es : List FurtherLine}
    (hplain : ∀ e ∈ es, '\r' ∉ e.2 ∧ '\n' ∉ e.2) (h : es.IsChain Apart) :
    unifyLineEnds (es.flatMap fun e => e.1.chars ++ e.2) = es.flatMap fun e => '\n' :: e.2 := by
  induction es with
  | nil => rfl
  | cons e es ih =>
      obtain ⟨ending, l⟩ := e
      obtain ⟨⟨hreturn, hfeed⟩, hrest⟩ := List.forall_mem_cons.mp hplain
      have hline : unifyLineEnds (l ++ es.flatMap fun e => e.1.chars ++ e.2) =
          l ++ es.flatMap fun e => '\n' :: e.2 := by
        rw [unifyLineEnds_append hreturn, ih hrest h.tail]
      rw [List.flatMap_cons, List.flatMap_cons, List.append_assoc, List.cons_append, ← hline]
      cases ending with
      | pair => exact unifyLineEnds_pair _
      | loneReturn => exact unifyLineEnds_return (head?_behind_return hfeed h)
      | loneFeed => exact unifyLineEnds_cons_of_ne (by decide) _

/-- A text behind a line end. -/
def behind (ending : LineEnd) (d : Lined) : Lined := ⟨[], (ending, d.first) :: d.further⟩

theorem chars_behind (ending : LineEnd) (d : Lined) :
    (behind ending d).chars = ending.chars ++ d.chars := by
  unfold behind chars
  rw [List.nil_append, List.flatMap_cons, List.append_assoc]

namespace IsProper
variable {d : Lined}

theorem further (h : d.IsProper) : ∀ e ∈ d.further, '\r' ∉ e.2 ∧ '\n' ∉ e.2 :=
  fun _ he => h.plain _ (List.mem_cons_of_mem _ (List.mem_map_of_mem he))

theorem behind (h : d.IsProper) {ending : LineEnd}
    (hapart : ∀ e ∈ d.further.head?, Apart (ending, d.first) e) : (behind ending d).IsProper where
  plain := List.forall_mem_cons.mpr ⟨⟨List.not_mem_nil, List.not_mem_nil⟩, h.plain⟩
  whole := h.whole.cons hapart

/-- **Unifying puts a line feed in the place of each line end** and changes nothing else. -/
theorem unifyLineEnds_chars (h : d.IsProper) : unifyLineEnds d.chars = d.unified := by
  unfold chars unified
  rw [unifyLineEnds_append (h.plain _ List.mem_cons_self).1,
    unifyLineEnds_further h.further h.whole]

theorem return_notMem_unified (h : d.IsProper) : '\r' ∉ d.unified := by
  unfold unified
  rw [List.mem_append, List.mem_flatMap]
  rintro (hfirst | ⟨e, he, hreturn⟩)
  · exact (h.plain _ List.mem_cons_self).1 hfirst
  · rcases List.mem_cons.mp hreturn with hne | hreturn
    · exact absurd hne (by decide)
    · exact (h.further e he).1 hreturn

end IsProper

/-- The pieces of a unified text are the lines. -/
theorem pieces_unified {first : List Char} {es : List FurtherLine}
    (h : ∀ l ∈ (Lined.mk first es).lines, '\n' ∉ l) :
    pieces (Lined.mk first es).unified = (Lined.mk first es).lines := by
  unfold lines at h ⊢
  unfold unified
  dsimp only at h ⊢
  induction es generalizing first with
  | nil =>
      rw [List.flatMap_nil, List.append_nil, pieces_eq_splitOn]
      exact List.splitOn_eq_singleton (h first List.mem_cons_self)
  | cons e es ih =>
      obtain ⟨hfirst, hrest⟩ := List.forall_mem_cons.mp h
      rw [List.flatMap_cons, List.cons_append, pieces_line_append hfirst, ih hrest, List.map_cons]

end Lined

theorem apart_of_ne {ending : LineEnd} (h : ending ≠ .loneReturn) (l : List Char)
    (e : FurtherLine) : Apart (ending, l) e :=
  fun hapart => h (congrArg Prod.fst hapart.1)

theorem exists_lined (cs : List Char) : ∃ d : Lined, d.IsProper ∧ d.chars = cs := by
  fun_induction unifyLineEnds cs with
  | case1 =>
      refine ⟨⟨[], []⟩, ⟨?_, .nil⟩, rfl⟩
      exact List.forall_mem_singleton.mpr ⟨List.not_mem_nil, List.not_mem_nil⟩
  | case2 cs ih =>
      obtain ⟨d, hd, rfl⟩ := ih
      refine ⟨.behind .pair d, hd.behind fun e _ => ?_, Lined.chars_behind _ d⟩
      exact apart_of_ne (by decide) _ e
  | case3 c cs hpair ih =>
      obtain ⟨d, hd, rfl⟩ := ih
      by_cases hreturn : c = '\r'
      · subst hreturn
        refine ⟨.behind .loneReturn d, hd.behind ?_, Lined.chars_behind _ d⟩
        rintro ⟨ending, l⟩ hhead ⟨hfirst, rfl⟩
        obtain ⟨es, hes⟩ := List.head?_eq_some_iff.mp hhead
        refine hpair (l ++ es.flatMap fun e => e.1.chars ++ e.2) rfl ?_
        rw [Lined.chars, (Prod.mk.inj hfirst).2, hes]
        rfl
      by_cases hfeed : c = '\n'
      · subst hfeed
        refine ⟨.behind .loneFeed d, hd.behind fun e _ => ?_, Lined.chars_behind _ d⟩
        exact apart_of_ne (by decide) _ e
      · refine ⟨⟨c :: d.first, d.further⟩, ⟨?_, hd.whole⟩, rfl⟩
        obtain ⟨⟨hr, hf⟩, hrest⟩ := List.forall_mem_cons.mp hd.plain
        refine List.forall_mem_cons.mpr ⟨⟨?_, ?_⟩, hrest⟩
        · exact List.not_mem_cons_of_ne_of_not_mem (Ne.symm hreturn) hr
        · exact List.not_mem_cons_of_ne_of_not_mem (Ne.symm hfeed) hf

end CodeListing
