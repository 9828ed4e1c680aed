import CodeListing.Proofs.Text.Pieces
import CodeListing.Report
import Mathlib.Data.List.Forall2

/-! # Texts made of blocks of lines

A block is a sequence of lines none of which is empty (`IsBlock`), each with a line feed behind it
(`unlines`).  Blocks that are put together with one more line feed between them are found again when
the text is split at its double line feeds (`paragraphs_intercalate`): there are as many paragraphs
as blocks, and each is its block with or without the last line feed (`IsPartOf`).  Either way its
lines are those of the block (`lines_of_isPartOf`). -/

namespace CodeListing

/-- The parts of a text between its double line feeds, of which the first comes first. -/
def paragraphs : List Char → List (List Char)
  | [] => [[]]
  | '\n' :: '\n' :: cs => [] :: paragraphs cs
  | c :: cs => (paragraphs cs).modifyHead (c :: ·)

/-- Some lines with a line feed behind each. -/
def unlines (ls : List (List Char)) : List Char := ls.flatMap (· ++ ['\n'])

/-- Lines of which none is empty, and at least one of them. -/
structure IsBlock (ls : List (List Char)) : Prop where
  ne_nil : ls ≠ []
  filled : ∀ l ∈ ls, l ≠ [] ∧ '\n' ∉ l

theorem unlines_cons (l : List Char) (ls : List (List Char)) :
    unlines (l :: ls) = l ++ '\n' :: unlines ls := by
  unfold unlines
  rw [List.flatMap_cons, List.append_assoc]
  rfl

theorem toList_join (ls : List String) :
    (String.join (ls.map (· ++ "\n"))).toList = unlines (ls.map String.toList) := by
  induction ls with
  | nil => rfl
  | cons l ls ih =>
      rw [List.map_cons, String.join_cons, String.toList_append, String.toList_append, ih,
        List.map_cons, unlines_cons, List.append_assoc]
      rfl

theorem isBlock_cons {l m : List Char} {ls : List (List Char)} :
    IsBlock (l :: m :: ls) ↔ (l ≠ [] ∧ '\n' ∉ l) ∧ IsBlock (m :: ls) := by
  constructor
  · rintro ⟨-, h⟩
    refine ⟨h l List.mem_cons_self, List.cons_ne_nil m ls, fun k hk => ?_⟩
    exact h k (List.mem_cons_of_mem l hk)
  · rintro ⟨hl, -, h⟩
    refine ⟨List.cons_ne_nil l _, fun k hk => ?_⟩
    rcases List.mem_cons.mp hk with rfl | hk
    · exact hl
    · exact h k hk

/-- A block does not begin with a line feed, whatever follows it. -/
theorem head?_unlines_append {ls : List (List Char)} (h : IsBlock ls) (rest : List Char) :
    (unlines ls ++ rest).head? ≠ some '\n' := by
  obtain ⟨l, ls, rfl⟩ := List.exists_cons_of_ne_nil h.ne_nil
  obtain ⟨hne, hfeed⟩ := h.filled l List.mem_cons_self
  obtain ⟨c, cs, rfl⟩ := List.exists_cons_of_ne_nil hne
  rw [unlines_cons, List.cons_append, List.cons_append, List.head?_cons]
  rintro hc
  obtain rfl := Option.some.inj hc
  exact hfeed List.mem_cons_self

/-! ### Splitting -/

theorem paragraphs_cons_of_ne {c : Char} (h : c ≠ '\n') (cs : List Char) :
    paragraphs (c :: cs) = (paragraphs cs).modifyHead (c :: ·) := by
  rw [paragraphs]
  rintro - rfl
  exact absurd rfl h

theorem paragraphs_feed {cs : List Char} (h : cs.head? ≠ some '\n') :
    paragraphs ('\n' :: cs) = (paragraphs cs).modifyHead ('\n' :: ·) := by
  rw [paragraphs]
  rintro ds - rfl
  exact absurd rfl h

/-- What stands in front of the first line feed is part of the first paragraph. -/
theorem paragraphs_append {l : List Char} (h : '\n' ∉ l) (cs : List Char) :
    paragraphs (l ++ cs) = (paragraphs cs).modifyHead (l ++ ·) := by
  induction l with
  | nil =>
      show paragraphs cs = (paragraphs cs).modifyHead id
      rw [List.modifyHead_id]
      rfl
  | cons c l ih =>
      rw [List.mem_cons, not_or] at h
      rw [List.cons_append, paragraphs_cons_of_ne (Ne.symm h.1), ih h.2, List.modifyHead_modifyHead]
      rfl

theorem paragraphs_unlines {ls : List (List Char)} (h : IsBlock ls) :
    paragraphs (unlines ls) = [unlines ls] := by
  induction ls with
  | nil => exact absurd rfl h.ne_nil
  | cons l ls ih =>
      have hl := h.filled l List.mem_cons_self
      rw [unlines_cons, paragraphs_append hl.2]
      cases ls with
      | nil => rfl
      | cons m ls =>
          have hrest := (isBlock_cons.mp h).2
          have hhead := head?_unlines_append hrest []
          rw [List.append_nil] at hhead
          rw [paragraphs_feed hhead, ih hrest]
          rfl

/-- A block is a paragraph without its last line feed where another line feed comes behind it. -/
theorem paragraphs_unlines_append {ls : List (List Char)} (h : IsBlock ls) (rest : List Char) :
    ∃ p, p ++ ['\n'] = unlines ls ∧
      paragraphs (unlines ls ++ '\n' :: rest) = p :: paragraphs rest := by
  induction ls with
  | nil => exact absurd rfl h.ne_nil
  | cons l ls ih =>
      have hl := h.filled l List.mem_cons_self
      cases ls with
      | nil =>
          refine ⟨l, (unlines_cons l []).symm, ?_⟩
          rw [unlines_cons, List.append_assoc, paragraphs_append hl.2]
          show (([] : List Char) :: paragraphs rest).modifyHead (l ++ ·) = _
          rw [List.modifyHead_cons, List.append_nil]
      | cons m ls =>
          have hrest := (isBlock_cons.mp h).2
          obtain ⟨p, hp, hsplit⟩ := ih hrest
          refine ⟨l ++ '\n' :: p, ?_, ?_⟩
          · rw [unlines_cons, ← hp, List.append_assoc, List.cons_append]
          · rw [unlines_cons, List.append_assoc, paragraphs_append hl.2, List.cons_append,
              paragraphs_feed (head?_unlines_append hrest _), hsplit]
            rfl

/-- A part of a text that is a whole of its own, with or without the last line feed. -/
def IsPartOf (whole part : List Char) : Prop := part = whole ∨ part ++ ['\n'] = whole

/-- Blocks with one more line feed between them are found again as paragraphs. -/
theorem paragraphs_intercalate {texts : List (List Char)} (hne : texts ≠ [])
    (h : ∀ text ∈ texts, ∃ ls, IsBlock ls ∧ text = unlines ls) :
    List.Forall₂ IsPartOf texts (paragraphs (['\n'].intercalate texts)) := by
  induction texts with
  | nil => exact absurd rfl hne
  | cons text texts ih =>
      obtain ⟨ls, hls, rfl⟩ := h text List.mem_cons_self
      cases texts with
      | nil =>
          rw [List.intercalate_singleton, paragraphs_unlines hls]
          exact .cons (.inl rfl) .nil
      | cons next texts =>
          obtain ⟨p, hp, hsplit⟩ := paragraphs_unlines_append hls
            (['\n'].intercalate (next :: texts))
          rw [List.intercalate_cons_cons, List.append_assoc, List.singleton_append, hsplit]
          refine .cons (.inr hp) (ih (List.cons_ne_nil _ _) fun t ht => ?_)
          exact h t (List.mem_cons_of_mem _ ht)

/-! ### Lines -/

theorem pieces_line_append {l : List Char} (h : '\n' ∉ l) (cs : List Char) :
    pieces (l ++ '\n' :: cs) = l :: pieces cs := by
  rw [pieces_eq_splitOn, pieces_eq_splitOn, List.splitOn_append_cons_self_of_not_mem h]

theorem pieces_unlines {ls : List (List Char)} (h : ∀ l ∈ ls, '\n' ∉ l) :
    pieces (unlines ls) = ls ++ [[]] := by
  induction ls with
  | nil => rfl
  | cons l ls ih =>
      rw [unlines_cons, pieces_line_append (h l List.mem_cons_self),
        ih fun k hk => h k (List.mem_cons_of_mem l hk), List.cons_append]

section
variable {ls : List (List Char)} {part : List Char} (h : IsBlock ls)
  (hpart : IsPartOf (unlines ls) part)
include h hpart

theorem lines_of_isPartOf : lines part = ls := by
  have hpieces := pieces_unlines fun l hl => (h.filled l hl).2
  unfold lines
  dsimp only
  rcases hpart with rfl | hpart
  · rw [hpieces, List.getLast?_concat, if_pos rfl, List.dropLast_concat]
  · rw [← hpart, pieces_concat_feed] at hpieces
    rw [List.append_cancel_right hpieces, if_neg]
    intro hlast
    exact (h.filled [] (List.mem_of_getLast? hlast)).1 rfl

theorem terminated_of_isPartOf : terminated (String.ofList part) = String.ofList (unlines ls) := by
  unfold terminated
  rw [String.toList_ofList]
  rcases hpart with rfl | hpart
  · have hlast : (unlines ls).getLast? = some '\n' := by
      obtain ⟨ms, l, rfl⟩ := (List.eq_nil_or_concat ls).resolve_left h.ne_nil
      rw [List.concat_eq_append, unlines, List.flatMap_append, List.flatMap_singleton,
        ← List.append_assoc, List.getLast?_concat]
    rw [if_pos hlast]
  · rw [if_neg]
    · rw [← hpart, String.ofList_append]
    · -- otherwise the last line would be empty
      intro hlast
      obtain ⟨q, rfl⟩ := List.getLast?_eq_some_iff.mp hlast
      have hpieces := pieces_unlines fun l hl => (h.filled l hl).2
      rw [← hpart, pieces_concat_feed, pieces_concat_feed] at hpieces
      have hempty : [] ∈ ls := by
        rw [← List.append_cancel_right hpieces]
        exact List.mem_append_right _ (List.mem_singleton_self _)
      exact (h.filled [] hempty).1 rfl

end

end CodeListing
