import CodeListing.Command.Token
import Mathlib.Data.List.TakeWhile

/-! # How flags are spelled

A word that is taken for a flag is the flag itself, or a flag, an equals sign and a text, or a dash
and letters the first of which is a flag (`Flag.Spelled`).  Words of these forms are taken for the
flag (`Token.classify_of_word`, `Token.classify_of_equals`, `Token.classify_of_letters`), and no
others are (`Token.classify_cases`).  The name of a flag holds no equals sign, so the first one in a
word ends the name. -/

namespace CodeListing

namespace Flag
variable {f : Flag} {word : String}

/-- The words that are flags. -/
def spellings : List (String × Flag) :=
  [("-h", help), ("--help", help), ("--file-source", source), ("--mode", mode),
    ("--optimize", level), ("-v", verbose), ("--verbose", verbose)]

theorem mem_spellings (h : ofWord? word = some f) : (word, f) ∈ spellings := by
  unfold ofWord? at h
  split_ifs at h with hhelp hsource hmode hlevel hverbose
  · obtain rfl := Option.some.inj h
    rcases hhelp with rfl | rfl <;> decide
  · obtain rfl := Option.some.inj h
    rw [hsource]
    decide
  · obtain rfl := Option.some.inj h
    rw [hmode]
    decide
  · obtain rfl := Option.some.inj h
    rw [hlevel]
    decide
  · obtain rfl := Option.some.inj h
    rcases hverbose with rfl | rfl <;> decide

theorem head?_of_ofWord? (h : ofWord? word = some f) : word.toList.head? = some '-' := by
  have hall : ∀ p ∈ spellings, p.1.toList.head? = some '-' := by decide
  exact hall _ (mem_spellings h)

theorem equals_notMem (h : ofWord? word = some f) : '=' ∉ word.toList := by
  have hall : ∀ p ∈ spellings, '=' ∉ p.1.toList := by decide
  exact hall _ (mem_spellings h)

theorem ofWord?_of_equals (h : '=' ∈ word.toList) : ofWord? word = none := by
  cases hword : ofWord? word with
  | none => rfl
  | some f => exact absurd h (equals_notMem hword)

theorem eq_label_of_ofWord? (h : ofWord? word = some f) (hf : f.takesValue = true) :
    word = f.label := by
  have hall : ∀ p ∈ spellings, p.2.takesValue = true → p.1 = p.2.label := by decide
  exact hall _ (mem_spellings h) hf

theorem ofWord?_label (hf : f.takesValue = true) : ofWord? f.label = some f := by
  cases f with
  | source | mode | level => rfl
  | help | verbose => cases hf

theorem ofWord?_of_letters {c d : Char} {cs : List Char} (hc : c ≠ '-') :
    ofWord? (String.ofList ('-' :: c :: d :: cs)) = none := by
  cases hword : ofWord? (String.ofList ('-' :: c :: d :: cs)) with
  | none => rfl
  | some f =>
      have hall : ∀ p ∈ spellings, p.1.toList.length = 2 ∨ p.1.toList[1]? = some '-' := by decide
      have hflag := hall _ (mem_spellings hword)
      simp [hc] at hflag

theorem takesValue_of_ofLetter? {c : Char} (h : ofLetter? c = some f) : f.takesValue = false := by
  unfold ofLetter? at h
  split_ifs at h
  all_goals
    obtain rfl := Option.some.inj h
    rfl

theorem eq_v_of_ofLetter? {c : Char} (h : ofLetter? c = some f) (hf : f ≠ help) : c = 'v' := by
  unfold ofLetter? at h
  split_ifs at h with hhelp hverbose
  · exact absurd (Option.some.inj h).symm hf
  · exact hverbose

theorem ne_dash_of_ofLetter? {c : Char} (h : ofLetter? c = some f) : c ≠ '-' := by
  rintro rfl
  cases h

/-- How a flag is spelled in a word: with a letter or not, and with which text attached. -/
inductive Spelled (f : Flag) : Bool → Option String → String → Prop where
  | word {word : String} (h : ofWord? word = some f) :
      Spelled f (Token.isLetterFlag word) none word
  | equals {name : String} (h : ofWord? name = some f) (text : String) :
      Spelled f (Token.isLetterFlag name) (some text) (name ++ "=" ++ text)
  | letters {c : Char} (h : ofLetter? c = some f) (cs : List Char) :
      Spelled f true (some (String.ofList cs)) (String.ofList ('-' :: c :: cs))

end Flag

namespace Token
variable {f : Flag} {word : String}

/-! ### The first equals sign -/

theorem ne_equals_of_notMem {cs : List Char} (h : '=' ∉ cs) :
    ∀ c ∈ cs, decide (c ≠ '=') = true := by
  intro c hc
  rw [decide_eq_true_eq]
  rintro rfl
  exact h hc

theorem splitEquals?_of_notMem {cs : List Char} (h : '=' ∉ cs) : splitEquals? cs = none := by
  have hdrop : cs.dropWhile (fun c => decide (c ≠ '=')) = [] :=
    List.dropWhile_eq_nil_iff.mpr (ne_equals_of_notMem h)
  unfold splitEquals?
  simp only [hdrop]

theorem splitEquals?_append {cs : List Char} (h : '=' ∉ cs) (ds : List Char) :
    splitEquals? (cs ++ '=' :: ds) = some (String.ofList cs, String.ofList ds) := by
  have hne := ne_equals_of_notMem h
  unfold splitEquals?
  rw [List.takeWhile_append_of_pos hne, List.dropWhile_append_of_pos hne]
  simp

theorem eq_append_of_splitEquals? {cs : List Char} {before after : String}
    (h : splitEquals? cs = some (before, after)) : cs = before.toList ++ '=' :: after.toList := by
  have hcs := List.takeWhile_append_dropWhile (p := fun c => decide (c ≠ '=')) (l := cs)
  unfold splitEquals? at h
  dsimp only at h
  split at h
  · cases h
  · next c ds hdrop =>
      obtain ⟨rfl, rfl⟩ := Prod.mk.inj (Option.some.inj h)
      have hc : c = '=' := by
        have hhead := List.head?_dropWhile_not (fun c => decide (c ≠ '=')) cs
        rw [hdrop] at hhead
        simpa using hhead
      rw [hdrop, hc] at hcs
      rw [String.toList_ofList, String.toList_ofList, hcs]

/-! ### From the form to the flag -/

theorem classify_of_word (h : Flag.ofWord? word = some f) :
    classify word = flag f (isLetterFlag word) none := by
  unfold classify
  rw [if_neg (not_not_intro (Flag.head?_of_ofWord? h)), h]

theorem classify_of_attachedFlag? {t : Token} (hhead : word.toList.head? = some '-')
    (hword : Flag.ofWord? word = none) (h : attachedFlag? word = some t) : classify word = t := by
  have hdash : word ≠ "-" := by
    rintro rfl
    have hnone : attachedFlag? "-" = none := by decide
    rw [hnone] at h
    cases h
  unfold classify
  rw [if_neg (not_not_intro hhead), hword]
  dsimp only
  rw [if_neg hdash, h]

theorem classify_of_equals {name : String} (h : Flag.ofWord? name = some f) (text : String) :
    classify (name ++ "=" ++ text) = flag f (isLetterFlag name) (some text) := by
  have hlist : (name ++ "=" ++ text).toList = name.toList ++ '=' :: text.toList := by simp
  apply classify_of_attachedFlag?
  · rw [hlist, List.head?_append, Flag.head?_of_ofWord? h]
    rfl
  · apply Flag.ofWord?_of_equals
    rw [hlist]
    exact List.mem_append_right _ List.mem_cons_self
  · unfold attachedFlag?
    rw [hlist, splitEquals?_append (Flag.equals_notMem h)]
    simp [h]

theorem classify_of_letters {c d : Char} {cs : List Char} (h : Flag.ofLetter? c = some f)
    (hequals : '=' ∉ '-' :: c :: d :: cs) :
    classify (String.ofList ('-' :: c :: d :: cs)) =
      flag f true (some (String.ofList (d :: cs))) := by
  have hlist : (String.ofList ('-' :: c :: d :: cs)).toList = '-' :: c :: d :: cs :=
    String.toList_ofList
  apply classify_of_attachedFlag?
  · rw [hlist]
    rfl
  · exact Flag.ofWord?_of_letters (Flag.ne_dash_of_ofLetter? h)
  · unfold attachedFlag?
    rw [hlist, splitEquals?_of_notMem hequals]
    simp [h]

/-! ### From the flag to the form -/

theorem spelled_of_attachedFlag? {t : Token} (h : attachedFlag? word = some t) :
    ∃ f letter text, t = flag f letter (some text) ∧ f.Spelled letter (some text) word := by
  unfold attachedFlag? at h
  rcases Option.or_eq_some_iff.mp h with h | ⟨-, h⟩
  · obtain ⟨⟨before, after⟩, hsplit, h⟩ := Option.bind_eq_some_iff.mp h
    obtain ⟨f, hf, h⟩ := Option.bind_eq_some_iff.mp h
    obtain rfl := Option.some.inj h
    refine ⟨f, _, after, rfl, ?_⟩
    have hword : word = before ++ "=" ++ after := by
      apply String.toList_inj.mp
      rw [eq_append_of_splitEquals? hsplit]
      simp
    rw [hword]
    exact .equals hf after
  · split at h
    · next c cs hcs =>
        obtain ⟨f, hf, rfl⟩ := Option.map_eq_some_iff.mp h
        refine ⟨f, true, _, rfl, ?_⟩
        have hword : word = String.ofList ('-' :: c :: cs) := by
          rw [← hcs, String.ofList_toList]
        rw [hword]
        exact .letters hf cs
    · cases h

/-- What a word can be taken for before the terminator. -/
theorem classify_cases (word : String) :
    classify word = argument word ∨ classify word = unknown word ∨
      ∃ f letter attached, classify word = flag f letter attached ∧
        f.Spelled letter attached word := by
  unfold classify
  by_cases hhead : word.toList.head? = some '-'
  · rw [if_neg (not_not_intro hhead)]
    cases hword : Flag.ofWord? word with
    | some f => exact .inr (.inr ⟨f, _, none, rfl, .word hword⟩)
    | none =>
        dsimp only
        by_cases hdash : word = "-"
        · rw [if_pos hdash]
          exact .inl rfl
        rw [if_neg hdash]
        cases hattached : attachedFlag? word with
        | some t =>
            obtain ⟨f, letter, text, rfl, hspelled⟩ := spelled_of_attachedFlag? hattached
            exact .inr (.inr ⟨f, letter, some text, rfl, hspelled⟩)
        | none =>
            dsimp only
            split
            · exact .inl rfl
            · exact .inr (.inl rfl)
  · rw [if_pos hhead]
    exact .inl rfl

theorem eq_of_classify_argument {v : String} (h : classify word = argument v) : v = word := by
  rcases classify_cases word with hword | hword | ⟨f, letter, attached, hword, -⟩
  · rw [hword] at h
    exact (argument.inj h).symm
  all_goals
    rw [hword] at h
    cases h

/-! ### Lines of words -/

theorem scan_cons (h : classify word ≠ unknown word) (words : List String) :
    scan (word :: words) = classify word :: scan words := by
  have hword : word ≠ "--" := by
    rintro rfl
    exact h (by decide)
  rw [scan, if_neg hword]

theorem scan_of_flag {letter : Bool} {attached : Option String}
    (h : classify word = flag f letter attached) (words : List String) :
    scan (word :: words) = flag f letter attached :: scan words := by
  rw [scan_cons, h]
  rw [h]
  intro hunknown
  cases hunknown

theorem scan_of_argument (h : classify word = argument word) (words : List String) :
    scan (word :: words) = argument word :: scan words := by
  rw [scan_cons, h]
  rw [h]
  intro hunknown
  cases hunknown

end Token
end CodeListing
