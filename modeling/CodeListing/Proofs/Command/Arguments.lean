import CodeListing.Command.Arguments

/-! # How reading arguments ends

Reading the words either goes on or ends early, for help or because of the usage, and as long as it
goes on the level of the draft can be asked for, or it is the empty list of a flag whose value was
dropped (`Reads`).  Each step keeps this, so it holds when all words have been read
(`reads_readTokens`).  A mode is looked up only when nothing else is wrong, so an invalid mode is
reported only then (`ofArguments_cases`). -/

namespace CodeListing

/-- A level that a draft may have: one that can be asked for, or what a dropped value leaves. -/
def IsReadLevel (v : Value) : Prop := v = .list [] ∨ ∃ n : Nat, n ≤ maxLevel ∧ v = .int n

/-- How reading may go: to a draft with such a level, or to an end for help or because of the
usage. -/
def Reads (r : Except Stop Draft) : Prop :=
  (∃ d, r = .ok d ∧ IsReadLevel d.level) ∨ r = .error .help ∨ ∃ m, r = .error (.usage m)

namespace Reads

theorem of_level {d : Draft} (h : IsReadLevel d.level) : Reads (.ok d) := .inl ⟨d, rfl, h⟩

theorem of_usage (m : String) : Reads (.error (.usage m)) := .inr (.inr ⟨m, rfl⟩)

/-- Reading goes on from a draft that keeps its level readable. -/
theorem bind {r : Except Stop Draft} {f : Draft → Except Stop Draft} (hr : Reads r)
    (hf : ∀ d, IsReadLevel d.level → Reads (f d)) : Reads (r >>= f) := by
  rcases hr with ⟨d, rfl, hd⟩ | rfl | ⟨m, rfl⟩
  · exact hf d hd
  · exact .inr (.inl rfl)
  · exact of_usage m

end Reads

/-! ### Steps -/

theorem readLevel_le {text : String} {n : Nat} (h : readLevel text = .ok n) : n ≤ maxLevel := by
  unfold readLevel at h
  split at h
  · cases h
  · split at h
    · next hle =>
        obtain rfl := Except.ok.inj h
        exact hle
    · cases h
  · cases h

theorem reads_set {d : Draft} (hd : IsReadLevel d.level) (f : Flag) (text : String) :
    Reads (d.set f text) := by
  cases f with
  | source =>
      unfold Draft.set
      cases readPath text with
      | ok path => exact .of_level hd
      | error u => exact .of_usage _
  | level =>
      unfold Draft.set
      cases hlevel : readLevel text with
      | ok n => exact .of_level (.inr ⟨n, readLevel_le hlevel, rfl⟩)
      | error u => exact .of_usage _
  | mode => exact .of_level hd
  | help => exact .of_level hd
  | verbose => exact .of_level hd

theorem isReadLevel_drop {d : Draft} (hd : IsReadLevel d.level) (f : Flag) :
    IsReadLevel (d.drop f).level := by
  cases f with
  | level => exact .inl rfl
  | source => exact hd
  | mode => exact hd
  | help => exact hd
  | verbose => exact hd

theorem reads_setAttached {d : Draft} (hd : IsReadLevel d.level) (f : Flag) (text : String) :
    Reads (d.setAttached f text) := by
  unfold Draft.setAttached
  by_cases h : text = "--"
  · rw [if_pos h]
    exact .of_level (isReadLevel_drop hd f)
  · rw [if_neg h]
    exact reads_set hd f text

theorem reads_obey {d : Draft} (hd : IsReadLevel d.level) (fs : List Flag) : Reads (d.obey fs) := by
  induction fs generalizing d with
  | nil => exact .of_level hd
  | cons f fs ih =>
      cases f with
      | help => exact .inr (.inl rfl)
      | source => exact ih hd
      | mode => exact ih hd
      | level => exact ih hd
      | verbose => exact ih hd

theorem letters_cases (f : Flag) (cs : List Char) :
    (∃ fs, letters f cs = .ok fs) ∨ ∃ m, letters f cs = .error (.usage m) := by
  induction cs generalizing f with
  | nil => exact .inl ⟨[f], rfl⟩
  | cons c cs ih =>
      unfold letters
      cases Flag.ofLetter? c with
      | none => exact .inr ⟨_, rfl⟩
      | some g =>
          dsimp only
          rcases ih g with ⟨fs, hfs⟩ | ⟨m, hm⟩
          · rw [hfs]
            exact .inl ⟨f :: fs, rfl⟩
          · rw [hm]
            exact .inr ⟨m, rfl⟩

theorem flagsOf_cases (f : Flag) (letter : Bool) (attached : Option String) :
    (∃ fs, flagsOf f letter attached = .ok fs) ∨
      ∃ m, flagsOf f letter attached = .error (.usage m) := by
  cases attached with
  | none => exact .inl ⟨[f], rfl⟩
  | some text =>
      simp only [flagsOf]
      by_cases h : (letter && decide (text ≠ "")) = true
      · rw [if_pos h]
        exact letters_cases f text.toList
      · rw [if_neg h]
        exact .inr ⟨_, rfl⟩

/-! ### All words -/

theorem reads_readTokens {d : Draft} (hd : IsReadLevel d.level) (ts : List Token) :
    Reads (readTokens d ts) := by
  induction d, ts using readTokens.induct with
  | case1 d => exact .of_level hd
  | case2 d word ts ih => exact ih hd
  | case3 d ts ih => exact ih hd
  | case4 d word ts ih => exact ih hd
  | case5 d f letter ts hvalue text ih =>
      rw [readTokens, if_pos hvalue]
      exact (reads_setAttached hd f text).bind ih
  | case6 d f letter hvalue text ts ih =>
      rw [readTokens, if_pos hvalue]
      exact (reads_set hd f text).bind ih
  | case7 d f letter ts hvalue hnone =>
      rw [readTokens, if_pos hvalue]
      · exact .of_usage _
      · exact hnone
  | case8 d f letter attached ts hvalue ih =>
      unfold readTokens
      rw [if_neg hvalue]
      rcases flagsOf_cases f letter attached with ⟨fs, hfs⟩ | ⟨m, hm⟩
      · rw [hfs]
        exact (reads_obey hd fs).bind ih
      · rw [hm]
        exact .of_usage m

/-- A draft in which nothing is wrong but the mode. -/
def Draft.IsComplete (d : Draft) : Prop := d.source.isSome ∧ d.unused = []

/-- The mode is resolved last. -/
theorem finish_cases (d : Draft) :
    (∃ c, d.finish = .ok c ∧ c.level = d.level) ∨ (∃ m, d.finish = .error (.usage m)) ∨
      ∃ e, d.IsComplete ∧ resolveMode d.mode = .error e ∧ d.finish = .error (.error e) := by
  unfold Draft.finish
  cases hsource : d.source with
  | none => exact .inr (.inl ⟨_, rfl⟩)
  | some source =>
      dsimp only
      by_cases hunused : d.unused = []
      · rw [if_neg (not_not_intro hunused)]
        cases hmode : resolveMode d.mode with
        | ok mode => exact .inl ⟨_, rfl, rfl⟩
        | error e => exact .inr (.inr ⟨e, ⟨by rw [hsource]; rfl, hunused⟩, rfl, rfl⟩)
      · rw [if_pos hunused]
        exact .inr (.inl ⟨_, rfl⟩)

theorem kind_of_resolveMode {mode : Setting String} {e : UserError}
    (h : resolveMode mode = .error e) :
    e.problem.kind = .invalidMode := by
  cases mode with
  | given token =>
      have h : Mode.resolve token = .error e := h
      unfold Mode.resolve at h
      split at h
      · cases h
      · obtain rfl := Except.error.inj h
        rfl
  | dropped =>
      obtain rfl := Except.error.inj h
      rfl

/-- How reading a command line ends. -/
theorem ofArguments_cases (words : List String) :
    (∃ c, Configuration.ofArguments words = .ok c ∧ IsReadLevel c.level) ∨
      Configuration.ofArguments words = .error .help ∨
      (∃ m, Configuration.ofArguments words = .error (.usage m)) ∨
      ∃ d e, readTokens .initial (Token.scan words) = .ok d ∧ d.IsComplete ∧
        resolveMode d.mode = .error e ∧ Configuration.ofArguments words = .error (.error e) := by
  have hinitial : IsReadLevel Draft.initial.level := .inr ⟨0, Nat.zero_le _, rfl⟩
  unfold Configuration.ofArguments
  rcases reads_readTokens hinitial (Token.scan words) with ⟨d, hd, hlevel⟩ | hhelp | ⟨m, hm⟩
  · rw [hd]
    rcases finish_cases d with ⟨c, hc, hsame⟩ | ⟨m, hm⟩ | ⟨e, hcomplete, hmode, he⟩
    · left
      refine ⟨c, hc, ?_⟩
      rw [hsame]
      exact hlevel
    · right; right; left
      exact ⟨m, hm⟩
    · right; right; right
      exact ⟨d, e, rfl, hcomplete, hmode, he⟩
  · rw [hhelp]
    exact .inr (.inl rfl)
  · rw [hm]
    exact .inr (.inr (.inl ⟨m, rfl⟩))

end CodeListing
