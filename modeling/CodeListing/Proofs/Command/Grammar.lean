import CodeListing.Proofs.Command.Groups
import CodeListing.Proofs.Command.Arguments

/-! # The grammar of the command line

The command lines that are accepted are those made of groups whose values fit
(`ofArguments_grammar`).  What they ask for can be read off the groups (`Asks`): of each flag that
takes a value the last one counts, though all must fit, and the uses of the flag for verbosity are
added up.  The mode is an exception, since only the last one is looked at.

What the draft holds after some groups (`Draft.Holds`) is kept up by each further group that fits
(`Draft.Holds.read_spec`) and so by all of them (`Draft.Holds.foldlM_spec`).  It depends on the
groups of each flag only, so groups about different flags can change places
(`Group.Shuffles.asks_iff`). -/

namespace CodeListing

namespace Group

/-- The values that groups give to a flag, in order. -/
def valuesOf (f : Flag) (gs : List Group) : List String :=
  (gs.filter fun g => g.flag = f).filterMap value?

/-- How often groups use the flag for verbosity. -/
def total : List Group → Nat
  | [] => 0
  | g :: gs => g.count + total gs

/-- Whether the value that a group gives fits its flag. -/
def Fits (g : Group) : Prop :=
  ∀ text ∈ g.value?,
    (g.flag = .source → text ≠ "") ∧
    (g.flag = .level → ∃ n : Nat, n ≤ maxLevel ∧ readInteger? text = some (n : Int))

end Group

/-- The configuration that groups ask for: all their sources are texts, all their levels are in
range, and the last values count. -/
structure Asks (gs : List Group) (c : Configuration) : Prop where
  sources : ∀ text ∈ Group.valuesOf .source gs, text ≠ ""
  levels : ∀ text ∈ Group.valuesOf .level gs,
    ∃ n : Nat, n ≤ maxLevel ∧ readInteger? text = some (n : Int)
  source : ∃ text, (Group.valuesOf .source gs).getLast? = some text ∧
    c.source = .given (.ofText text)
  mode : c.mode.token = (Group.valuesOf .mode gs).getLast?.getD "exec"
  level : c.level = .int (((Group.valuesOf .level gs).getLast?.bind readInteger?).getD 0)
  verbose : c.verbose = Group.total gs

/-- What a draft holds for a flag to which a last value, or none at all, has been given. -/
def Draft.HoldsLast (d : Draft) (last : Option String) : Flag → Prop
  | .source => d.source = last.map fun text => .given (.ofText text)
  | .mode => ∀ m, resolveMode d.mode = .ok m ↔ m.token = last.getD "exec"
  | .level => d.level = .int ((last.bind readInteger?).getD 0)
  | .help | .verbose => True

/-- A draft that holds what groups give. -/
structure Draft.Holds (d : Draft) (gs : List Group) : Prop where
  last : ∀ f, d.HoldsLast (Group.valuesOf f gs).getLast? f
  verbose : d.verbose = Group.total gs
  unused : d.unused = []

/-! ### The values of groups -/

namespace Group

theorem mem_valuesOf {f : Flag} {gs : List Group} {text : String} :
    text ∈ valuesOf f gs ↔ ∃ g ∈ gs, g.flag = f ∧ g.value? = some text := by
  simp only [valuesOf, List.mem_filterMap, List.mem_filter, decide_eq_true_eq, and_assoc]

theorem valuesOf_concat_of_ne {f : Flag} {g : Group} (h : f ≠ g.flag) (gs : List Group) :
    valuesOf f (gs ++ [g]) = valuesOf f gs := by
  simp [valuesOf, Ne.symm h]

theorem getLast?_valuesOf_concat {g : Group} {text : String} (htext : g.value? = some text)
    (gs : List Group) : (valuesOf g.flag (gs ++ [g])).getLast? = some text := by
  simp [valuesOf, htext]

theorem total_concat (gs : List Group) (g : Group) : total (gs ++ [g]) = total gs + g.count := by
  induction gs with
  | nil => simp [total]
  | cons h gs ih => simp [total, ih, Nat.add_assoc]

theorem count_of_value? {g : Group} {text : String} (h : g.value? = some text) : g.count = 0 := by
  cases g with
  | separate f text takes isArgument | attached f text takes => rfl
  | verbose | letters more | assigned more => cases h

theorem fits_iff_of_value? {g : Group} {text : String} (h : g.value? = some text) :
    g.Fits ↔ (g.flag = .source → text ≠ "") ∧
      (g.flag = .level → ∃ n : Nat, n ≤ maxLevel ∧ readInteger? text = some (n : Int)) := by
  simp [Fits, h]

theorem forall_fits_iff {gs : List Group} :
    (∀ g ∈ gs, g.Fits) ↔ (∀ text ∈ valuesOf .source gs, text ≠ "") ∧
      ∀ text ∈ valuesOf .level gs,
        ∃ n : Nat, n ≤ maxLevel ∧ readInteger? text = some (n : Int) := by
  constructor
  · intro h
    constructor
    · intro text htext
      obtain ⟨g, hg, hflag, hvalue⟩ := mem_valuesOf.mp htext
      exact ((fits_iff_of_value? hvalue).mp (h g hg)).1 hflag
    · intro text htext
      obtain ⟨g, hg, hflag, hvalue⟩ := mem_valuesOf.mp htext
      exact ((fits_iff_of_value? hvalue).mp (h g hg)).2 hflag
  · rintro ⟨hsources, hlevels⟩ g hg text htext
    constructor
    · intro hflag
      exact hsources text (mem_valuesOf.mpr ⟨g, hg, hflag, htext⟩)
    · intro hflag
      exact hlevels text (mem_valuesOf.mpr ⟨g, hg, hflag, htext⟩)

end Group

theorem readLevel_eq_ok_iff {text : String} {n : Nat} :
    readLevel text = .ok n ↔ n ≤ maxLevel ∧ readInteger? text = some (n : Int) := by
  unfold readLevel
  cases htext : readInteger? text with
  | none => simp
  | some l =>
      cases l with
      | ofNat k =>
          dsimp only
          constructor
          · intro h
            split at h
            · next hk =>
                obtain rfl := Except.ok.inj h
                exact ⟨hk, rfl⟩
            · cases h
          · rintro ⟨hn, hk⟩
            obtain rfl : k = n := Int.ofNat.inj (Option.some.inj hk)
            rw [if_pos hn]
      | negSucc k => simp

theorem resolveMode_eq_ok_iff {token : String} {m : Mode} :
    resolveMode (.given token) = .ok m ↔ m.token = token := by
  have hresolve : resolveMode (.given token) = Mode.resolve token := rfl
  rw [hresolve, Mode.resolve, eq_comm (a := m.token), ← Mode.ofToken?_eq_some_iff]
  cases Mode.ofToken? token with
  | none => simp
  | some found => simp

/-! ### What a draft holds -/

theorem Draft.initial_holds : Draft.initial.Holds [] where
  last f := by
    cases f with
    | mode => exact fun m => resolveMode_eq_ok_iff
    | source | level => rfl
    | help | verbose => trivial
  verbose := rfl
  unused := rfl

namespace Draft.Holds
variable {d d' : Draft} {gs : List Group} {g : Group} {text : String}

/-- A draft that has taken up the value of one more group, and has nothing else changed. -/
theorem concat_value (hd : d.Holds gs) (htext : g.value? = some text)
    (hvalue : d'.HoldsLast (some text) g.flag)
    (hothers : ∀ f ≠ g.flag, ∀ last, d.HoldsLast last f → d'.HoldsLast last f)
    (hverbose : d'.verbose = d.verbose) (hunused : d'.unused = d.unused) :
    d'.Holds (gs ++ [g]) where
  last f := by
    by_cases hf : f = g.flag
    · rw [hf, Group.getLast?_valuesOf_concat htext]
      exact hvalue
    · rw [Group.valuesOf_concat_of_ne hf]
      exact hothers f hf _ (hd.last f)
  verbose := by
    rw [Group.total_concat, Group.count_of_value? htext, hverbose]
    exact hd.verbose
  unused := hunused.trans hd.unused

theorem concat_verbose (hd : d.Holds gs) (hf : g.flag = .verbose) :
    { d with verbose := d.verbose + g.count }.Holds (gs ++ [g]) where
  last f := by
    by_cases hverbose : f = g.flag
    · rw [hverbose, hf]
      trivial
    · rw [Group.valuesOf_concat_of_ne hverbose]
      exact hd.last f
  verbose := by rw [Group.total_concat, hd.verbose]
  unused := hd.unused

theorem concat_source (hd : d.Holds gs) (hf : g.flag = .source) (htext : g.value? = some text) :
    { d with source := some (.given (.ofText text)) }.Holds (gs ++ [g]) := by
  apply hd.concat_value htext
  case hvalue =>
    rw [hf]
    rfl
  case hothers =>
    rw [hf]
    intro f hne last h
    cases f with
    | source => exact absurd rfl hne
    | mode | level | help | verbose => exact h
  all_goals rfl

theorem concat_mode (hd : d.Holds gs) (hf : g.flag = .mode) (htext : g.value? = some text)
    {mode : Setting String} (hmode : ∀ m, resolveMode mode = .ok m ↔ m.token = text) :
    { d with mode := mode }.Holds (gs ++ [g]) := by
  apply hd.concat_value htext
  case hvalue =>
    rw [hf]
    exact hmode
  case hothers =>
    rw [hf]
    intro f hne last h
    cases f with
    | mode => exact absurd rfl hne
    | source | level | help | verbose => exact h
  all_goals rfl

theorem concat_level (hd : d.Holds gs) (hf : g.flag = .level) (htext : g.value? = some text)
    {n : Nat} (hn : readInteger? text = some (n : Int)) :
    { d with level := .int n }.Holds (gs ++ [g]) := by
  apply hd.concat_value htext
  case hvalue =>
    rw [hf]
    show Value.int n = .int ((readInteger? text).getD 0)
    rw [hn]
    rfl
  case hothers =>
    rw [hf]
    intro f hne last h
    cases f with
    | level => exact absurd rfl hne
    | source | mode | help | verbose => exact h
  all_goals rfl

theorem set_spec (hd : d.Holds gs) (takes : g.flag.takesValue = true)
    (htext : g.value? = some text) :
    (g.Fits → ∃ d', d.set g.flag text = .ok d' ∧ d'.Holds (gs ++ [g])) ∧
      (¬ g.Fits → ∃ e, d.set g.flag text = .error e) := by
  rw [Group.fits_iff_of_value? htext]
  cases hf : g.flag with
  | help | verbose =>
      rw [hf] at takes
      cases takes
  | source =>
      unfold Draft.set readPath
      by_cases hempty : text = ""
      · rw [if_pos hempty]
        exact ⟨fun h => absurd hempty (h.1 rfl), fun _ => ⟨_, rfl⟩⟩
      · rw [if_neg hempty]
        refine ⟨fun _ => ⟨_, rfl, hd.concat_source hf htext⟩, fun h => ?_⟩
        exact absurd ⟨fun _ => hempty, fun h => by cases h⟩ h
  | mode =>
      have hset := hd.concat_mode hf htext fun _ => resolveMode_eq_ok_iff
      refine ⟨fun _ => ⟨_, rfl, hset⟩, fun h => ?_⟩
      exact absurd ⟨fun h => (by cases h), fun h => by cases h⟩ h
  | level =>
      unfold Draft.set
      cases hlevel : readLevel text with
      | ok n =>
          have hn := readLevel_eq_ok_iff.mp hlevel
          refine ⟨fun _ => ⟨_, rfl, hd.concat_level hf htext hn.2⟩, fun h => ?_⟩
          exact absurd ⟨fun h => (by cases h), fun _ => ⟨n, hn⟩⟩ h
      | error u =>
          refine ⟨fun h => ?_, fun _ => ⟨_, rfl⟩⟩
          obtain ⟨n, hn⟩ := h.2 rfl
          rw [readLevel_eq_ok_iff.mpr hn] at hlevel
          cases hlevel

end Draft.Holds

/-- A group that does not drop a source or a level. -/
structure Group.Kept (g : Group) : Prop where
  source : "--file-source=--" ∉ g.words
  level : "--optimize=--" ∉ g.words

/-- A group is read if its value fits. -/
theorem Draft.Holds.read_spec {d : Draft} {gs : List Group} (hd : d.Holds gs) {g : Group}
    (hkept : g.Kept) :
    (g.Fits → ∃ d', g.read d = .ok d' ∧ d'.Holds (gs ++ [g])) ∧
      (¬ g.Fits → ∃ e, g.read d = .error e) := by
  cases g with
  | separate f text takes isArgument =>
      exact hd.set_spec (g := .separate f text takes isArgument) takes rfl
  | attached f text takes =>
      have hset := hd.set_spec (g := .attached f text takes) takes rfl
      have hread : Group.read d (.attached f text takes) =
          if text = "--" then .ok (d.drop f) else d.set f text := rfl
      rw [hread]
      by_cases hdropped : text = "--"
      · rw [if_pos hdropped]
        subst hdropped
        cases f with
        | help | verbose => cases takes
        | source => exact absurd (List.mem_singleton_self _) hkept.source
        | level => exact absurd (List.mem_singleton_self _) hkept.level
        | mode =>
            have hmode : ∀ m, resolveMode .dropped = .ok m ↔ m.token = "--" := by
              intro m
              cases m <;> simp [resolveMode, Mode.token]
            refine ⟨fun _ => ⟨_, rfl, hd.concat_mode rfl rfl hmode⟩, fun h => absurd ?_ h⟩
            intro t ht
            exact ⟨fun h => (by cases h), fun h => by cases h⟩
      · rw [if_neg hdropped]
        exact hset
  | verbose | letters more | assigned more =>
      refine ⟨fun _ => ⟨_, rfl, hd.concat_verbose rfl⟩, fun h => absurd ?_ h⟩
      intro t ht
      cases ht

theorem Draft.Holds.foldlM_spec {d : Draft} {before gs : List Group} (hd : d.Holds before)
    (hkept : ∀ g ∈ gs, g.Kept) :
    ((∀ g ∈ gs, g.Fits) → ∃ d', gs.foldlM Group.read d = .ok d' ∧ d'.Holds (before ++ gs)) ∧
      ((∃ g ∈ gs, ¬ g.Fits) → ∃ e, gs.foldlM Group.read d = .error e) := by
  induction gs generalizing d before with
  | nil =>
      constructor
      · intro _
        refine ⟨d, rfl, ?_⟩
        rwa [List.append_nil]
      · rintro ⟨g, hg, -⟩
        cases hg
  | cons g gs ih =>
      obtain ⟨hg, hgs⟩ := List.forall_mem_cons.mp hkept
      obtain ⟨hread, hfails⟩ := hd.read_spec hg
      rw [List.foldlM_cons]
      by_cases hfits : g.Fits
      · obtain ⟨d₁, hd₁, hholds⟩ := hread hfits
        have hrest := ih hholds hgs
        rw [List.append_assoc, List.singleton_append] at hrest
        rw [hd₁]
        constructor
        · intro hall
          exact hrest.1 fun g' hg' => hall g' (List.mem_cons_of_mem g hg')
        · rintro ⟨g', hg', hmisfit⟩
          rcases List.mem_cons.mp hg' with rfl | hg'
          · exact absurd hfits hmisfit
          · exact hrest.2 ⟨g', hg', hmisfit⟩
      · obtain ⟨e, he⟩ := hfails hfits
        rw [he]
        constructor
        · intro hall
          exact absurd (hall g List.mem_cons_self) hfits
        · intro _
          exact ⟨e, rfl⟩

/-- What is left of a draft that holds what groups give. -/
theorem Draft.Holds.finish_eq_ok_iff {d : Draft} {gs : List Group} (hd : d.Holds gs)
    {c : Configuration} :
    d.finish = .ok c ↔
      (∃ text, (Group.valuesOf .source gs).getLast? = some text ∧
        c.source = .given (.ofText text)) ∧
      c.mode.token = (Group.valuesOf .mode gs).getLast?.getD "exec" ∧
      c.level = .int (((Group.valuesOf .level gs).getLast?.bind readInteger?).getD 0) ∧
      c.verbose = Group.total gs := by
  have hsource : d.source = (Group.valuesOf .source gs).getLast?.map
      fun text => .given (.ofText text) := hd.last .source
  have hmode : ∀ m, resolveMode d.mode = .ok m ↔
      m.token = (Group.valuesOf .mode gs).getLast?.getD "exec" := hd.last .mode
  have hlevel : d.level = .int (((Group.valuesOf .level gs).getLast?.bind readInteger?).getD 0) :=
    hd.last .level
  unfold Draft.finish
  rw [hsource]
  cases hlast : (Group.valuesOf .source gs).getLast? with
  | none => simp
  | some text =>
      dsimp only [Option.map_some]
      rw [if_neg (not_not_intro hd.unused)]
      cases hresolve : resolveMode d.mode with
      | error e =>
          constructor
          · intro h
            cases h
          · rintro ⟨-, htoken, -⟩
            rw [← hmode, hresolve] at htoken
            cases htoken
      | ok m =>
          constructor
          · intro h
            obtain rfl := Except.ok.inj h
            exact ⟨⟨text, rfl, rfl⟩, (hmode m).mp hresolve, hlevel, hd.verbose⟩
          · obtain ⟨source, mode, level, verbose⟩ := c
            rintro ⟨⟨text', htext', hsource'⟩, hmode', hlevel', hverbose'⟩
            obtain rfl := Option.some.inj htext'
            obtain rfl : source = .given (.ofText text) := hsource'
            obtain rfl : mode = m := by
              rw [← hmode, hresolve] at hmode'
              exact (Except.ok.inj hmode').symm
            obtain rfl : level = _ := hlevel'
            obtain rfl : verbose = _ := hverbose'
            rw [hlevel, hd.verbose]

theorem unused_of_finish {d : Draft} {c : Configuration} (h : d.finish = .ok c) :
    d.unused = [] := by
  unfold Draft.finish at h
  split at h
  · cases h
  · by_contra hunused
    rw [if_pos hunused] at h
    cases h

theorem ofArguments_flatMap {gs : List Group} (hkept : ∀ g ∈ gs, g.Kept) {c : Configuration} :
    Configuration.ofArguments (gs.flatMap Group.words) = .ok c ↔ Asks gs c := by
  obtain ⟨hread, hfails⟩ := Draft.initial_holds.foldlM_spec hkept
  unfold Configuration.ofArguments
  rw [readTokens_flatMap]
  by_cases hfits : ∀ g ∈ gs, g.Fits
  · obtain ⟨d, hd, hholds⟩ := hread hfits
    rw [hd]
    obtain ⟨hsources, hlevels⟩ := Group.forall_fits_iff.mp hfits
    exact hholds.finish_eq_ok_iff.trans
      ⟨fun ⟨hsource, hmode, hlevel, hverbose⟩ =>
        ⟨hsources, hlevels, hsource, hmode, hlevel, hverbose⟩,
        fun h => ⟨h.source, h.mode, h.level, h.verbose⟩⟩
  · have hmisfit : ∃ g ∈ gs, ¬ g.Fits := by simpa using hfits
    obtain ⟨e, he⟩ := hfails hmisfit
    rw [he]
    constructor
    · intro h
      cases h
    · intro h
      exact absurd (Group.forall_fits_iff.mpr ⟨h.sources, h.levels⟩) hfits

/-! ### The grammar -/

/-- A word that spells a flag in full, with or without a text attached to it. -/
def SpellsFlag (word : String) : Prop :=
  ∃ (f : Flag) (letter : Bool) (attached : Option String), f.Spelled letter attached word

/-- Words that end with a flag that takes a value. -/
def AwaitsValue (words : List String) : Prop :=
  ∃ (f : Flag) (before : List String), f.takesValue = true ∧ words = before ++ [f.label]

namespace Group

/-- Groups in another order, in which those about the same flag keep theirs. -/
def Shuffles (gs gs' : List Group) : Prop :=
  ∀ f : Flag, (gs.filter fun g => g.flag = f) = gs'.filter fun g => g.flag = f

theorem count_of_ne {g : Group} (h : g.flag ≠ .verbose) : g.count = 0 := by
  cases g with
  | separate f text takes isArgument | attached f text takes => rfl
  | verbose | letters more | assigned more => exact absurd rfl h

theorem total_filter (gs : List Group) :
    total (gs.filter fun g => g.flag = .verbose) = total gs := by
  induction gs with
  | nil => rfl
  | cons g gs ih =>
      rw [List.filter_cons]
      split
      · rw [total, total, ih]
      · next h =>
          have hcount : g.count = 0 := count_of_ne (by simpa using h)
          rw [total, hcount, Nat.zero_add, ih]

theorem Shuffles.mem_iff {gs gs' : List Group} (h : Shuffles gs gs') {g : Group} :
    g ∈ gs ↔ g ∈ gs' := by
  have hmem : g ∈ gs.filter (fun g' => g'.flag = g.flag) ↔
      g ∈ gs'.filter fun g' => g'.flag = g.flag := by
    rw [h g.flag]
  simpa using hmem

theorem Shuffles.asks_iff {gs gs' : List Group} (h : Shuffles gs gs') {c : Configuration} :
    Asks gs c ↔ Asks gs' c := by
  have hvalues (f : Flag) : valuesOf f gs = valuesOf f gs' := by
    rw [valuesOf, valuesOf, h f]
  have htotal : total gs = total gs' := by
    rw [← total_filter gs, ← total_filter gs', h .verbose]
  constructor
  · rintro ⟨sources, levels, source, mode, level, verbose⟩
    simp only [hvalues, htotal] at sources levels source mode level verbose
    exact ⟨sources, levels, source, mode, level, verbose⟩
  · rintro ⟨sources, levels, source, mode, level, verbose⟩
    simp only [← hvalues, ← htotal] at sources levels source mode level verbose
    exact ⟨sources, levels, source, mode, level, verbose⟩

theorem words_cases (g : Group) :
    (∃ word, g.words = [word] ∧ SpellsFlag word) ∨
      ∃ f text, Flag.takesValue f = true ∧ Token.classify text = .argument text ∧
        g.words = [f.label, text] := by
  cases g with
  | separate f text takes isArgument => exact .inr ⟨f, text, takes, isArgument, rfl⟩
  | attached f text takes =>
      exact .inl ⟨_, rfl, f, _, _, .equals (Flag.ofWord?_label takes) text⟩
  | verbose => exact .inl ⟨_, rfl, .verbose, _, _, .word (by decide)⟩
  | letters more | assigned more => exact .inl ⟨_, rfl, .verbose, _, _, .letters rfl _⟩

/-- Each word of groups spells a flag or is the argument of the flag before it. -/
theorem spells_or_awaited {gs : List Group} {front back : List String} {word : String}
    (h : gs.flatMap words = front ++ word :: back) :
    SpellsFlag word ∨ Token.classify word = .argument word ∧ AwaitsValue front := by
  induction gs generalizing front with
  | nil => exact absurd h.symm (by simp)
  | cons g gs ih =>
      have hmore {x : String} {front : List String} (h : AwaitsValue front) :
          AwaitsValue (x :: front) := by
        obtain ⟨f, before, hf, rfl⟩ := h
        exact ⟨f, x :: before, hf, rfl⟩
      rw [List.flatMap_cons] at h
      rcases g.words_cases with ⟨w, hg, hw⟩ | ⟨f, text, hf, htext, hg⟩
      · rw [hg] at h
        cases front with
        | nil =>
            obtain rfl := (List.cons.inj h).1
            exact .inl hw
        | cons x front => exact (ih (List.cons.inj h).2).imp_right fun h => ⟨h.1, hmore h.2⟩
      · rw [hg] at h
        rcases front with _ | ⟨x, _ | ⟨y, front⟩⟩
        · obtain rfl := (List.cons.inj h).1
          exact .inl ⟨f, _, none, .word (Flag.ofWord?_label hf)⟩
        · obtain ⟨rfl, hrest⟩ := List.cons.inj h
          obtain rfl := (List.cons.inj hrest).1
          exact .inr ⟨htext, f, [], hf, rfl⟩
        · have hrest := (List.cons.inj (List.cons.inj h).2).2
          exact (ih hrest).imp_right fun h => ⟨h.1, hmore (hmore h.2)⟩

end Group

/-- The terminator spells no flag. -/
theorem not_spellsFlag_terminator : ¬ SpellsFlag "--" := by
  rintro ⟨f, letter, attached, hspelled⟩
  generalize hword : "--" = word at hspelled
  cases hspelled with
  | word h =>
      rw [← hword] at h
      cases h
  | @equals name h text =>
      have hequals : '=' ∈ "--".toList := by
        rw [hword]
        simp
      exact absurd hequals (by decide)
  | @letters c h cs =>
      have hlist : ['-', '-'] = '-' :: c :: cs :=
        (congrArg String.toList hword).trans String.toList_ofList
      obtain rfl : '-' = c := (List.cons.inj (List.cons.inj hlist).2).1
      exact Flag.ne_dash_of_ofLetter? h rfl

/-- **The grammar of the command line.**  A command line on which no source and no level is dropped
is accepted if it is made of groups whose values fit, the last ones being those that count, and in
no other case; and it makes no difference how groups about different flags are ordered.  On every
command line that is accepted each word spells a flag in full or is the argument of the flag before
it. -/
theorem ofArguments_grammar (words : List String) :
    ("--file-source=--" ∉ words → "--optimize=--" ∉ words →
      (∀ c, Configuration.ofArguments words = .ok c ↔
        ∃ gs : List Group, words = gs.flatMap Group.words ∧ Asks gs c) ∧
      ∀ gs gs' : List Group, words = gs.flatMap Group.words → Group.Shuffles gs gs' →
        ∀ c, Configuration.ofArguments (gs'.flatMap Group.words) = .ok c ↔
          Configuration.ofArguments words = .ok c) ∧
    ∀ c, Configuration.ofArguments words = .ok c →
      "--" ∉ words ∧ ∀ front word back, words = front ++ word :: back →
        SpellsFlag word ∨ Token.classify word = .argument word ∧ AwaitsValue front := by
  have hgroups : ∀ c, Configuration.ofArguments words = .ok c →
      ∃ gs : List Group, words = gs.flatMap Group.words := by
    intro c hc
    obtain ⟨d, hd, hfinish⟩ := exists_of_bind hc
    exact exists_groups_of_readTokens hd (unused_of_finish hfinish)
  constructor
  · intro hsource hlevel
    have hkept : ∀ gs : List Group, words = gs.flatMap Group.words → ∀ g ∈ gs, g.Kept := by
      rintro gs rfl g hg
      exact ⟨fun h => hsource (List.mem_flatMap.mpr ⟨g, hg, h⟩),
        fun h => hlevel (List.mem_flatMap.mpr ⟨g, hg, h⟩)⟩
    constructor
    · intro c
      constructor
      · intro hc
        obtain ⟨gs, hgs⟩ := hgroups c hc
        rw [hgs] at hc
        exact ⟨gs, hgs, (ofArguments_flatMap (hkept gs hgs)).mp hc⟩
      · rintro ⟨gs, hgs, hasks⟩
        rw [hgs]
        exact (ofArguments_flatMap (hkept gs hgs)).mpr hasks
    · intro gs gs' hgs hshuffles c
      have hkept' : ∀ g ∈ gs', g.Kept := fun g hg => hkept gs hgs g (hshuffles.mem_iff.mpr hg)
      rw [ofArguments_flatMap hkept', hgs, ofArguments_flatMap (hkept gs hgs)]
      exact hshuffles.asks_iff.symm
  · intro c hc
    obtain ⟨gs, hgs⟩ := hgroups c hc
    have hwords : ∀ front word back, words = front ++ word :: back →
        SpellsFlag word ∨ Token.classify word = .argument word ∧ AwaitsValue front := by
      intro front word back hword
      exact Group.spells_or_awaited (hgs.symm.trans hword)
    refine ⟨fun hterminator => ?_, hwords⟩
    obtain ⟨front, back, hword⟩ := List.append_of_mem hterminator
    rcases hwords front "--" back hword with hspells | ⟨hargument, -⟩
    · exact not_spellsFlag_terminator hspells
    · exact absurd hargument (by decide)

/-- A command line on which values are overridden, attached and look like flags. -/
theorem ofArguments_of_overridden :
    ∃ c, Configuration.ofArguments ["-vv", "--file-source=-x", "--mode", "eval", "--optimize",
        "-0 ", "--file-source", "f g", "--mode=--", "-v=v", "--mode=single"] = .ok c ∧
      c.source = .given (.ofText "f g") ∧ c.mode = .single ∧ c.level = .int 0 ∧ c.verbose = 4 := by
  let gs : List Group := [.letters 1, .attached .source "-x" rfl,
    .separate .mode "eval" rfl (by decide), .separate .level "-0 " rfl (by decide),
    .separate .source "f g" rfl (by decide), .attached .mode "--" rfl, .assigned 0,
    .attached .mode "single" rfl]
  let c : Configuration := ⟨.given (.ofText "f g"), .single, .int 0, 4⟩
  have hasks : Asks gs c := by
    constructor
    case sources => decide
    case levels =>
      intro text htext
      obtain rfl : text = "-0 " := List.mem_singleton.mp htext
      exact ⟨0, by decide, by decide +kernel⟩
    case source => exact ⟨"f g", rfl, rfl⟩
    case mode => rfl
    case level => rfl
    case verbose => rfl
  refine ⟨c, ?_, rfl, rfl, rfl, rfl⟩
  exact (((ofArguments_grammar _).1 (by decide) (by decide)).1 c).mpr ⟨gs, rfl, hasks⟩

/-- Letters behind an equals sign are accepted, and without the groups that have them the grammar
would miss command lines. -/
theorem ofArguments_of_assigned :
    (∃ c, Configuration.ofArguments ["--file-source", "f", "-v=v"] = .ok c ∧ c.verbose = 2) ∧
      ∀ gs : List Group, (∀ g ∈ gs, ∀ more, g ≠ .assigned more) →
        ["--file-source", "f", "-v=v"] ≠ gs.flatMap Group.words := by
  refine ⟨⟨⟨.given (.ofText "f"), .exec, .int 0, 2⟩, rfl, rfl⟩, ?_⟩
  intro gs hgs hwords
  have hmem : "-v=v" ∈ gs.flatMap Group.words := by
    rw [← hwords]
    decide
  obtain ⟨g, hg, hword⟩ := List.mem_flatMap.mp hmem
  cases g with
  | separate f text takes isArgument =>
      rcases List.mem_cons.mp hword with hlabel | htext
      · cases f <;> revert hlabel <;> decide
      · obtain rfl : "-v=v" = text := List.mem_singleton.mp htext
        exact absurd isArgument (by decide)
  | attached f text takes =>
      have hlist := congrArg (fun w => w.toList[1]?) (List.mem_singleton.mp hword)
      cases f with
      | source | mode | level => simp [Flag.label] at hlist
      | help | verbose => cases takes
  | verbose => exact absurd hword (by decide)
  | letters more =>
      have hequals : '=' ∈ '-' :: List.replicate (more + 1) 'v' := by
        rw [← String.toList_ofList (l := '-' :: _), ← List.mem_singleton.mp hword]
        decide
      simp at hequals
  | assigned more => exact hgs _ hg more rfl

end CodeListing
