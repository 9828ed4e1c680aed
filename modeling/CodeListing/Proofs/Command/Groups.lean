import CodeListing.Command.Arguments
import CodeListing.Proofs.Command.Words
import CodeListing.Proofs.Success

/-! # Groups of words

The words of a command line that is read to the end fall into groups (`Group`): a flag with its
value, or a flag for verbosity.  A group is read on its own, whatever stands behind it
(`readTokens_words`), so groups are read one after the other (`readTokens_flatMap`).  Conversely,
words that are read to the end without one set aside begin with a group
(`exists_group_of_readTokens`), and so they are those of groups (`exists_groups_of_readTokens`):
what has been set aside stays so, and a flag whose letter, attached text or missing argument does
not fit ends the reading. -/

namespace CodeListing

/-! ### Groups -/

/-- Words of a command line that belong together: a flag with the argument behind it or with a text
attached to it, the flag for verbosity, or its letter, some times more, behind a dash or behind the
short flag and an equals sign. -/
inductive Group where
  | separate (f : Flag) (text : String) (takes : f.takesValue = true)
      (isArgument : Token.classify text = .argument text)
  | attached (f : Flag) (text : String) (takes : f.takesValue = true)
  | verbose
  | letters (more : Nat)
  | assigned (more : Nat)

namespace Group

def words : Group → List String
  | separate f text _ _ => [f.label, text]
  | attached f text _ => [f.label ++ "=" ++ text]
  | verbose => ["--verbose"]
  | letters more => [String.ofList ('-' :: List.replicate (more + 1) 'v')]
  | assigned more => [String.ofList ('-' :: 'v' :: '=' :: List.replicate (more + 1) 'v')]

theorem length_words_pos (g : Group) : 0 < g.words.length := by
  cases g with
  | separate f text takes isArgument => exact Nat.zero_lt_two
  | attached f text takes => exact Nat.zero_lt_one
  | verbose | letters more | assigned more => exact Nat.zero_lt_one

def flag : Group → Flag
  | separate f .. | attached f .. => f
  | verbose | letters _ | assigned _ => .verbose

/-- The value that a group gives to its flag. -/
def value? : Group → Option String
  | separate _ text .. | attached _ text _ => some text
  | verbose | letters _ | assigned _ => none

def count : Group → Nat
  | separate .. | attached .. => 0
  | verbose => 1
  | letters more => more + 1
  | assigned more => more + 2

/-- What reading a group does. -/
def read (d : Draft) : Group → Except Stop Draft
  | separate f text _ _ => d.set f text
  | attached f text _ => d.setAttached f text
  | g => .ok { d with verbose := d.verbose + g.count }

end Group

/-! ### Reading a group -/

theorem letters_replicate (n : Nat) :
    letters .verbose (List.replicate n 'v') = .ok (List.replicate (n + 1) .verbose) := by
  induction n with
  | zero => rfl
  | succ n ih =>
      have hletter : Flag.ofLetter? 'v' = some .verbose := by decide
      rw [List.replicate_succ, letters, hletter]
      dsimp only
      rw [ih]
      rfl

theorem flagsOf_replicate (n : Nat) :
    flagsOf .verbose true (some (String.ofList (List.replicate (n + 1) 'v'))) =
      .ok (List.replicate (n + 2) .verbose) := by
  have hne : String.ofList (List.replicate (n + 1) 'v') ≠ "" := by
    intro h
    have hlist := congrArg String.toList h
    simp at hlist
  have hcond : (true && decide (String.ofList (List.replicate (n + 1) 'v') ≠ "")) = true := by
    simp only [hne, ne_eq, not_false_eq_true, decide_true, Bool.and_self]
  simp only [flagsOf]
  rw [if_pos hcond, String.toList_ofList, letters_replicate]

theorem obey_replicate (d : Draft) (n : Nat) :
    d.obey (List.replicate n .verbose) = .ok { d with verbose := d.verbose + n } := by
  induction n generalizing d with
  | zero => rfl
  | succ n ih =>
      rw [List.replicate_succ, Draft.obey, ih]
      · simp only [Nat.add_assoc, Nat.add_comm 1 n]
      · intro h
        cases h

theorem readTokens_of_takesNone {f : Flag} (hf : f.takesValue = false) (d : Draft) (letter : Bool)
    (attached : Option String) (ts : List Token) :
    readTokens d (.flag f letter attached :: ts) =
      flagsOf f letter attached >>= fun fs => d.obey fs >>= fun d => readTokens d ts := by
  conv_lhs => unfold readTokens
  rw [if_neg (by rw [hf]; decide)]

theorem readTokens_of_flagsOf {letter : Bool} {attached : Option String} {n : Nat}
    (h : flagsOf .verbose letter attached = .ok (List.replicate n .verbose)) (d : Draft)
    (ts : List Token) :
    readTokens d (.flag .verbose letter attached :: ts) =
      readTokens { d with verbose := d.verbose + n } ts := by
  rw [readTokens_of_takesNone rfl, h]
  show (d.obey (List.replicate n .verbose) >>= fun d => readTokens d ts) = _
  rw [obey_replicate]
  rfl

/-- The words of a group are read as the group says, and then the words behind it are read. -/
theorem readTokens_words (d : Draft) (g : Group) (rest : List String) :
    readTokens d (Token.scan (g.words ++ rest)) =
      g.read d >>= fun d => readTokens d (Token.scan rest) := by
  cases g with
  | separate f text takes isArgument =>
      have hflag := Token.classify_of_word (Flag.ofWord?_label takes)
      show readTokens d (Token.scan (f.label :: text :: rest)) = _
      rw [Token.scan_of_flag hflag, Token.scan_of_argument isArgument, readTokens, if_pos takes]
      rfl
  | attached f text takes =>
      have hflag := Token.classify_of_equals (Flag.ofWord?_label takes) text
      show readTokens d (Token.scan ((f.label ++ "=" ++ text) :: rest)) = _
      rw [Token.scan_of_flag hflag, readTokens, if_pos takes]
      rfl
  | verbose =>
      have hflag : Token.classify "--verbose" = .flag .verbose false none := by decide
      show readTokens d (Token.scan ("--verbose" :: rest)) = _
      rw [Token.scan_of_flag hflag]
      exact readTokens_of_flagsOf (n := 1) rfl d _
  | letters more =>
      show readTokens d (Token.scan (String.ofList _ :: rest)) = _
      cases more with
      | zero =>
          have hflag : Token.classify (String.ofList ['-', 'v']) = .flag .verbose true none := by
            decide
          show readTokens d (Token.scan (String.ofList ['-', 'v'] :: rest)) = _
          rw [Token.scan_of_flag hflag]
          exact readTokens_of_flagsOf (n := 1) rfl d _
      | succ more =>
          have hequals : '=' ∉ '-' :: 'v' :: 'v' :: List.replicate more 'v' := by simp
          have hflag := Token.classify_of_letters (f := .verbose) rfl hequals
          rw [List.replicate_succ, List.replicate_succ, Token.scan_of_flag hflag]
          exact readTokens_of_flagsOf (flagsOf_replicate more) d _
  | assigned more =>
      have hname : Flag.ofWord? "-v" = some .verbose := by decide
      have hflag := Token.classify_of_equals hname (String.ofList (List.replicate (more + 1) 'v'))
      have hword : String.ofList ('-' :: 'v' :: '=' :: List.replicate (more + 1) 'v') =
          "-v" ++ "=" ++ String.ofList (List.replicate (more + 1) 'v') := by
        apply String.toList_inj.mp
        simp
      show readTokens d (Token.scan (String.ofList _ :: rest)) = _
      rw [hword, Token.scan_of_flag hflag]
      exact readTokens_of_flagsOf (flagsOf_replicate more) d _

theorem readTokens_flatMap (d : Draft) (gs : List Group) :
    readTokens d (Token.scan (gs.flatMap Group.words)) = gs.foldlM Group.read d := by
  induction gs generalizing d with
  | nil => rfl
  | cons g gs ih =>
      rw [List.flatMap_cons, readTokens_words, List.foldlM_cons]
      exact bind_congr ih

/-! ### Words that are read -/

namespace Draft
variable {d d' : Draft}

theorem unused_of_set {f : Flag} {text : String} (h : d.set f text = .ok d') :
    d'.unused = d.unused := by
  cases f with
  | help | verbose | mode =>
      obtain rfl := Except.ok.inj h
      rfl
  | source | level =>
      unfold set at h
      dsimp only at h
      split at h
      · obtain rfl := Except.ok.inj h
        rfl
      · cases h

theorem unused_of_setAttached {f : Flag} {text : String} (h : d.setAttached f text = .ok d') :
    d'.unused = d.unused := by
  unfold setAttached at h
  split at h
  · obtain rfl := Except.ok.inj h
    cases f <;> rfl
  · exact unused_of_set h

theorem unused_of_obey {fs : List Flag} (h : d.obey fs = .ok d') : d'.unused = d.unused := by
  induction fs generalizing d with
  | nil =>
      obtain rfl := Except.ok.inj h
      rfl
  | cons f fs ih =>
      cases f with
      | help => cases h
      | source | mode | level | verbose => exact (ih h :)

end Draft

/-- What is set aside stays so. -/
theorem unused_of_readTokens {d d' : Draft} {ts : List Token} (h : readTokens d ts = .ok d') :
    d.unused <+: d'.unused := by
  induction d, ts using readTokens.induct with
  | case1 d =>
      rw [readTokens] at h
      obtain rfl := Except.ok.inj h
      exact List.prefix_refl _
  | case2 d word ts ih | case3 d ts ih | case4 d word ts ih =>
      rw [readTokens] at h
      exact (List.prefix_append _ _).trans (ih h)
  | case5 d f letter ts hvalue text ih =>
      rw [readTokens, if_pos hvalue] at h
      obtain ⟨d₁, hset, h⟩ := exists_of_bind h
      rw [← Draft.unused_of_setAttached hset]
      exact ih d₁ h
  | case6 d f letter hvalue text ts ih =>
      rw [readTokens, if_pos hvalue] at h
      obtain ⟨d₁, hset, h⟩ := exists_of_bind h
      rw [← Draft.unused_of_set hset]
      exact ih d₁ h
  | case7 d f letter ts hvalue hnone =>
      rw [readTokens, if_pos hvalue] at h
      · cases h
      · exact hnone
  | case8 d f letter attached ts hvalue ih =>
      rw [readTokens_of_takesNone (by simpa using hvalue)] at h
      obtain ⟨fs, -, h⟩ := exists_of_bind h
      obtain ⟨d₁, hobey, h⟩ := exists_of_bind h
      rw [← Draft.unused_of_obey hobey]
      exact ih d₁ h

theorem false_of_setAside {d d' : Draft} {word : String} {ts : List Token}
    (h : readTokens (d.setAside word) ts = .ok d') (hunused : d'.unused = []) : False := by
  have hprefix := unused_of_readTokens h
  rw [hunused] at hprefix
  have hnil : d.unused ++ [word] = [] := List.prefix_nil.mp hprefix
  exact absurd hnil (by simp)

theorem ne_help_of_obey {f : Flag} {fs : List Flag} {d d' : Draft}
    (h : d.obey (f :: fs) = .ok d') : f ≠ .help := by
  rintro rfl
  cases h

theorem exists_of_obey {f : Flag} {fs : List Flag} {d d' : Draft}
    (h : d.obey (f :: fs) = .ok d') : ∃ d₁ : Draft, d₁.obey fs = .ok d' := by
  cases f with
  | help => cases h
  | source | mode | level | verbose => exact ⟨_, h⟩

theorem exists_of_letters {f : Flag} {c : Char} {cs : List Char} {fs : List Flag}
    (h : letters f (c :: cs) = .ok fs) :
    ∃ g gs, Flag.ofLetter? c = some g ∧ letters g cs = .ok gs ∧ fs = f :: gs := by
  rw [letters] at h
  cases hc : Flag.ofLetter? c with
  | none =>
      rw [hc] at h
      cases h
  | some g =>
      rw [hc] at h
      dsimp only at h
      cases hgs : letters g cs with
      | error e =>
          rw [hgs] at h
          cases h
      | ok gs =>
          rw [hgs] at h
          exact ⟨g, gs, rfl, hgs, (Except.ok.inj h).symm⟩

theorem letters_of_obey {f : Flag} {cs : List Char} {fs : List Flag} {d d' : Draft}
    (hfs : letters f cs = .ok fs) (h : d.obey fs = .ok d') : f ≠ .help ∧ ∀ c ∈ cs, c = 'v' := by
  induction cs generalizing f fs d with
  | nil =>
      obtain rfl := Except.ok.inj hfs
      refine ⟨ne_help_of_obey h, ?_⟩
      intro c hc
      cases hc
  | cons c cs ih =>
      obtain ⟨g, gs, hc, hgs, rfl⟩ := exists_of_letters hfs
      obtain ⟨d₁, hd₁⟩ := exists_of_obey h
      obtain ⟨hg, hcs⟩ := ih hgs hd₁
      exact ⟨ne_help_of_obey h, List.forall_mem_cons.mpr ⟨Flag.eq_v_of_ofLetter? hc hg, hcs⟩⟩

/-- What is attached to a flag without a value that is obeyed is its letter, again and again. -/
theorem attached_of_obey {f : Flag} {letter : Bool} {attached : Option String} {fs : List Flag}
    {d d' : Draft} (hfs : flagsOf f letter attached = .ok fs) (h : d.obey fs = .ok d') :
    f ≠ .help ∧ ∀ text ∈ attached,
      letter = true ∧ ∃ n, text = String.ofList (List.replicate (n + 1) 'v') := by
  cases attached with
  | none =>
      obtain rfl := Except.ok.inj hfs
      refine ⟨ne_help_of_obey h, ?_⟩
      intro text htext
      cases htext
  | some text =>
      unfold flagsOf at hfs
      dsimp only at hfs
      split at hfs
      · next hcond =>
          obtain ⟨hletter, hne⟩ := Bool.and_eq_true_iff.mp hcond
          obtain ⟨hhelp, hall⟩ := letters_of_obey hfs h
          refine ⟨hhelp, fun t ht => ?_⟩
          obtain rfl := Option.some.inj ht
          refine ⟨hletter, text.toList.length - 1, ?_⟩
          have hpos : text.toList.length ≠ 0 := by
            intro hzero
            apply of_decide_eq_true hne
            apply String.toList_inj.mp
            exact List.length_eq_zero_iff.mp hzero
          rw [Nat.sub_add_cancel (by omega), ← List.eq_replicate_of_mem hall, String.ofList_toList]
      · cases hfs

theorem eq_verbose_of_ne_help {f : Flag} (hf : f.takesValue = false) (h : f ≠ .help) :
    f = .verbose := by
  cases f with
  | help => exact absurd rfl h
  | verbose => rfl
  | source | mode | level => cases hf

theorem exists_group_of_verbose {letter : Bool} {attached : Option String} {word : String}
    (hspelled : Flag.verbose.Spelled letter attached word)
    (hattached : ∀ text ∈ attached,
      letter = true ∧ ∃ n, text = String.ofList (List.replicate (n + 1) 'v')) :
    ∃ g : Group, g.words = [word] := by
  cases hspelled with
  | word h =>
      have hall : ∀ p ∈ Flag.spellings, p.2 = .verbose → p.1 = "--verbose" ∨ p.1 = "-v" := by
        decide
      have hword : word = "--verbose" ∨ word = "-v" := hall _ (Flag.mem_spellings h) rfl
      rcases hword with rfl | rfl
      · exact ⟨.verbose, rfl⟩
      · exact ⟨.letters 0, rfl⟩
  | @equals name h text =>
      obtain ⟨hletter, n, rfl⟩ := hattached text rfl
      have hall : ∀ p ∈ Flag.spellings, p.2 = .verbose → Token.isLetterFlag p.1 = true →
          p.1 = "-v" := by
        decide
      have hname : name = "-v" := hall _ (Flag.mem_spellings h) rfl hletter
      refine ⟨.assigned n, ?_⟩
      rw [hname, Group.words, List.singleton_inj]
      apply String.toList_inj.mp
      simp
  | @letters c h cs =>
      obtain ⟨-, n, htext⟩ := hattached _ rfl
      have hc : c = 'v' := Flag.eq_v_of_ofLetter? h (by decide)
      have hcs : cs = List.replicate (n + 1) 'v' := String.ofList_inj.mp htext
      exact ⟨.letters (n + 1), by rw [hc, hcs, Group.words, ← List.replicate_succ]⟩

/-- A flag that takes a value and has none attached is read with an argument behind it. -/
theorem exists_argument_of_readTokens {f : Flag} (hf : f.takesValue = true) {letter : Bool}
    {words : List String} {d d' : Draft}
    (h : readTokens d (.flag f letter none :: Token.scan words) = .ok d') :
    ∃ text rest d₁, words = text :: rest ∧ Token.classify text = .argument text ∧
      readTokens d₁ (Token.scan rest) = .ok d' := by
  have hbehind : ∃ text ts, Token.scan words = .argument text :: ts := by
    by_contra hnone
    rw [readTokens, if_pos hf] at h
    · cases h
    · exact fun text ts hts => hnone ⟨text, ts, hts⟩
  obtain ⟨text, ts, hts⟩ := hbehind
  cases words with
  | nil => cases hts
  | cons word rest =>
      have hterminator : word ≠ "--" := by
        rintro rfl
        rw [Token.scan, if_pos rfl] at hts
        cases (List.cons.inj hts).1
      rw [Token.scan, if_neg hterminator] at hts
      obtain ⟨hword, rfl⟩ := List.cons.inj hts
      obtain rfl := Token.eq_of_classify_argument hword
      rw [Token.scan, if_neg hterminator, hword, readTokens, if_pos hf] at h
      obtain ⟨d₁, -, hrest⟩ := exists_of_bind h
      exact ⟨text, rest, d₁, rfl, hword, hrest⟩

/-- Words that are read to the end begin with a group, and the words behind it are read to the end
too. -/
theorem exists_group_of_readTokens {word : String} {words : List String} {d d' : Draft}
    (h : readTokens d (Token.scan (word :: words)) = .ok d') (hunused : d'.unused = []) :
    ∃ (g : Group) (rest : List String) (d₁ : Draft), word :: words = g.words ++ rest ∧
      readTokens d₁ (Token.scan rest) = .ok d' := by
  by_cases hterminator : word = "--"
  · rw [Token.scan, if_pos hterminator, readTokens] at h
    exact (false_of_setAside h hunused).elim
  have hscan : Token.scan (word :: words) = Token.classify word :: Token.scan words := by
    rw [Token.scan, if_neg hterminator]
  rw [hscan] at h
  rcases Token.classify_cases word with hword | hword | ⟨f, letter, attached, hword, hspelled⟩
  · rw [hword, readTokens] at h
    exact (false_of_setAside h hunused).elim
  · rw [hword, readTokens] at h
    exact (false_of_setAside h hunused).elim
  rw [hword] at h
  cases hf : f.takesValue with
  | false =>
      rw [readTokens_of_takesNone hf] at h
      obtain ⟨fs, hfs, h⟩ := exists_of_bind h
      obtain ⟨d₁, hobey, hrest⟩ := exists_of_bind h
      obtain ⟨hhelp, hattached⟩ := attached_of_obey hfs hobey
      obtain rfl := eq_verbose_of_ne_help hf hhelp
      obtain ⟨g, hg⟩ := exists_group_of_verbose hspelled hattached
      exact ⟨g, words, d₁, by rw [hg]; rfl, hrest⟩
  | true =>
      cases hspelled with
      | letters hletter => exact absurd (Flag.takesValue_of_ofLetter? hletter) (by rw [hf]; decide)
      | @equals name hname text =>
          obtain rfl := Flag.eq_label_of_ofWord? hname hf
          rw [readTokens, if_pos hf] at h
          obtain ⟨d₁, -, hrest⟩ := exists_of_bind h
          exact ⟨.attached f text hf, words, d₁, rfl, hrest⟩
      | word hname =>
          obtain rfl := Flag.eq_label_of_ofWord? hname hf
          obtain ⟨text, rest, d₁, rfl, htext, hrest⟩ := exists_argument_of_readTokens hf h
          exact ⟨.separate f text hf htext, rest, d₁, rfl, hrest⟩

theorem exists_groups_of_readTokens {words : List String} {d d' : Draft}
    (h : readTokens d (Token.scan words) = .ok d') (hunused : d'.unused = []) :
    ∃ gs : List Group, words = gs.flatMap Group.words := by
  induction hlength : words.length using Nat.strongRecOn generalizing words d with
  | ind length ih =>
      cases words with
      | nil => exact ⟨[], rfl⟩
      | cons word words =>
          obtain ⟨g, rest, d₁, hwords, hrest⟩ := exists_group_of_readTokens h hunused
          have hshorter : rest.length < length := by
            rw [← hlength, hwords, List.length_append]
            have hpos := g.length_words_pos
            omega
          obtain ⟨gs, rfl⟩ := ih _ hshorter hrest rfl
          exact ⟨g :: gs, by rw [hwords, List.flatMap_cons]⟩

end CodeListing
