import CodeListing.Proofs.Files.Storing
import CodeListing.Proofs.Text.Encoding
import CodeListing.Proofs.Text.LineEnds

/-! # Texts that are read

The text of a file is what its bytes say, with one line feed in the place of each line end
(`Transcribes`).  A file whose bytes are not well formed has no text: it is reported as unreadable
under the path as it is given, for the fault of decoding.  So what is read is determined by the
bytes, and a text without a carriage return is read as it was written
(`FileSystem.readText_exact`). -/

namespace CodeListing

/-- A text, the bytes that it is read from, the sequences that the bytes are, and the lines that
their characters are. -/
structure Transcribes (bytes : List UInt8) (text : String) (ss : List Utf8.Sequence) (d : Lined) :
    Prop where
  wellFormed : ∀ s ∈ ss, s.IsWellFormed
  encoded : bytes = ss.flatMap Utf8.Sequence.bytes
  decoded : d.chars = ss.map Utf8.Sequence.char
  proper : d.IsProper
  unified : text.toList = d.unified
  noReturn : '\r' ∉ text.toList
  counted : (text.toList.splitOn '\n').length = d.further.length + 1

section
variable {bytes : List UInt8} {cs : List Char} {text : String}

theorem exists_transcribes (h : Utf8.decode bytes = .ok cs) :
    ∃ ss d, Transcribes bytes (String.ofList (Utf8.unifyLineEnds cs)) ss d := by
  obtain ⟨ss, hss, hbytes, rfl⟩ := Utf8.decode_eq_ok_iff.mp h
  obtain ⟨d, hd, hchars⟩ := exists_lined (ss.map Utf8.Sequence.char)
  have htext : (String.ofList (Utf8.unifyLineEnds (ss.map Utf8.Sequence.char))).toList =
      d.unified := by
    rw [String.toList_ofList, ← hchars, hd.unifyLineEnds_chars]
  have hlines : pieces d.unified = d.lines :=
    Lined.pieces_unified fun l hl => (hd.plain l hl).2
  refine ⟨ss, d, hss, hbytes, hchars, hd, htext, ?_, ?_⟩
  · rw [htext]
    exact hd.return_notMem_unified
  · rw [htext, ← pieces_eq_splitOn, hlines, Lined.lines, List.length_cons, List.length_map]

theorem Transcribes.decode {ss : List Utf8.Sequence} {d : Lined} (h : Transcribes bytes text ss d) :
    ∃ cs, Utf8.decode bytes = .ok cs ∧ text = String.ofList (Utf8.unifyLineEnds cs) := by
  refine ⟨_, Utf8.decode_eq_ok_iff.mpr ⟨ss, h.wellFormed, h.encoded, rfl⟩, ?_⟩
  rw [← h.decoded, h.proper.unifyLineEnds_chars, ← h.unified, String.ofList_toList]

end

namespace FileSystem
variable {fs changed : FileSystem} {path text : String} {bytes : List UInt8}

/-- What is read of a file depends on its bytes alone. -/
theorem readText_of_read (hpath : hasNull path = false) (hread : fs.read path = .ok bytes) :
    fs.readText path = match Utf8.decode bytes with
      | .error m => .error (.user (.unreadable path (.unconvertible .decoding m.message)))
      | .ok cs => .ok (String.ofList (Utf8.unifyLineEnds cs)) := by
  unfold readText
  rw [hpath, if_neg Bool.false_ne_true]
  cases hdecode : Utf8.decode bytes with
  | error m =>
      rw [hread]
      dsimp only
      rw [hdecode]
  | ok cs =>
      rw [hread]
      dsimp only
      rw [hdecode]

theorem readText_eq_ok_iff (hpath : hasNull path = false) (hread : fs.read path = .ok bytes) :
    fs.readText path = .ok text ↔ ∃ ss d, Transcribes bytes text ss d := by
  rw [readText_of_read hpath hread]
  constructor
  · intro h
    split at h
    · cases h
    · next cs hcs =>
        obtain rfl := Except.ok.inj h
        exact exists_transcribes hcs
  · rintro ⟨ss, d, h⟩
    obtain ⟨cs, hcs, rfl⟩ := h.decode
    rw [hcs]

theorem readText_of_not_isWellFormed (hpath : hasNull path = false)
    (hread : fs.read path = .ok bytes) (h : ¬ Utf8.IsWellFormed bytes) :
    ∃ message, fs.readText path =
      .error (.user (.unreadable path (.unconvertible .decoding message))) := by
  rw [readText_of_read hpath hread]
  cases hdecode : Utf8.decode bytes with
  | error m => exact ⟨m.message, rfl⟩
  | ok cs =>
      obtain ⟨ss, hss, hbytes, -⟩ := Utf8.decode_eq_ok_iff.mp hdecode
      exact absurd ⟨ss, hss, hbytes⟩ h

theorem exists_text_of_isWellFormed (hpath : hasNull path = false)
    (hread : fs.read path = .ok bytes) (h : Utf8.IsWellFormed bytes) :
    ∃ text, fs.readText path = .ok text := by
  obtain ⟨ss, hss, hbytes⟩ := h
  have hdecode := Utf8.decode_eq_ok_iff.mpr ⟨ss, hss, hbytes, rfl⟩
  exact ⟨_, (readText_eq_ok_iff hpath hread).mpr (exists_transcribes hdecode)⟩

/-- A text without a carriage return is read as it is stored. -/
theorem readText_of_toUTF8 (hpath : hasNull path = false) (ht : '\r' ∉ text.toList)
    (hread : fs.read path = .ok text.toUTF8.data.toList) : fs.readText path = .ok text := by
  rw [readText_of_read hpath hread, Utf8.decode_toUTF8]
  dsimp only
  rw [unifyLineEnds_eq_self ht, String.ofList_toList]

theorem write_of_edit (h : fs.edit (.write path bytes) = (changed, none)) :
    hasNull path = false ∧ fs.write path bytes = .ok changed := by
  unfold edit settle at h
  dsimp only at h
  split at h
  · cases h
  · next hnull =>
      rw [List.any_cons, List.any_nil, Bool.or_false, Bool.not_eq_true] at hnull
      refine ⟨hnull, ?_⟩
      split at h
      · next written hwrite => rw [hwrite, (Prod.mk.inj h).1]
      · cases h

/-- **Reading decodes exactly.** -/
theorem readText_exact (fs : FileSystem) (path : String) (hpath : hasNull path = false) :
    (∀ bytes, fs.read path = .ok bytes →
      (∀ text, fs.readText path = .ok text ↔ ∃ ss d, Transcribes bytes text ss d) ∧
      ((∃ text, fs.readText path = .ok text) ↔ Utf8.IsWellFormed bytes) ∧
      (¬ Utf8.IsWellFormed bytes → ∃ message, fs.readText path =
        .error (.user (.unreadable path (.unconvertible .decoding message))))) ∧
    ∀ t : String, '\r' ∉ t.toList →
      (fs.read path = .ok t.toUTF8.data.toList → fs.readText path = .ok t) ∧
      ∀ changed, fs.edit (.write path t.toUTF8.data.toList) = (changed, none) →
        changed.readText path = .ok t := by
  refine ⟨fun bytes hread => ⟨fun text => readText_eq_ok_iff hpath hread,
    ⟨?_, exists_text_of_isWellFormed hpath hread⟩, readText_of_not_isWellFormed hpath hread⟩,
    fun t ht => ⟨readText_of_toUTF8 hpath ht, fun changed hedit => ?_⟩⟩
  · rintro ⟨text, htext⟩
    obtain ⟨ss, d, h⟩ := (readText_eq_ok_iff hpath hread).mp htext
    exact ⟨ss, h.wellFormed, h.encoded⟩
  · exact readText_of_toUTF8 hpath ht (read_of_write (write_of_edit hedit).2)

/-- Characters of two, three and four bytes, with a carriage return in front of a pair and one at
the end. -/
def mixedBytes : List UInt8 :=
  [0xc3, 0xa9, 0x0d, 0x0d, 0x0a, 0xe2, 0x82, 0xac, 0x0a, 0xf0, 0x9f, 0x98, 0x80, 0x0d]

theorem readText_exact_mixed :
    (∃ ss d, Transcribes mixedBytes "é\n\n€\n😀\n" ss d) ∧
      (∃ message, (single "f" [0xc0, 0x80]).readText "f" =
        .error (.user (.unreadable "f" (.unconvertible .decoding message)))) ∧
      (single "f" [0xc3, 0xa9, 0x0a]).readText "f" = .ok "é\n" := by
  have hpath : hasNull "f" = false := by decide
  have hoverlong : ¬ Utf8.IsWellFormed [0xc0, 0x80] := by
    rintro ⟨ss, hss, hbytes⟩
    cases Utf8.decode_eq_ok_iff.mpr ⟨ss, hss, hbytes, rfl⟩
  have hwrite : (⟨.directory [], []⟩ : FileSystem).edit (.write "f" "é\n".toUTF8.data.toList) =
      (single "f" [0xc3, 0xa9, 0x0a], none) := rfl
  refine ⟨?_, ?_, ?_⟩
  · exact (((readText_exact (single "f" mixedBytes) "f" hpath).1 mixedBytes rfl).1 _).mp rfl
  · exact ((readText_exact (single "f" [0xc0, 0x80]) "f" hpath).1 _ rfl).2.2 hoverlong
  · exact ((readText_exact _ "f" hpath).2 "é\n" (by decide)).2 _ hwrite

end FileSystem

end CodeListing
