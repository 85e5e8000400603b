import BoundedZlib.Proofs.DetectedCorruption
import BoundedZlib.StreamHeader

/-!
# Headers of streams

Whether input is a stream is decided by its header and by what follows, each for itself:
what makes up a stream behind one header does so behind every other, and behind two bytes
that are no header nothing does.

Two bytes are a header exactly if the report of them is valid and tells no preset dictionary.
The report by itself does not count a preset dictionary as a fault, and so it calls valid what
is refused whatever follows.
-/

namespace BoundedZlib
namespace Format

section Headers

variable {method flags : UInt8}

theorem ofBytes_header (method flags : UInt8) (rest : Bytes) :
    Bits.ofBytes (method :: flags :: rest) = Bits.ofBytes [method, flags] ++ Bits.ofBytes rest :=
  Bits.ofBytes_append [method, flags] rest

theorem length_header (method flags : UInt8) : (Bits.ofBytes [method, flags]).length = 16 :=
  Bits.length_ofBytes [method, flags]

/-!
## What follows a header
-/

/-- A stream stays one with any other header. -/
theorem Stream.with_header {method' flags' : UInt8} {rest content : Bytes}
    (hstream : Stream (method' :: flags' :: rest) content) (hheader : IsHeader method flags) :
    Stream (method :: flags :: rest) content := by
  cases hstream with
  | @intro front _ opening last padding hopening hlast hpadding haligned hbits =>
      cases hopening with
      | @intro first second blocks _ _ hblocks =>
          have hopening := OpenStream.intro hheader hblocks
          rw [List.length_append, length_header, ← length_header method flags,
            ← List.length_append] at hlast haligned
          apply Stream.intro hopening hlast hpadding haligned
          rw [ofBytes_header] at hbits ⊢
          simp only [List.append_assoc] at hbits ⊢
          have hlengths := (length_header method' flags').trans (length_header first second).symm
          rw [(List.append_inj hbits hlengths).right]

theorem malformed_of_not_isHeader (hheader : ¬ IsHeader method flags) (rest : Bytes) :
    ∃ fault, fault <+: Bits.ofBytes (method :: flags :: rest) ∧ Malformed fault [] := by
  rw [ofBytes_header]
  exact ⟨_, List.prefix_append _ _, .header hheader⟩

/-- Two bytes are a header exactly if some input that begins with them is accepted. -/
theorem isHeader_iff_accepted :
    IsHeader method flags ↔
      ∃ rest size content, inflateToSize (method :: flags :: rest) size = .ok content := by
  constructor
  · intro hheader
    have hstream := stream_stored_byte.with_header hheader
    have hlengths : 12 ≤ 4294967295 ∧ 1 ≤ 4294967295 := by decide
    refine ⟨[0x01, 0x01, 0x00, 0xfe, 0xff, 0x61, 0x00, 0x62, 0x00, 0x62], 1, [0x61], ?_⟩
    rw [inflateToSize_eq_ok, Inflater.isFinished_iff_stream]
    exact ⟨hlengths, rfl, _, [], (List.append_nil _).symm, hstream⟩
  · intro h
    rcases h with ⟨rest, size, content, haccepted⟩
    by_contra hheader
    have hfinished := (inflateToSize_eq_ok.mp haccepted).right.right.left
    have hsound := Inflater.hasFailed_of_isFinished hfinished
    rw [(Inflater.hasFailed_iff_malformed.mpr (malformed_of_not_isHeader hheader rest)).left]
      at hsound
    cases hsound

theorem findsCorrupted_of_not_isHeader (hheader : ¬ IsHeader method flags) {rest : Bytes}
    (hlength : (method :: flags :: rest).length ≤ 4294967295) {capacity : Nat}
    (hcapacity : capacity ≤ 4294967295) :
    Inflate.FindsCorrupted (method :: flags :: rest) capacity := by
  rcases malformed_of_not_isHeader hheader rest with ⟨fault, hbegins, hfault⟩
  exact Inflate.findsCorrupted_of_malformed ⟨hlength, hcapacity⟩ hbegins hfault
    (Nat.zero_le capacity)

end Headers
end Format

/-!
## What is reported of a header
-/

namespace StreamHeader

theorem windowSize_le_iff {exponent : Nat} : 1 <<< (exponent + 8) ≤ 32768 ↔ exponent ≤ 7 := by
  rw [Nat.one_shiftLeft, show 32768 = 2 ^ 15 from rfl, Nat.pow_le_pow_iff_right (by decide)]
  omega

theorem isHeader_iff_isValid {method flags : UInt8} {rest : Bytes} {header : StreamHeader}
    (hheader : ofBytes? (method :: flags :: rest) = some header) :
    Format.IsHeader method flags ↔ header.isValid = true ∧ header.presetDictionary = false := by
  rw [ofBytes?, Option.some.injEq] at hheader
  subst hheader
  simp only [isValid, Format.IsHeader, Bool.and_eq_true, beq_iff_eq, decide_eq_true_eq,
    windowSize_le_iff, beq_eq_false_iff_ne]
  omega

/--
What is reported of the first two bytes tells whether input that begins with them can be
accepted: it is for some sequel and some size if the report is valid and tells no preset
dictionary.  Otherwise the input is corrupted, whatever the room.
-/
theorem accepted_iff_isValid_without_preset {data : Bytes} (htwo : 2 ≤ data.length)
    (hlength : data.length ≤ 4294967295) :
    ∃ header, ofBytes? data = some header ∧
      ((∃ rest size content, inflateToSize (data.take 2 ++ rest) size = .ok content) ↔
        header.isValid = true ∧ header.presetDictionary = false) ∧
      (header.isValid = false ∨ header.presetDictionary = true →
        ∀ capacity, capacity ≤ 4294967295 → Inflate.FindsCorrupted data capacity) := by
  match data, htwo with
  | method :: flags :: rest, _ =>
      refine ⟨_, rfl, ?_, ?_⟩
      · rw [← @isHeader_iff_isValid method flags rest _ rfl]
        exact Format.isHeader_iff_accepted.symm
      · intro hfault capacity hcapacity
        refine Format.findsCorrupted_of_not_isHeader ?_ hlength hcapacity
        rw [@isHeader_iff_isValid method flags rest _ rfl]
        intro hvalid
        rcases hfault with hinvalid | hpreset
        · rw [hvalid.left] at hinvalid
          cases hinvalid
        · rw [hvalid.right] at hpreset
          cases hpreset

/-- A window of 512 bytes can be announced, but neither a wrong check nor a preset dictionary. -/
theorem accepted_behind_small_window :
    (∃ rest size content, inflateToSize ([0x18, 0x19] ++ rest) size = .ok content) ∧
      Inflate.FindsCorrupted [0x78, 0x9d, 0x03] 0 ∧
      Inflate.FindsCorrupted [0x78, 0xbb, 0x03] 4294967295 := by
  rcases @accepted_iff_isValid_without_preset [0x18, 0x19] (by decide) (by decide) with
    ⟨small, hsmall, haccepted, _⟩
  rcases @accepted_iff_isValid_without_preset [0x78, 0x9d, 0x03] (by decide) (by decide) with
    ⟨wrong, hwrong, _, hwrongly⟩
  rcases @accepted_iff_isValid_without_preset [0x78, 0xbb, 0x03] (by decide) (by decide) with
    ⟨preset, hpreset, _, hpresetting⟩
  cases hsmall
  cases hwrong
  cases hpreset
  exact ⟨haccepted.mpr (by decide), hwrongly (by decide) 0 (by decide),
    hpresetting (by decide) 4294967295 (by decide)⟩

/-- A header with a preset dictionary is reported as valid, and refused whatever follows. -/
theorem isValid_of_refused_preset :
    (ofBytes? [0x78, 0xbb]).map isValid = some true ∧
      ¬ ∃ rest size content, inflateToSize ([0x78, 0xbb] ++ rest) size = .ok content := by
  refine ⟨by decide, ?_⟩
  intro haccepted
  have hno : ¬ Format.IsHeader 0x78 0xbb := by
    rw [← Format.isHeader_iff]
    decide
  exact hno (Format.isHeader_iff_accepted.mpr haccepted)

end StreamHeader
end BoundedZlib
