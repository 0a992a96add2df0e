import Iamf.Proofs.Obu.Partial
import Iamf.Proofs.Stream.Reading

/-!
# `Iamf.Proofs.Stream.Lookahead`: how much of a header is in sight

The demuxer looks at `maxHeaderSize` bytes of an OBU, which is room for the flags
and three numbers. With trimming and an extension a header has four numbers, and
each may be padded to eight bytes. A program that reads a header is `Within` what
its flags ask for, and `Cautious` (`Iamf.Proofs.Obu.Partial`): once that much is
in sight, what follows makes no difference, and in front of it a program can only
report that the bytes end too early.

* `Header.parse_take_of_numbers`: bytes that hold what the flags ask for suffice.
* `Demuxer.peekHeader_of_sight`: what the demuxer sees of a header, and what it misses.
-/

set_option autoImplicit false

namespace Iamf

/-! ### Programs that stay within some bytes -/

namespace Read

variable {α β : Type}

/-- At a byte boundary in front of `limit` bytes or more, a program does not come to
the end of them, and takes no more than these. -/
def Within (limit : Nat) (program : Read α) : Prop :=
  ∀ (subject : String) (bytes : Bytes), limit ≤ bytes.length →
    (∃ error, program ⟨subject, [], bytes⟩ = .error error ∧ error ≠ .truncated subject)
    ∨ ∃ value rest, program ⟨subject, [], bytes⟩ = .ok (value, ⟨subject, [], rest⟩)
        ∧ bytes.length ≤ rest.length + limit

theorem within_pure (value : α) : Within 0 (pure value) :=
  fun _ bytes _ => .inr ⟨value, bytes, rfl, Nat.le_refl _⟩

theorem within_throw {error : Error} (h : ∀ subject, error ≠ .truncated subject) :
    Within 0 (throw error : Read α) :=
  fun subject _ _ => .inl ⟨error, rfl, h subject⟩

theorem within_ensure {condition : Prop} [Decidable condition] {error : Error}
    (h : ∀ subject, error ≠ .truncated subject) : Within 0 (ensure condition error) := by
  rw [ensure]
  split
  · exact within_pure ()
  · exact within_throw h

theorem within_byte : Within 1 byte := by
  intro subject bytes hlength
  cases bytes with
  | nil => exact absurd hlength (by decide)
  | cons first rest => exact .inr ⟨first, rest, rfl, by rw [List.length_cons]⟩

/-- Two programs in a row stay within the sum of their limits. -/
theorem Within.bind {m n : Nat} {first : Read α} {next : α → Read β} (hfirst : Within m first)
    (hnext : ∀ value, Within n (next value)) : Within (n + m) (first >>= next) := by
  intro subject bytes hlength
  simp only [Bind.bind, StateT.bind, Except.bind]
  rcases hfirst subject bytes (by omega) with ⟨error, hfails, hother⟩ | ⟨value, rest, hok, hrest⟩
  · rw [hfails]
    exact .inl ⟨error, rfl, hother⟩
  · rw [hok]
    rcases hnext value subject rest (by omega) with
      ⟨error, hfails, hother⟩ | ⟨result, last, hok, hlast⟩
    · exact .inl ⟨error, hfails, hother⟩
    · exact .inr ⟨result, last, hok, by omega⟩

/-- What takes no bytes may follow. -/
theorem Within.bind_zero {limit : Nat} {first : Read α} {next : α → Read β}
    (hfirst : Within limit first) (hnext : ∀ value, Within 0 (next value)) :
    Within limit (first >>= next) :=
  Nat.zero_add limit ▸ hfirst.bind hnext

/-- A test takes no bytes. -/
theorem Within.ensure_bind {limit : Nat} {condition : Prop} [Decidable condition]
    {error : Error} {next : Read α} (h : ∀ subject, error ≠ .truncated subject)
    (hnext : Within limit next) : Within limit (ensure condition error >>= fun _ => next) :=
  (within_ensure h).bind fun _ => hnext

/-- A cautious program does the same on all bytes as on a part that it stays within. -/
theorem Within.parse_of_part {limit : Nat} {program : Read α} (h : Within limit program)
    (hcautious : Cautious program) (subject : String) {part bytes : Bytes}
    (hpart : part <+: bytes) (hlength : limit ≤ part.length) :
    program.parse subject part = program.parse subject bytes := by
  refine (hcautious.parse_of_part subject hpart).resolve_right fun htruncated => ?_
  -- It would have come to the end of the part.
  simp only [parse, Reader.ofBytes] at htruncated
  rcases h subject part hlength with ⟨error, hfails, hother⟩ | ⟨value, rest, hok, -⟩
  · rw [hfails, Except.error.injEq] at htruncated
    exact hother htruncated
  · rw [hok] at htruncated
    cases htruncated

end Read

open Read (Within Cautious within_pure within_throw within_ensure within_byte cautious_pure
  cautious_ensure)

/-! ### Headers -/

theorem Leb128.within_readFrom (left index value : Nat) :
    Within left (readFrom left index value) := by
  induction left generalizing index value with
  | zero => exact within_throw (by simp)
  | succ left ih =>
    refine within_byte.bind fun byte => Within.ensure_bind (by simp) ?_
    split
    · exact fun _ bytes _ => .inr ⟨_, bytes, rfl, Nat.le_add_right _ _⟩
    · exact ih _ _

theorem Leb128.within_readSized : Within maxSize readSized :=
  within_readFrom _ _ _

namespace Obu

/-- The most bytes of one header: the flags and four numbers. -/
def maxFieldsLength : Nat := 1 + Leb128.maxSize * 4

namespace Header

/-- How many numbers the flags announce: the extension size, the samples to trim at
both ends, and the size. -/
def numbers (flags : UInt8) : Nat :=
  (if flags.toNat.testBit 0 then 1 else 0) + (if flags.toNat.testBit 1 then 2 else 0) + 1

theorem numbers_le (flags : UInt8) : numbers flags ≤ 4 := by
  rw [numbers]
  split <;> split <;> decide

theorem within_readTrim (present : Bool) :
    Within (Leb128.maxSize * if present then 2 else 0) (readTrim present) := by
  cases present with
  | false => exact within_pure _
  | true =>
    exact Leb128.within_readSized.bind fun _ => Leb128.within_readSized.bind fun _ =>
      within_pure _

theorem within_readExtensionSize (present : Bool) :
    Within (Leb128.maxSize * if present then 1 else 0) (readExtensionSize present) := by
  cases present with
  | false => exact within_pure _
  | true => exact Leb128.within_readSized.bind fun _ => Within.ensure_bind (by simp) (within_pure _)

/-- Behind the flags, a header is read by a program that stays within the numbers they
announce. -/
theorem exists_behind_flags :
    ∃ next : UInt8 → Read Header, read = Read.byte >>= next
      ∧ ∀ flags, Cautious (next flags) ∧ Within (Leb128.maxSize * numbers flags) (next flags) := by
  refine ⟨_, rfl, fun flags => ⟨?_, ?_⟩⟩
  · exact Leb128.cautious_readSized.bind fun _ => (cautious_ensure _).bind fun _ =>
      (cautious_readTrim _).bind fun _ => (cautious_readExtensionSize _).bind fun _ =>
      (cautious_ensure _).bind fun _ => (cautious_ensure _).bind fun _ => cautious_pure _
  · rw [numbers, Nat.mul_add, Nat.mul_add]
    exact Leb128.within_readSized.bind fun _ => Within.ensure_bind (by simp) <|
      (within_readTrim _).bind fun _ => (within_readExtensionSize _).bind_zero fun _ =>
      Within.ensure_bind (by simp) <| Within.ensure_bind (by simp) (within_pure _)

/-- Bytes that hold as many numbers as the flags announce suffice. -/
theorem parse_take_of_numbers {flags : UInt8} {rest : Bytes} {count : Nat}
    (h : Leb128.maxSize * numbers flags < count) :
    parse ((flags :: rest).take count) = parse (flags :: rest) := by
  obtain ⟨next, hread, hnext⟩ := exists_behind_flags
  obtain ⟨hcautious, hwithin⟩ := hnext flags
  obtain ⟨count, rfl⟩ := Nat.exists_eq_succ_of_ne_zero (Nat.ne_zero_of_lt h)
  rw [List.take_succ_cons, parse, parse, hread]
  show (next flags).parse "OBU header" (rest.take count) = (next flags).parse "OBU header" rest
  rcases Nat.le_total rest.length count with hle | hge
  · rw [List.take_of_length_le hle]
  · refine hwithin.parse_of_part hcautious _ (List.take_prefix _ _) ?_
    rw [List.length_take_of_le hge]
    exact Nat.le_of_lt_succ h

/-- As many bytes as any header has suffice. -/
theorem parse_take_maxFieldsLength (bytes : Bytes) :
    parse (bytes.take maxFieldsLength) = parse bytes := by
  cases bytes with
  | nil => rfl
  | cons flags rest =>
    have hle := numbers_le flags
    refine parse_take_of_numbers ?_
    rw [maxFieldsLength, Leb128.maxSize]
    omega

/-- In what the demuxer looks at, a header is complete, or it has all four numbers and
breaks off. -/
theorem parse_take_maxHeaderSize (bytes : Bytes) :
    parse (bytes.take maxHeaderSize) = parse bytes
      ∨ (∃ flags rest, bytes = flags :: rest ∧ numbers flags = 4)
        ∧ parse (bytes.take maxHeaderSize) = .error (.truncated "OBU header") := by
  cases bytes with
  | nil => exact .inl rfl
  | cons flags rest =>
    by_cases hfew : numbers flags ≤ 3
    · refine .inl (parse_take_of_numbers ?_)
      rw [maxHeaderSize, Leb128.maxSize]
      omega
    have hfour : numbers flags = 4 := Nat.le_antisymm (numbers_le flags) (Nat.lt_of_not_le hfew)
    -- Wherever the part ends, a cautious program does the same on all or runs out of bytes.
    exact (cautious_read.parse_of_part "OBU header" (List.take_prefix _ _)).imp_right
      fun htruncated => ⟨⟨flags, rest, rfl, hfour⟩, htruncated⟩

end Header

end Obu

/-! ### The demuxer -/

open Obu (Header maxHeaderSize maxFieldsLength)

/-- What the demuxer sees of a header. A parser of all that is to come needs no more
than the flags and four numbers of eight bytes each. The demuxer looks at one number
less, so a header with all four that breaks off there is reported as truncated, and
one is seen exactly if its fields are in sight and its OBU is not too large. -/
theorem Demuxer.header_in_sight {demuxer : Demuxer} {bytes : Bytes}
    (h : demuxer.source.Awaits bytes) :
    Header.parse (bytes.take maxFieldsLength) = Header.parse bytes
      ∧ (Header.parse (bytes.take maxHeaderSize) = Header.parse bytes
        ∨ (∃ flags rest, bytes = flags :: rest ∧ Header.numbers flags = 4)
          ∧ Header.parse (bytes.take maxHeaderSize) = .error (.truncated "OBU header"))
      ∧ (∀ error, Header.parse (bytes.take maxHeaderSize) = .error error → bytes ≠ [] →
        ∃ after, demuxer.peekHeader = .error error after)
      ∧ ∀ header, (∃ after, demuxer.peekHeader = .ok (some header) after)
        ↔ Header.parse bytes = .ok header ∧ header.fieldsLength ≤ maxHeaderSize
          ∧ header.totalLength ≤ demuxer.config.maxObuSize := by
  refine ⟨Header.parse_take_maxFieldsLength bytes, Header.parse_take_maxHeaderSize bytes,
    fun error herror hbytes => ?_, fun header => ?_⟩
  · obtain ⟨source, hpeek⟩ := peekHeader_of_error h hbytes herror
    exact ⟨_, hpeek⟩
  rw [← and_assoc, ← Header.parse_take_eq_ok]
  by_cases hbytes : bytes = []
  · obtain ⟨source, -, hpeek⟩ := peekHeader_of_nil (hbytes ▸ h)
    simp [hpeek, hbytes, show Header.parse [] = .error (.truncated "OBU header") from rfl]
  cases hparse : Header.parse (bytes.take maxHeaderSize) with
  | error error =>
    obtain ⟨source, hpeek⟩ := peekHeader_of_error h hbytes hparse
    simp [hpeek]
  | ok seen =>
    obtain ⟨source, -, hpeek⟩ := peekHeader_of_parse h hbytes hparse
    rw [hpeek]
    constructor
    · rintro ⟨after, hok⟩
      split at hok
      · rename_i hsize
        cases hok
        exact ⟨rfl, hsize⟩
      · cases hok
    · rintro ⟨⟨⟩, hsize⟩
      exact ⟨_, if_pos hsize⟩

/-- Zero as a number with some bytes more than it needs. -/
def paddedZero (padding : Nat) : Bytes :=
  List.replicate padding 0x80 ++ [0]

/-- A temporal delimiter that is all header and has all four numbers. The first two take
eight bytes each, the third one seven or `more`, and the last one a single byte. -/
def paddedDelimiter (more : Nat) : Bytes :=
  0x23 :: UInt8.ofNat (0x90 + more)
    :: (paddedZero 6 ++ paddedZero 7 ++ paddedZero (6 + more) ++ [0])

/-- A demuxer in front of a padded delimiter. -/
def Demuxer.atDelimiter (config : DemuxerConfig) (more : Nat) : Demuxer :=
  { source := { input := { rest := paddedDelimiter more } }, config }

theorem Demuxer.awaits_atDelimiter (config : DemuxerConfig) (more : Nat) :
    (atDelimiter config more).source.Awaits (paddedDelimiter more) :=
  ⟨rfl, rfl, nofun, Nat.zero_le _⟩

/-- A header with all four numbers whose fields are just in sight. -/
theorem Demuxer.header_in_sight_whole :
    (atDelimiter {} 0).source.Awaits (paddedDelimiter 0)
      ∧ ∃ header after, (atDelimiter {} 0).peekHeader = .ok (some header) after
        ∧ header.totalLength = maxHeaderSize := by
  refine ⟨awaits_atDelimiter {} 0, ?_⟩
  let header : Header := {
    kind := .temporalDelimiter, trim := some ⟨0, 0⟩, extensionSize := some 0, size := 16,
    headerLength := 25, bodyLength := 0 }
  have hparse : Header.parse (paddedDelimiter 0) = .ok header := by decide +kernel
  obtain ⟨after, hpeek⟩ := ((Demuxer.header_in_sight (awaits_atDelimiter {} 0)).2.2.2 header).2
    ⟨hparse, by decide, by decide⟩
  exact ⟨header, after, hpeek, rfl⟩

/-- One byte more, and the header of the OBU is no longer in sight: it parses from the
whole OBU, but neither from its first bytes nor in the demuxer, whatever its config. -/
theorem Demuxer.paddedDelimiter_out_of_sight :
    Header.parse (paddedDelimiter 1) = .ok {
        kind := .temporalDelimiter, trim := some ⟨0, 0⟩, extensionSize := some 0, size := 17,
        headerLength := (paddedDelimiter 1).length, bodyLength := 0 }
      ∧ Header.parse ((paddedDelimiter 1).take maxHeaderSize) = .error (.truncated "OBU header")
      ∧ ∀ config, ofBytes config (paddedDelimiter 1) = .error (.truncated "OBU header") := by
  have htaken : Header.parse ((paddedDelimiter 1).take maxHeaderSize)
      = .error (.truncated "OBU header") := by decide +kernel
  refine ⟨by decide +kernel, htaken, fun config => ?_⟩
  obtain ⟨source, hpeek⟩ := peekHeader_of_error (awaits_atDelimiter config 1) nofun htaken
  show readDescriptors (atDelimiter config 1) = _
  rw [readDescriptors_eq, descriptorStep, Stateful.bind_of_error hpeek]

end Iamf
