import Iamf.Proofs.Bits.Reading
import Iamf.Proofs.Codec.Readable
import Iamf.Proofs.Wire.Groups

/-!
# `Iamf.Proofs.Codec.Reencoded`: codec configs that are read and written again

A codec config is read in more than one way: its id and frame size may be padded, the
descriptors of AAC hold sizes and bit rates that nobody looks at, and a FLAC block header
may say anything. It is written in one way only. All that is thrown away has a fixed
length, so what is written is never longer than what was read.

* `CodecConfig.exists_encode_iff`: a config that was read can be written if its codec is
  known.
* `CodecConfig.length_of_readDecoder`: what a codec asks for has one length.
* `CodecConfig.length_le_of_parse`: no shorter body reads as the same config.
* `CodecConfig.encode_of_parseConfig`: what is written of a config that was read.
-/

set_option autoImplicit false

namespace Iamf.CodecConfig

open Read (skipBytes_eq_ok remaining_eq_ok)

variable {config : CodecConfig}

/-- Just the configurations of known codecs can be written. -/
theorem exists_encode_iff :
    (∃ written, config.encode = .ok written) ↔ ∀ fourCC, config.codec ≠ .unknown fourCC := by
  constructor
  · rintro ⟨written, hencode⟩
    obtain ⟨decoder, hdecoder, -⟩ := outcome_bind_eq_ok.1 hencode
    exact known_of_encodeDecoder hdecoder
  · intro hknown
    rw [encode, encodeDecoder]
    cases hcodec : config.codec with
    | opus | aac | flac | pcm => exact ⟨_, rfl⟩
    | unknown fourCC => exact absurd hcodec (hknown fourCC)

/-! ### Lengths -/

section

variable {subject : String} {bytes : Bytes} {after : Reader} {decoder : Decoder}

theorem readOpus_config (h : readOpus ⟨subject, [], bytes⟩ = .ok (decoder, after)) :
    decoder.2.2 = opusMagic ++ bytes := by
  simp only [readOpus, Read.bind_eq_ok, Read.pure_eq_ok, Prod.mk.injEq] at h
  obtain ⟨rest, _, hrest, _, _, -, rfl, -⟩ := h
  rw [(remaining_eq_ok hrest).1]

/-- The descriptors of AAC are as long as those that are written, whatever they hold. -/
theorem readAac_length (h : readAac ⟨subject, [], bytes⟩ = .ok (decoder, after)) :
    bytes.length = 3 + unusedDescriptorSize + 1 + decoder.2.2.length := by
  simp only [readAac, Read.bind_eq_ok, Read.ensure_eq_ok, Read.pure_eq_ok, Prod.mk.injEq] at h
  obtain ⟨_, _, hfirst, _, _, ⟨-, -, rfl⟩, _, _, hsecond, _, _, ⟨-, -, rfl⟩, _, _, hthird,
    _, _, ⟨-, -, rfl⟩, _, _, hunused, _, _, htag, _, _, ⟨-, -, rfl⟩, _, _, hconfig, _, _, -,
    _, _, -, rfl, -⟩ := h
  obtain ⟨_, rfl, rfl⟩ := Read.byte_eq_ok hfirst
  obtain ⟨_, rfl, rfl⟩ := Read.byte_eq_ok hsecond
  obtain ⟨_, rfl, rfl⟩ := Read.byte_eq_ok hthird
  obtain ⟨unused, _, rfl, hlength, rfl⟩ := skipBytes_eq_ok hunused
  obtain ⟨_, rfl, rfl⟩ := Read.byte_eq_ok htag
  obtain ⟨rfl, -⟩ := remaining_eq_ok hconfig
  simp only [List.length_cons, List.length_append]
  omega

theorem readFlac_length (h : readFlac ⟨subject, [], bytes⟩ = .ok (decoder, after)) :
    bytes.length = 4 + decoder.2.2.length := by
  simp only [readFlac, Read.bind_eq_ok, Read.pure_eq_ok, Prod.mk.injEq] at h
  obtain ⟨_, _, hheader, _, _, hinfo, _, _, -, rfl, -⟩ := h
  obtain ⟨header, _, rfl, hlength, rfl⟩ := skipBytes_eq_ok hheader
  obtain ⟨rfl, -⟩ := remaining_eq_ok hinfo
  rw [List.length_append, hlength]

/-- Nothing may be behind a PCM configuration, also where a body is not read strictly. -/
theorem readPcm_length (h : readPcm ⟨subject, [], bytes⟩ = .ok (decoder, after)) :
    bytes.length = 6 := by
  simp only [readPcm, Read.bind_eq_ok, Read.ensure_eq_ok] at h
  obtain ⟨flags, _, hflags, _, _, ⟨-, -, rfl⟩, bits, _, hbits, h⟩ := h
  obtain ⟨_, rfl, rfl⟩ := Read.byte_eq_ok hflags
  obtain ⟨rest, rfl, rfl⟩ := Read.byte_eq_ok hbits
  cases hdepth : PcmDepth.ofBits? bits with
  | none => exact absurd h (by simp [hdepth, Read.throw_eq_ok])
  | some depth =>
    simp only [hdepth, Read.bind_eq_ok, Read.ensure_eq_ok] at h
    obtain ⟨sampleRate, _, hrate, left, _, hleft, _, _, ⟨hend, -⟩, -⟩ := h
    obtain ⟨behind, rfl, hlength⟩ := Read.Spells.length_eq 4 Read.spells_uint32 Read.aligns_uint32 hrate
    cases hleft
    rw [List.length_cons, List.length_cons, hlength, show behind.length = 0 from hend]

end

/-- What a known codec asks for is written as long as it was read. -/
theorem length_of_readDecoder {fourCC : FourCC} {subject : String} {bytes written : Bytes}
    {after : Reader}
    (h : readDecoder fourCC ⟨subject, [], bytes⟩
      = .ok ((config.codec, config.sampleRate, config.decoderConfig), after))
    (hencode : config.encodeDecoder = .ok written) : written.length = bytes.length := by
  obtain ⟨id, codec, frameSize, seekPreroll, sampleRate, decoderConfig⟩ := config
  simp only at h
  rw [readDecoder] at h
  split at h
  · obtain rfl : codec = .opus := (readOpus_eq_ok h).2
    obtain rfl : decoderConfig = opusMagic ++ bytes := readOpus_config h
    have hbegins : opusMagic.isPrefixOf (opusMagic ++ bytes) = true :=
      List.isPrefixOf_iff_prefix.2 (List.prefix_append _ _)
    simp only [encodeDecoder, hbegins, if_true, List.drop_left, outcome_pure_eq_ok] at hencode
    rw [hencode]
  split at h
  · obtain rfl : codec = .aac := (readAac_eq_ok h).2
    have hlength : bytes.length = 3 + unusedDescriptorSize + 1 + decoderConfig.length :=
      readAac_length h
    simp only [encodeDecoder, outcome_pure_eq_ok] at hencode
    subst hencode
    simp only [List.length_append, List.length_cons, List.length_nil, List.length_replicate]
    omega
  split at h
  · obtain rfl : codec = .flac := (readFlac_eq_ok h).2
    have hlength : bytes.length = 4 + decoderConfig.length := readFlac_length h
    simp only [encodeDecoder, outcome_pure_eq_ok] at hencode
    subst hencode
    simp only [List.length_append, List.length_cons, Bytes.ofUInt24, List.length_nil]
    omega
  split at h
  · obtain ⟨format, hformat⟩ := (readPcm_eq_ok h).2
    obtain rfl : codec = .pcm format := hformat
    rw [readPcm_length h]
    simp only [encodeDecoder, outcome_pure_eq_ok] at hencode
    rw [← hencode]
    rfl
  · rw [Read.pure_eq_ok] at h
    obtain rfl : codec = .unknown fourCC := by
      cases h
      rfl
    cases hencode

/-- No shorter body than the one that is written reads as the config. -/
theorem length_le_of_parse {strict : Bool} {body written : Bytes}
    (h : parse strict body = .ok config) (hencode : config.encode = .ok written) :
    written.length ≤ body.length := by
  rw [parse, Read.parse_eq_ok] at h
  obtain ⟨after, h⟩ := h
  simp only [Reader.ofBytes, read, Read.bind_eq_ok, Read.pure_eq_ok, Prod.mk.injEq] at h
  obtain ⟨id, _, hid, fourCC, _, hcode, frameSize, _, hframe, seekPreroll, _, hseek,
    decoder, _, hdecoder, _, _, -, rfl, -⟩ := h
  obtain ⟨first, _, rfl, rfl, hfirst⟩ := Leb128.read_eq_ok hid
  obtain ⟨_, rfl, hcodele⟩ := Read.Spells.length_eq 4 Read.spells_uint32 Read.aligns_uint32 hcode
  obtain ⟨second, _, rfl, rfl, hsecond⟩ := Leb128.read_eq_ok hframe
  obtain ⟨_, _, hword, hpreroll⟩ := Read.map_eq_ok.1 hseek
  obtain ⟨rfl, rfl⟩ := Prod.mk.inj hpreroll
  obtain ⟨_, rfl, hseekle⟩ := Read.Spells.length_eq 2 Read.spells_uint16 Read.aligns_uint16 hword
  rw [encode, outcome_bind_eq_ok] at hencode
  obtain ⟨bytes, hbytes, hwritten⟩ := hencode
  have hlength := length_of_readDecoder hdecoder hbytes
  have hidle := hfirst.size_le
  have hframele := hsecond.size_le
  rw [outcome_pure_eq_ok] at hwritten
  subst hwritten
  rw [List.length_append] at hcodele
  simp only [List.length_append, Leb128.length_encode, Bytes.ofUInt32, Bytes.ofInt16,
    Bytes.ofUInt16, List.length_cons, List.length_nil]
  omega

/-- A config that was read can be written just if its codec is known. What is written is
read as the same config, however strictly, and whatever reads it writes it again byte by
byte. It is the shortest body that reads as the config. -/
theorem encode_of_parseConfig {strict : Bool} {body : Bytes}
    (h : parse strict body = .ok config) :
    ((∃ written, config.encode = .ok written) ↔ ∀ fourCC, config.codec ≠ .unknown fourCC)
      ∧ ∀ written, config.encode = .ok written →
        (∀ again, parse again written = .ok config)
        ∧ (∀ again read, parse again written = .ok read → read.encode = .ok written)
        ∧ ∀ again other, parse again other = .ok config → written.length ≤ other.length := by
  refine ⟨exists_encode_iff, fun written hencode => ?_⟩
  have hread := parse_encode (parse_eq_ok h) hencode
  refine ⟨hread, fun again read hagain => ?_, fun again other hother => ?_⟩
  · obtain rfl := Except.ok.inj ((hread again).symm.trans hagain)
    exact hencode
  · exact length_le_of_parse hother hencode

/-- An AAC config with padded numbers, bit rates that are not zero, and both the object
type and the sample rate written out. -/
def wordyConfig : Bytes :=
  [0x85, 0x00, 0x6D, 0x70, 0x34, 0x61, 0x80, 0x88, 0x00, 0xFF, 0xFE,
    0x04, 0x40, 0x14, 0, 3, 0, 0, 1, 0xF4, 0, 0, 0, 0xFA, 0,
    0x05, 0xF8, 0x3E, 0x01, 0x58, 0x88, 0x40]

/-- A config with a codec that is not known, and a byte behind it. -/
def strangeConfig : Bytes :=
  [0x01, 0x61, 0x62, 0x63, 0x64, 0x04, 0x00, 0x00, 0xAA]

/-- The wordy config is read, written in two bytes less, and read again. The strange one
is read but cannot be written. -/
theorem encode_of_parseConfig_wordy :
    (∃ config written, parse false wordyConfig = .ok config ∧ config.encode = .ok written
      ∧ config.sampleRate = 44100 ∧ written.length + 2 = wordyConfig.length
      ∧ parse true written = .ok config)
    ∧ ∃ config, parse false strangeConfig = .ok config ∧ ¬ ∃ written, config.encode = .ok written := by
  refine ⟨?wordy, ?strange⟩
  case wordy =>
    have hread : (parse false wordyConfig).map (fun config =>
        (config.sampleRate, config.encode.map List.length)) = .ok (44100, .ok 30) := by
      decide +kernel
    obtain ⟨config, hconfig, hparts⟩ := outcome_map_eq_ok.1 hread
    obtain ⟨hrate, hwritten⟩ := Prod.mk.inj hparts
    obtain ⟨written, hencode, hlength⟩ := outcome_map_eq_ok.1 hwritten
    exact ⟨config, written, hconfig, hencode, hrate, congrArg (· + 2) hlength,
      ((encode_of_parseConfig hconfig).2 written hencode).1 true⟩
  case strange =>
    have hread : (parse false strangeConfig).map (·.codec) = .ok (.unknown 0x61626364) := by
      decide +kernel
    obtain ⟨config, hconfig, hcodec⟩ := outcome_map_eq_ok.1 hread
    exact ⟨config, hconfig, fun hwritten =>
      (encode_of_parseConfig hconfig).1.1 hwritten _ hcodec⟩

end Iamf.CodecConfig
