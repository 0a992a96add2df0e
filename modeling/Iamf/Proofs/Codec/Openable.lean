import Iamf.Proofs.Codec.Readable

/-!
# `Iamf.Proofs.Codec.Openable`: codec configs that were not read from anywhere

A codec config that is handed in for writing may hold anything as its decoder
configuration, and the writer does not look at it: it is written as it is. The
reader does look. `CodecConfig.IsOpenable` is what the one takes and the other
asks for. The sample rate need not be the one that the configuration tells.

* `CodecConfig.exists_parse_encode`: an openable config that was written is read.
-/

set_option autoImplicit false

namespace Iamf.CodecConfig

open Read (Exhausts)

/-- An Opus configuration without the magic, whether it starts with that or not. -/
def withoutMagic (bytes : Bytes) : Bytes :=
  if opusMagic.isPrefixOf bytes then bytes.drop opusMagic.length else bytes

/-- A config whose decoder configuration is long enough for the reader of its
codec, or tells that reader a sample rate. -/
def IsOpenable (config : CodecConfig) : Prop :=
  match config.codec with
  | .opus => minOpusConfigSize ≤ (withoutMagic config.decoderConfig).length
  | .aac => ∃ sampleRate,
    readAacSampleRate.parse "AudioSpecificConfig" config.decoderConfig = .ok sampleRate
  | .flac => minFlacInfoSize ≤ config.decoderConfig.length
  | .pcm _ | .unknown _ => True

/-- An empty configuration tells no sample rate. -/
theorem ne_nil_of_readAacSampleRate {config : Bytes} {sampleRate : UInt32}
    (h : readAacSampleRate.parse "AudioSpecificConfig" config = .ok sampleRate) : config ≠ [] := by
  rintro rfl
  have hempty : readAacSampleRate.parse "AudioSpecificConfig" []
      = .error (.truncated "AudioSpecificConfig") := rfl
  cases hempty.symm.trans h

/-- What the codec of an openable config asks for is read from its bytes. -/
theorem IsOpenable.exists_exhausts {config : CodecConfig} {bytes : Bytes}
    (h : config.IsOpenable) (hencode : config.encodeDecoder = .ok bytes) :
    ∃ sampleRate decoderConfig, Exhausts (readDecoder config.codec.fourCC) bytes
      (config.codec, sampleRate, decoderConfig) := by
  rw [IsOpenable] at h
  rw [encodeDecoder] at hencode
  cases hcodec : config.codec with
  | opus =>
    simp only [hcodec, outcome_pure_eq_ok] at h hencode
    rw [← hencode]
    exact ⟨opusSampleRate, _, exhausts_opus h⟩
  | aac =>
    simp only [hcodec, outcome_pure_eq_ok] at h hencode
    obtain ⟨sampleRate, hrate⟩ := h
    exact ⟨sampleRate, _, hencode ▸ exhausts_aac (ne_nil_of_readAacSampleRate hrate) hrate⟩
  | flac =>
    simp only [hcodec, outcome_pure_eq_ok] at h hencode
    exact ⟨_, _, hencode ▸ exhausts_flac h⟩
  | pcm format =>
    simp only [hcodec, outcome_pure_eq_ok] at hencode
    exact ⟨_, _, hencode ▸ exhausts_pcm format config.sampleRate⟩
  | unknown fourCC =>
    rw [hcodec] at hencode
    cases hencode

/-- An openable config that was written is read, under its id and with its codec,
which is a known one. -/
theorem exists_parse_encode {config : CodecConfig} {body : Bytes} (h : config.IsOpenable)
    (hencode : config.encode = .ok body) (strict : Bool) :
    ∃ read, parse strict body = .ok read ∧ read.id = config.id
      ∧ ∀ fourCC, read.codec ≠ .unknown fourCC := by
  obtain ⟨bytes, hbytes, hparse⟩ := parse_of_exhausts hencode
  obtain ⟨sampleRate, decoderConfig, hread⟩ := h.exists_exhausts hbytes
  have hknown := known_of_encodeDecoder hbytes
  exact ⟨_, hparse sampleRate decoderConfig strict hread, rfl, hknown⟩

end Iamf.CodecConfig
