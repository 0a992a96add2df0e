import Iamf.Codec.ChannelCount
import Iamf.Proofs.Wire.Consumes

/-!
# `Iamf.Proofs.Codec.ChannelCount`: every configuration takes a channel count

The field that holds the channel count is looked for in the first bytes of a
decoder configuration, with zeros where these are missing. Wherever an escape
moves it, it still ends within the first bytes, so setting it does not fail,
whatever the configuration says.

* `Read.Needs`: how many bits a program takes at most.
* `CodecConfig.exists_setBits`: a field that ends within the window can be set.
* `CodecConfig.exists_decoderConfigFor`: so the channel count always can.
-/

set_option autoImplicit false

namespace Iamf

namespace Read

variable {α β : Type} {count more : Nat}

/-- With so many bits to read the program succeeds, and it takes no more of them. -/
def Needs (count : Nat) (program : Read α) : Prop :=
  ∀ reader : Reader, count ≤ reader.unread.length → ∃ value after,
    program reader = .ok (value, after) ∧ reader.unread.length ≤ after.unread.length + count

theorem Needs.mono {program : Read α} (h : Needs count program) (hle : count ≤ more) :
    Needs more program := by
  intro reader hbits
  obtain ⟨value, after, hread, hleft⟩ := h reader (Nat.le_trans hle hbits)
  exact ⟨value, after, hread, by omega⟩

theorem needs_pure (value : α) : Needs 0 (pure value) :=
  fun reader _ => ⟨value, reader, rfl, Nat.le_refl _⟩

theorem Needs.bind {first : Read α} {next : α → Read β} (hfirst : Needs count first)
    (hnext : ∀ value, Needs more (next value)) : Needs (count + more) (first >>= next) := by
  intro reader hbits
  obtain ⟨value, middle, hvalue, hleft⟩ := hfirst reader (by omega)
  obtain ⟨result, after, hresult, hrest⟩ := hnext value middle (by omega)
  exact ⟨result, after, bind_eq_ok.2 ⟨value, middle, hvalue, hresult⟩, by omega⟩

theorem needs_bit : Needs 1 bit := by
  rintro ⟨subject, pending, rest⟩ hbits
  cases pending with
  | cons first pending =>
    refine ⟨first, ⟨subject, pending, rest⟩, by cases rest <;> rfl, ?_⟩
    simp only [Reader.unread, List.length_append, List.length_cons]
    omega
  | nil =>
    cases rest with
    | nil => exact absurd hbits (by simp [Reader.unread])
    | cons byte rest =>
      refine ⟨_, _, rfl, ?_⟩
      simp only [Reader.unread, Bits.ofBytes_cons, List.length_append, Bits.length_ofNat,
        List.length_nil]
      omega

theorem Needs.times {item : Read α} (h : Needs 1 item) (count : Nat) :
    Needs count (times count item) := by
  induction count with
  | zero => exact needs_pure []
  | succ count ih =>
    intro reader hbits
    obtain ⟨first, middle, hfirst, hleft⟩ := h reader (by omega)
    obtain ⟨others, after, hothers, hrest⟩ := ih middle (by omega)
    refine ⟨first :: others, after, ?_, by omega⟩
    simp only [times_succ, hfirst, hothers, Except.map]

theorem needs_bits (count : Nat) : Needs count (bits count) :=
  (needs_bit.times count).bind fun _ => needs_pure _

theorem needs_skipBits (count : Nat) : Needs count (skipBits count) :=
  (needs_bit.times count).bind fun _ => needs_pure _

/-- A program succeeds on a byte string that has the bits it needs. -/
theorem Needs.exists_parse {program : Read α} (h : Needs count program) (subject : String)
    {bytes : Bytes} (hbits : count ≤ 8 * bytes.length) :
    ∃ value, program.parse subject bytes = .ok value := by
  have hunread : (Reader.ofBytes subject bytes).unread.length = 8 * bytes.length :=
    Bits.length_ofBytes bytes
  obtain ⟨value, after, hread, -⟩ := h (Reader.ofBytes subject bytes) (hunread ▸ hbits)
  exact ⟨value, parse_eq_ok.2 ⟨after, hread⟩⟩

/-- Bits around a field, and the field itself, are all bits. -/
theorem needs_replaceBits {offset width total : Nat} (value : Nat) (h : offset + width ≤ total) :
    Needs total (replaceBits offset width value total) := by
  -- The bits are counted in the order in which the program takes them.
  have hall : total = offset + (width + (total - (offset + width) + 0)) := by omega
  rw [hall]
  refine (needs_bits offset).bind fun _ => (needs_skipBits width).bind fun _ => ?_
  rw [← hall]
  exact (needs_bits _).bind fun _ => needs_pure _

end Read

namespace CodecConfig

open Read (Needs needs_bits needs_pure needs_skipBits)

/-- A field can be set where its place is found, and ends, within the window. -/
theorem exists_setBits {window width : Nat} {locate : Read Nat} (value : Nat)
    (hlocate : ∀ padded : Bytes, padded.length = window → ∃ offset,
      locate.parse "decoder config" padded = .ok offset ∧ offset + width ≤ 8 * window)
    (data : Bytes) : ∃ result, setBits window locate width value data = .ok result := by
  have hlength : (data.take window ++ List.replicate (window - data.length) 0).length
      = window := by
    rw [List.length_append, List.length_take, List.length_replicate]
    omega
  obtain ⟨offset, hoffset, hend⟩ := hlocate _ hlength
  obtain ⟨fields, hfields⟩ := (Read.needs_replaceBits value hend).exists_parse "decoder config"
    (Nat.le_of_eq (congrArg (8 * ·) hlength.symm))
  exact ⟨_, outcome_bind_eq_ok.2 ⟨offset, hoffset, outcome_bind_eq_ok.2 ⟨fields, hfields, rfl⟩⟩⟩

/-- Escaped or not, the channel configuration of AAC is within the window. -/
theorem exists_aacChannelOffset (padded : Bytes) (h : padded.length = aacWindow) :
    ∃ offset, aacChannelOffset.parse "decoder config" padded = .ok offset
      ∧ offset + 4 ≤ 8 * aacWindow := by
  have hneeds : Needs (5 + (6 + (4 + 0))) aacChannelOffset := by
    refine (needs_bits 5).bind fun objectType => Needs.bind ?_ fun _ =>
      (needs_bits 4).bind fun _ => needs_pure _
    refine (needs_skipBits _).mono ?_
    split <;> omega
  obtain ⟨offset, hoffset⟩ := hneeds.exists_parse "decoder config" (by rw [h]; decide)
  refine ⟨offset, hoffset, ?_⟩
  -- Where it is found depends on the two escapes only.
  obtain ⟨after, hread⟩ := Read.parse_eq_ok.1 hoffset
  simp only [aacChannelOffset, Read.bind_eq_ok, Read.pure_eq_ok, Prod.mk.injEq] at hread
  obtain ⟨objectType, _, -, _, _, -, frequency, _, -, rfl, -⟩ := hread
  rw [aacWindow]
  split <;> split <;> omega

/-- The channel count of a decoder configuration can always be set. -/
theorem exists_decoderConfigFor (config : CodecConfig) (channels : UInt8) :
    ∃ bytes, config.decoderConfigFor channels = .ok bytes := by
  rw [decoderConfigFor]
  cases config.codec with
  | opus => exact ⟨_, rfl⟩
  | aac => exact exists_setBits _ exists_aacChannelOffset _
  | flac => exact exists_setBits _ (fun _ _ => ⟨flacChannelOffset, rfl, by decide⟩) _
  | pcm format => exact ⟨_, rfl⟩
  | unknown fourCC => exact ⟨_, rfl⟩

end CodecConfig

end Iamf
