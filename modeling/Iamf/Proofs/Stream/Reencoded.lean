import Iamf.Proofs.Parameter.Parsed
import Iamf.Proofs.Stream.Resolved

/-!
# `Iamf.Proofs.Stream.Reencoded`: parameter blocks that were read can be written

A block may be read that no writer makes. Numbers may be longer than they have to
be, gains of zero may be written out, reserved bits may be set, and without strict
reading there may be bytes behind its last subblock. The values keep nothing of
that. But they conform to their definition, which was read itself, so they have a
block of their own, and that gives them back.

* `Parameter.encodeBlock_of_parseBlock`: after any descriptors, some of which may have
  failed, what is written of values that were read gives them back.
-/

set_option autoImplicit false

namespace Iamf

namespace Parameter

/-- Values of a parameter block that were read after some descriptors can be written
against the definition of their id, and the block that is written gives them back,
however strictly it is read. -/
theorem encodeBlock_of_parseBlock (descriptors : List Registry.Descriptor) {mode : ReadMode}
    {body : Bytes} {values : Parameter}
    (h : parseBlock mode (Registry.readAll descriptors) body = .ok (some values)) :
    ∃ definition rewritten,
      (Registry.readAll descriptors).parameter? values.id = some definition
      ∧ values.encodeBlock definition (Registry.readAll descriptors) = .ok rewritten
      ∧ ∀ again : ReadMode,
        parseBlock again (Registry.readAll descriptors) rewritten = .ok (some values) := by
  have hgrounded := (Registry.resolved_readAll descriptors).registered
  obtain ⟨definition, carrying, hfind, hcarrying, hconforms⟩ := parseBlock_eq_ok hgrounded h
  -- A self timed block has its timeline from the definition, so that must be regular too.
  have htimed : definition.IsTimed :=
    (hgrounded definition (List.mem_of_find?_eq_some hfind)).timed_isTimed
  obtain ⟨rewritten, hencode, hread⟩ := hconforms.exists_encodeBlock htimed hcarrying
  exact ⟨definition, rewritten, hfind, hencode, fun again => hread again _ hfind hcarrying⟩

/-- The descriptors of a stereo element with recon gain for its only layer, and one that
fails because it lists a substream that is taken. -/
def reconGainDescriptors : List Registry.Descriptor :=
  [{ kind := .codecConfig,
     body := [0x00, 0x69, 0x70, 0x63, 0x6D, 0x04, 0x00, 0x00, 0x01, 0x10, 0x00, 0x00, 0xBB,
       0x80] },
   { kind := .audioElement,
     body := [0x01, 0x00, 0x00, 0x01, 0x14, 0x01, 0x02, 0x07, 0x01, 0x80, 0x20, 0x14, 0x01,
       0x01] },
   { kind := .audioElement,
     body := [0x02, 0x00, 0x00, 0x01, 0x14, 0x00, 0x20, 0x10, 0x01, 0x01] }]

/-- A block of that parameter. Its one row has a flag for the first slot, whose gain is
zero, and behind the escape flag the one for the last. A byte is left over. -/
def reconGainBlock : Bytes := [0x07, 0x04, 0x04, 0x83, 0x21, 0x00, 0x07, 0x09, 0x55]

/-- What it says. -/
def reconGainValues : Parameter :=
  { reconGainDefinition with
    subblocks :=
      [{ duration := 4
         value := .reconGain (.ofList [.ofList [0, 7, 0, 0, 0, 0, 0, 0, 0, 0, 0, 9]]) }] }

/-- Strict reading refuses the block, but not the one that is written instead, which has
neither the gain of zero nor the byte behind. -/
theorem encodeBlock_of_parseBlock_reconGain :
    parseBlock { strict := true } (Registry.readAll reconGainDescriptors) reconGainBlock
        ≠ .ok (some reconGainValues)
      ∧ reconGainValues.encodeBlock reconGainDefinition (Registry.readAll reconGainDescriptors)
        = .ok [0x07, 0x04, 0x04, 0x82, 0x21, 0x07, 0x09]
      ∧ ∃ definition rewritten,
        (Registry.readAll reconGainDescriptors).parameter? reconGainValues.id = some definition
        ∧ reconGainValues.encodeBlock definition (Registry.readAll reconGainDescriptors)
          = .ok rewritten
        ∧ ∀ again : ReadMode, parseBlock again (Registry.readAll reconGainDescriptors) rewritten
          = .ok (some reconGainValues) := by
  refine ⟨by decide +kernel, by decide +kernel, ?_⟩
  have hread : parseBlock {} (Registry.readAll reconGainDescriptors) reconGainBlock
      = .ok (some reconGainValues) := by decide +kernel
  exact encodeBlock_of_parseBlock reconGainDescriptors hread

end Parameter

end Iamf
