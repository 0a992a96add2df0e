import Iamf.Proofs.Obu.Complete

/-!
# `Iamf.Proofs.Obu.Partial`: headers that break off

Where the bytes of an OBU break off inside its header, the program that reads
the header has to say so: it may neither take the part for a header of its own
nor blame it for anything else. `Read.Cautious` says that of a program. It goes
along with `bind`, so it holds of a header field by field, wherever the cut is.

* `Header.cautious_read`: the program that reads a header is cautious.
* `Complete.parse_of_part`: what the start of an OBU parses to.
* `Complete.exists_remnant`: a stream is whole OBUs, and perhaps a remnant behind them.
* `Complete.exists_take`: the front of a stream of OBUs is whole OBUs, and perhaps
  a part of one more.
* `IsPart.parse_of_seen`, `IsRemnant.length_lt`: what the header says there.
-/

set_option autoImplicit false

namespace Iamf

/-! ### Programs that notice where the bytes break off -/

namespace Read

variable {α β : Type}

/-- At a byte boundary, a program that sees only a part of the bytes reports that
they end too early, or it comes to the same as on all of them. -/
def Cautious (program : Read α) : Prop :=
  ∀ (subject : String) (part missing : Bytes),
    program ⟨subject, [], part⟩ = .error (.truncated subject)
    ∨ (∃ error, program ⟨subject, [], part⟩ = .error error
        ∧ program ⟨subject, [], part ++ missing⟩ = .error error)
    ∨ ∃ value rest, program ⟨subject, [], part⟩ = .ok (value, ⟨subject, [], rest⟩)
        ∧ program ⟨subject, [], part ++ missing⟩ = .ok (value, ⟨subject, [], rest ++ missing⟩)

theorem cautious_pure (value : α) : Cautious (pure value) :=
  fun _ part _ => .inr (.inr ⟨value, part, rfl, rfl⟩)

theorem cautious_throw (error : Error) : Cautious (throw error : Read α) :=
  fun _ _ _ => .inr (.inl ⟨error, rfl, rfl⟩)

theorem cautious_ensure {condition : Prop} [Decidable condition] (error : Error) :
    Cautious (ensure condition error) := by
  rw [ensure]
  split
  · exact cautious_pure ()
  · exact cautious_throw error

theorem cautious_byte : Cautious byte := by
  intro subject part missing
  cases part with
  | nil => exact .inl (byte_nil subject)
  | cons first rest => exact .inr (.inr ⟨first, rest, rfl, rfl⟩)

/-- Two cautious programs in a row. -/
theorem Cautious.bind {first : Read α} {next : α → Read β} (hfirst : Cautious first)
    (hnext : ∀ value, Cautious (next value)) : Cautious (first >>= next) := by
  intro subject part missing
  simp only [Bind.bind, StateT.bind, Except.bind]
  rcases hfirst subject part missing with
    htruncated | ⟨error, hpart, hall⟩ | ⟨value, rest, hpart, hall⟩
  · rw [htruncated]
    exact .inl rfl
  · rw [hpart, hall]
    exact .inr (.inl ⟨error, rfl, rfl⟩)
  · rw [hpart, hall]
    exact hnext value subject rest missing

/-- On a part of the bytes a cautious program does the same as on all of them, or it
reports that they end too early. -/
theorem Cautious.parse_of_part {program : Read α} (h : Cautious program) (subject : String)
    {part bytes : Bytes} (hpart : part <+: bytes) :
    program.parse subject part = program.parse subject bytes
      ∨ program.parse subject part = .error (.truncated subject) := by
  obtain ⟨missing, rfl⟩ := hpart
  simp only [parse, Reader.ofBytes]
  rcases h subject part missing with
    htruncated | ⟨error, hfails, hall⟩ | ⟨value, rest, hok, hall⟩
  · rw [htruncated]
    exact .inr rfl
  · rw [hfails, hall]
    exact .inl rfl
  · rw [hok, hall]
    exact .inl rfl

end Read

open Read (Cautious cautious_pure cautious_throw cautious_ensure cautious_byte)

/-! ### Headers -/

/-- A number that breaks off is noticed at each of its bytes. -/
theorem Leb128.cautious_readFrom (left index value : Nat) :
    Cautious (readFrom left index value) := by
  induction left generalizing index value with
  | zero => exact cautious_throw .leb128TooLong
  | succ left ih =>
    refine cautious_byte.bind fun byte => (cautious_ensure _).bind fun _ => ?_
    split
    · exact cautious_pure _
    · exact ih _ _

theorem Leb128.cautious_readSized : Cautious readSized :=
  cautious_readFrom _ _ _

namespace Obu

theorem Header.cautious_readTrim (present : Bool) : Cautious (readTrim present) := by
  cases present with
  | false => exact cautious_pure _
  | true =>
    exact Leb128.cautious_readSized.bind fun _ =>
      Leb128.cautious_readSized.bind fun _ => cautious_pure _

theorem Header.cautious_readExtensionSize (present : Bool) :
    Cautious (readExtensionSize present) := by
  cases present with
  | false => exact cautious_pure _
  | true =>
    exact Leb128.cautious_readSized.bind fun _ =>
      (cautious_ensure _).bind fun _ => cautious_pure _

theorem Header.cautious_read : Cautious read :=
  cautious_byte.bind fun _ => Leb128.cautious_readSized.bind fun _ =>
    (cautious_ensure _).bind fun _ => (cautious_readTrim _).bind fun _ =>
    (cautious_readExtensionSize _).bind fun _ => (cautious_ensure _).bind fun _ =>
    (cautious_ensure _).bind fun _ => cautious_pure _

/-! ### Parts of OBUs -/

/-- Bytes that no OBU of an accepted length is whole at the start of. -/
structure IsRemnant (limit : Nat) (bytes : Bytes) : Prop where
  nonempty : bytes ≠ []
  unfinished : ∀ (obu : Complete) (rest : Bytes), bytes = obu.bytes ++ rest →
    limit < obu.header.totalLength

/-- Bytes that an OBU of an accepted length starts with. -/
def IsPart (limit : Nat) (bytes : Bytes) : Prop :=
  ∃ obu : Complete, obu.header.totalLength ≤ limit ∧ bytes <+: obu.bytes

/-- Whether an OBU ends behind the first `count` bytes of a stream, or the stream
starts there: the bytes in front are whole OBUs. -/
def IsBoundary (bytes : Bytes) (count : Nat) : Prop :=
  ∃ obus : List Complete, bytes.take count = obus.flatMap (·.bytes)

namespace Complete

/-- The start of an OBU parses to its header, unless it breaks off inside. -/
theorem parse_of_part (obu : Complete) {part : Bytes} (h : part <+: obu.bytes) :
    Header.parse part = .ok obu.header
      ∨ Header.parse part = .error (.truncated "OBU header") := by
  rw [← obu.parse_of_prefix (List.take_prefix _ _)]
  exact Header.cautious_read.parse_of_part _ h

/-- A stream is whole OBUs of an accepted length up to a remnant, if there is one. -/
theorem exists_remnant (limit : Nat) (bytes : Bytes) :
    ∃ (obus : List Complete) (rest : Bytes), bytes = obus.flatMap (·.bytes) ++ rest
      ∧ (∀ obu ∈ obus, obu.header.totalLength ≤ limit)
      ∧ (rest = [] ∨ IsRemnant limit rest) := by
  -- By strong induction on the length: an OBU has two bytes at least.
  induction hlength : bytes.length using Nat.strong_induction_on generalizing bytes with
  | _ length ih =>
    subst hlength
    by_cases hempty : bytes = []
    · exact ⟨[], [], hempty, by simp, .inl rfl⟩
    by_cases hwhole : ∃ (obu : Complete) (rest : Bytes), bytes = obu.bytes ++ rest
        ∧ obu.header.totalLength ≤ limit
    · obtain ⟨obu, rest, rfl, hsize⟩ := hwhole
      have htwo := obu.two_le_length
      obtain ⟨obus, last, rfl, hsizes, hlast⟩ :=
        ih rest.length (by rw [List.length_append]; omega) rest rfl
      refine ⟨obu :: obus, last, by rw [List.flatMap_cons, List.append_assoc], ?_, hlast⟩
      exact List.forall_mem_cons.2 ⟨hsize, hsizes⟩
    · refine ⟨[], bytes, rfl, by simp, .inr ⟨hempty, fun obu rest hbytes => ?_⟩⟩
      exact Nat.lt_of_not_le fun hsize => hwhole ⟨obu, rest, hbytes, hsize⟩

/-- A part of an OBU that is neither empty nor all of it is a remnant. -/
theorem isRemnant_of_part (limit : Nat) {obu : Complete} {part : Bytes} (hempty : part ≠ [])
    (hpart : part <+: obu.bytes) (hless : part ≠ obu.bytes) : IsRemnant limit part := by
  refine ⟨hempty, fun other rest hother => ?_⟩
  -- An OBU that were whole there would start where this one does, so it would be this one.
  obtain ⟨missing, hmissing⟩ := hpart
  rw [hother, List.append_assoc] at hmissing
  obtain ⟨rfl, hnothing⟩ := eq_of_append ((List.append_nil _).trans hmissing.symm)
  rw [(List.append_eq_nil_iff.1 hnothing.symm).1, List.append_nil] at hother
  exact absurd hother hless

/-- The first bytes of a stream of OBUs are whole OBUs, with a part of the next
one behind them. -/
theorem exists_take (obus : List Complete) (count : Nat) :
    ∃ front back part, obus = front ++ back
      ∧ (obus.flatMap (·.bytes)).take count = front.flatMap (·.bytes) ++ part
      ∧ (part = [] ∨ ∃ obu ∈ back, part <+: obu.bytes ∧ part ≠ obu.bytes) := by
  induction obus generalizing count with
  | nil => exact ⟨[], [], [], rfl, List.take_nil, .inl rfl⟩
  | cons obu obus ih =>
    rw [List.flatMap_cons, List.take_append]
    rcases Nat.lt_or_ge count obu.bytes.length with hlt | hge
    · -- The cut is inside this OBU, and nothing of the others is left.
      refine ⟨[], obu :: obus, obu.bytes.take count, rfl, ?_, .inr ⟨obu, List.mem_cons_self,
        List.take_prefix _ _, ?_⟩⟩
      · rw [Nat.sub_eq_zero_of_le (Nat.le_of_lt hlt), List.take_zero, List.append_nil]
        rfl
      · intro hall
        have hlength := congrArg List.length hall
        rw [List.length_take] at hlength
        omega
    · obtain ⟨front, back, part, rfl, htake, hpart⟩ := ih (count - obu.bytes.length)
      refine ⟨obu :: front, back, part, rfl, ?_, hpart⟩
      rw [htake, List.take_of_length_le hge, List.flatMap_cons, List.append_assoc]

end Complete

/-! ### Headers in front of a remnant -/

variable {limit : Nat} {seen bytes : Bytes} {header : Header}

/-- What is seen of a part of an OBU parses to a header of an accepted length, unless
it breaks off inside. -/
theorem IsPart.parse_of_seen (h : IsPart limit bytes) (hseen : seen <+: bytes) :
    (∃ header, Header.parse seen = .ok header ∧ header.totalLength ≤ limit)
      ∨ Header.parse seen = .error (.truncated "OBU header") := by
  obtain ⟨obu, hsize, hbytes⟩ := h
  exact (obu.parse_of_part (hseen.trans hbytes)).imp_left fun hparse => ⟨_, hparse, hsize⟩

/-- A header of an accepted length that is seen in front of a remnant promises more
than is to come. -/
theorem IsRemnant.length_lt (h : IsRemnant limit bytes) (hseen : seen <+: bytes)
    (hshort : seen.length ≤ maxHeaderSize) (hparse : Header.parse seen = .ok header)
    (hsize : header.totalLength ≤ limit) : bytes.length < header.totalLength := by
  -- Were all of it there, the remnant would start with a whole OBU.
  refine Nat.lt_of_not_le fun hle => ?_
  have hlength := List.length_take_of_le hle
  have hsplit := (List.take_append_drop header.totalLength bytes).symm
  have hfirst := Header.parse_take hparse hshort (hsplit ▸ hseen) hlength
  exact absurd (h.unfinished ⟨header, _, hfirst, hlength⟩ _ hsplit) (Nat.not_lt.2 hsize)

end Obu

end Iamf
