import Iamf.Proofs.Text.Terminated

/-!
# `Iamf.Proofs.Text.Lossy`: what texts that were read hold

A reader counts the bytes of a text before it decodes them, and a writer after it has
encoded them. These numbers differ where a text is damaged, since every damaged part
becomes a character of three bytes. But a text that was read holds no NUL: its bytes
had none, and no tail makes one of a lead byte, as the narrowed ranges of the first
tail byte keep out overlong forms. So the length is all that a writer can refuse.

* `Utf8.zero_notMem_encode_decodeLossy`: decoding brings in no NUL.
* `Terminated.read_eq_ok`: a text that was read holds none.
* `Terminated.exists_encode_iff`: such a text can be written if it is short enough.
-/

set_option autoImplicit false

namespace Iamf.Text

namespace Utf8

/-! ### Tails -/

/-- The value of a whole tail has six payload bits for each of its bytes. -/
theorem readTail_bounds {value low high further result : Nat} {bytes rest : Bytes}
    (hlow : 0x80 ≤ low) (hhigh : high ≤ 0xBF)
    (h : readTail value low high further bytes = (some result, rest)) :
    (value * 64 + (low - 0x80)) * 64 ^ further ≤ result
      ∧ result < (value * 64 + (high - 0x80) + 1) * 64 ^ further := by
  induction further generalizing value low high bytes with
  | zero =>
    cases bytes with
    | nil => cases h
    | cons byte bytes =>
      rw [readTail] at h
      split at h
      · rename_i hrange
        simp only [Prod.mk.injEq, Option.some.injEq] at h
        obtain ⟨rfl, -⟩ := h
        simp only [Nat.pow_zero, Nat.mul_one]
        omega
      · cases h
  | succ further ih =>
    cases bytes with
    | nil => cases h
    | cons byte bytes =>
      rw [readTail] at h
      split at h
      · rename_i hrange
        obtain ⟨hleast, hmost⟩ := ih (Nat.le_refl _) (Nat.le_refl _) h
        have hunits : ∀ units : Nat, units * 64 ^ (further + 1) = units * 64 * 64 ^ further :=
          fun units => by rw [Nat.pow_succ', Nat.mul_assoc]
        -- The first byte narrows the range; those behind it take all values.
        rw [hunits, hunits]
        exact ⟨Nat.le_trans (Nat.mul_le_mul_right _ (by omega)) hleast,
          Nat.lt_of_lt_of_le hmost (Nat.mul_le_mul_right _ (by omega))⟩
      · cases h

/-- A tail only ever takes bytes away. -/
theorem readTail_suffix (value low high further : Nat) (bytes : Bytes) :
    (readTail value low high further bytes).2 <:+ bytes := by
  induction further generalizing value low high bytes with
  | zero =>
    cases bytes with
    | nil => exact List.suffix_rfl
    | cons byte bytes =>
      rw [readTail]
      split
      · exact List.suffix_cons _ _
      · exact List.suffix_rfl
  | succ further ih =>
    cases bytes with
    | nil => exact List.suffix_rfl
    | cons byte bytes =>
      rw [readTail]
      split
      · exact (ih _ _ _ _).trans (List.suffix_cons _ _)
      · exact List.suffix_rfl

/-- A lead byte and a whole tail spell a character that takes more than one byte. -/
theorem Lead.isValidChar {byte : UInt8} {lead : Lead} (hlead : Lead.ofByte? byte = some lead)
    {value : Nat} {bytes rest : Bytes}
    (h : readTail lead.bits lead.low lead.high lead.further bytes = (some value, rest)) :
    0x80 ≤ value ∧ value.isValidChar := by
  rw [Nat.isValidChar]
  simp only [Lead.ofByte?] at hlead
  split_ifs at hlead
  all_goals
    obtain rfl := Option.some.inj hlead
    simp only at h
    have hbounds := readTail_bounds (by decide) (by decide) h
    omega

/-! ### Characters -/

theorem toNat_ofNat_of_isValidChar {value : Nat} (h : value.isValidChar) :
    (Char.ofNat value).toNat = value := by
  rw [Char.ofNat, dif_pos h]
  rfl

/-- Only NUL starts NUL. -/
theorem decodeChar_ne_nul {byte : UInt8} (h : byte ≠ 0) (bytes : Bytes) :
    (decodeChar byte bytes).1.toNat ≠ 0 := by
  have hbyte : byte.toNat ≠ 0 := fun hzero => h (UInt8.toNat_inj.1 hzero)
  have hreplacement : replacement.toNat ≠ 0 := by decide
  rw [decodeChar]
  split
  · rename_i hone
    rwa [toNat_ofNat_of_isValidChar (.inl (by omega))]
  · split
    · exact hreplacement
    · rename_i lead hlead
      split
      · rename_i value rest hvalue
        obtain ⟨hmore, hvalid⟩ := Lead.isValidChar hlead hvalue
        rw [toNat_ofNat_of_isValidChar hvalid]
        omega
      · exact hreplacement

theorem decodeChar_suffix (byte : UInt8) (bytes : Bytes) :
    (decodeChar byte bytes).2 <:+ bytes := by
  rw [decodeChar]
  split
  · exact List.suffix_rfl
  · split
    · exact List.suffix_rfl
    · rename_i lead _
      have hsuffix := readTail_suffix lead.bits lead.low lead.high lead.further bytes
      split <;> rename_i hread <;> rwa [hread] at hsuffix

theorem toNat_ne_zero_of_mem_decodeChars {bytes : Bytes} (h : 0 ∉ bytes) :
    ∀ character ∈ decodeChars bytes, character.toNat ≠ 0 := by
  induction bytes using decodeChars.induct with
  | case1 => simp [decodeChars]
  | case2 byte bytes ih =>
    obtain ⟨hbyte, hbytes⟩ := not_or.1 (mt List.mem_cons.2 h)
    rw [decodeChars, List.forall_mem_cons]
    exact ⟨decodeChar_ne_nul (Ne.symm hbyte) bytes,
      ih fun hmem => hbytes ((decodeChar_suffix byte bytes).subset hmem)⟩

/-- Only NUL is encoded with a zero byte. -/
theorem zero_notMem_utf8EncodeChar {character : Char} (h : character.toNat ≠ 0) :
    0 ∉ String.utf8EncodeChar character := by
  have hvalid : character.toNat < 0x110000 := by
    rcases character.valid with hlow | ⟨-, hhigh⟩
    · exact Nat.lt_trans hlow (by decide)
    · exact hhigh
  simp only [String.utf8EncodeChar, show character.val.toNat = character.toNat from rfl]
  split_ifs
  all_goals
    simp only [List.mem_cons, List.not_mem_nil, or_false, not_or, ← UInt8.toNat_inj,
      Read.toNat_ofNat_byte, UInt8.toNat_zero]
    omega

/-- Bytes without a NUL are decoded to a text without one. -/
theorem zero_notMem_encode_decodeLossy {bytes : Bytes} (h : 0 ∉ bytes) :
    0 ∉ encode (decodeLossy bytes) := by
  rw [encode, decodeLossy, String.toList_ofList, List.mem_flatMap]
  rintro ⟨character, hmem, hzero⟩
  exact zero_notMem_utf8EncodeChar (toNat_ne_zero_of_mem_decodeChars h character hmem) hzero

end Utf8

namespace Terminated

theorem readBytes_eq_ok {left : Nat} :
    ∀ {reader after : Reader} {bytes : Bytes}, readBytes left reader = .ok (bytes, after) →
      0 ∉ bytes := by
  induction left with
  | zero =>
    intro reader after bytes h
    simp only [readBytes, Read.pure_eq_ok, Prod.mk.injEq] at h
    exact h.1 ▸ List.not_mem_nil
  | succ left ih =>
    intro reader after bytes h
    rw [readBytes, Read.bind_eq_ok] at h
    obtain ⟨byte, _, -, h⟩ := h
    split at h
    · simp only [Read.pure_eq_ok, Prod.mk.injEq] at h
      exact h.1 ▸ List.not_mem_nil
    · rename_i hbyte
      simp only [Read.bind_eq_ok, Read.pure_eq_ok, Prod.mk.injEq] at h
      obtain ⟨others, _, hothers, rfl, -⟩ := h
      exact fun hmem => (List.mem_cons.1 hmem).elim (fun heq => hbyte heq.symm) (ih hothers)

/-- A text that was read holds no NUL. -/
theorem read_eq_ok {reader after : Reader} {text : String}
    (h : read reader = .ok (text, after)) : 0 ∉ Utf8.encode text := by
  simp only [read, Read.bind_eq_ok, Read.pure_eq_ok, Prod.mk.injEq] at h
  obtain ⟨bytes, _, hbytes, rfl, -⟩ := h
  exact Utf8.zero_notMem_encode_decodeLossy fun hmem =>
    readBytes_eq_ok hbytes (List.mem_of_mem_take hmem)

/-- A text without a NUL can be written just if it leaves room for one. -/
theorem exists_encode_iff {text : String} (h : 0 ∉ Utf8.encode text) :
    (∃ bytes, encode text = .ok bytes) ↔ (Utf8.encode text).length < maxSize := by
  have hfits : fits text = true ↔ (Utf8.encode text).length < maxSize := by
    simp [fits, h]
  rw [← hfits]
  simp only [encode, outcome_bind_eq_ok, outcome_ensure_eq_ok, outcome_pure_eq_ok]
  constructor
  · rintro ⟨_, _, hfit, -⟩
    exact hfit
  · intro hfit
    exact ⟨_, (), hfit, rfl⟩

end Terminated

end Iamf.Text
