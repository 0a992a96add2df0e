import Iamf.Proofs.Wire.Consumes
import Iamf.Text.Terminated

/-!
# `Iamf.Proofs.Text.Terminated`: texts that fit come back

Decoding accepts every byte string, so what has to be shown is that it repairs
nothing where nothing is damaged: the lead byte of an encoded character
announces the tail that the character has, and the narrowed ranges of the first
tail byte leave all characters in. A text without a NUL that takes fewer than
128 bytes is then read back whole.

* `Utf8.decodeChar_encode`: one character comes back, whatever is behind it.
* `Terminated.consumes_encode`: a text that could be encoded comes back.
-/

set_option autoImplicit false

namespace Iamf.Text

open Read (Consumes Takes)

namespace Utf8

/-! ### Lead bytes -/

theorem Lead.ofByte?_of_two {byte : UInt8} (hlow : 0xC2 ≤ byte.toNat)
    (hhigh : byte.toNat ≤ 0xDF) :
    ofByte? byte = some ⟨byte.toNat - 0xC0, 0x80, 0xBF, 0⟩ :=
  if_pos ⟨hlow, hhigh⟩

theorem Lead.ofByte?_of_three {byte : UInt8} (hlow : 0xE0 ≤ byte.toNat)
    (hhigh : byte.toNat ≤ 0xEF) :
    ofByte? byte = some ⟨byte.toNat - 0xE0, if byte.toNat = 0xE0 then 0xA0 else 0x80,
      if byte.toNat = 0xED then 0x9F else 0xBF, 1⟩ := by
  simp only [ofByte?]
  split_ifs <;> first | omega | simp [*]

theorem Lead.ofByte?_of_four {byte : UInt8} (hlow : 0xF0 ≤ byte.toNat)
    (hhigh : byte.toNat ≤ 0xF4) :
    ofByte? byte = some ⟨byte.toNat - 0xF0, if byte.toNat = 0xF0 then 0x90 else 0x80,
      if byte.toNat = 0xF4 then 0x8F else 0xBF, 2⟩ := by
  simp only [ofByte?]
  split_ifs <;> first | omega | simp [*]

/-! ### Tails -/

theorem readTail_last {value low high : Nat} {byte : UInt8} (rest : Bytes)
    (h : low ≤ byte.toNat ∧ byte.toNat ≤ high) :
    readTail value low high 0 (byte :: rest)
      = (some (value * 64 + (byte.toNat - 0x80)), rest) := by
  rw [readTail, if_pos h]

theorem readTail_more {value low high further : Nat} {byte : UInt8} (rest : Bytes)
    (h : low ≤ byte.toNat ∧ byte.toNat ≤ high) :
    readTail value low high (further + 1) (byte :: rest)
      = readTail (value * 64 + (byte.toNat - 0x80)) 0x80 0xBF further rest := by
  rw [readTail, if_pos h]

/-- A character that its lead byte and tail spell. -/
theorem decodeChar_of_lead {first : UInt8} {bits low high further : Nat} {tail rest : Bytes}
    {character : Char} (hfirst : 0x80 ≤ first.toNat)
    (hlead : Lead.ofByte? first = some ⟨bits, low, high, further⟩)
    (htail : readTail bits low high further tail = (some character.toNat, rest)) :
    decodeChar first tail = (character, rest) := by
  rw [decodeChar, if_neg (by omega), hlead]
  simp only [htail, Char.ofNat_toNat]

/-! ### Characters -/

/-- A character is decoded from its own bytes, whatever is behind them. -/
theorem decodeChar_encode (character : Char) :
    ∃ first tail, String.utf8EncodeChar character = first :: tail
      ∧ ∀ rest, decodeChar first (tail ++ rest) = (character, rest) := by
  -- Surrogates are no characters; their range is what the tail behind 0xED leaves out.
  have hvalid : character.toNat < 0xD800
      ∨ 0xDFFF < character.toNat ∧ character.toNat < 0x110000 := character.valid
  simp only [String.utf8EncodeChar, show character.val.toNat = character.toNat from rfl]
  generalize hvalue : character.toNat = value at hvalid
  split
  -- One byte, below 0x80.
  · refine ⟨_, _, rfl, fun rest => ?_⟩
    rw [decodeChar, Read.toNat_ofNat_byte, if_pos (by omega), Nat.mod_eq_of_lt (by omega),
      ← hvalue, Char.ofNat_toNat]
    rfl
  split
  -- Two bytes: no lead byte below 0xC2 is ever written.
  · refine ⟨_, _, rfl, fun rest => decodeChar_of_lead ?_ (Lead.ofByte?_of_two ?_ ?_) ?_⟩
    all_goals rw [Read.toNat_ofNat_byte]
    · omega
    · omega
    · omega
    · rw [List.singleton_append, readTail_last _ (by rw [Read.toNat_ofNat_byte]; omega),
        Read.toNat_ofNat_byte, hvalue]
      exact Prod.ext (congrArg some (by omega)) rfl
  split
  -- Three bytes: behind 0xE0 and 0xED the second byte has a range of its own.
  · refine ⟨_, _, rfl, fun rest => decodeChar_of_lead ?_ (Lead.ofByte?_of_three ?_ ?_) ?_⟩
    all_goals rw [Read.toNat_ofNat_byte]
    · omega
    · omega
    · omega
    · rw [List.cons_append, List.singleton_append,
        readTail_more _ (by rw [Read.toNat_ofNat_byte]; split_ifs <;> omega),
        readTail_last _ (by rw [Read.toNat_ofNat_byte]; omega), Read.toNat_ofNat_byte,
        Read.toNat_ofNat_byte, hvalue]
      exact Prod.ext (congrArg some (by omega)) rfl
  -- Four bytes: 0xF0 and 0xF4 restrict the second byte too.
  · refine ⟨_, _, rfl, fun rest => decodeChar_of_lead ?_ (Lead.ofByte?_of_four ?_ ?_) ?_⟩
    all_goals rw [Read.toNat_ofNat_byte]
    · omega
    · omega
    · omega
    · rw [List.cons_append, List.cons_append, List.singleton_append,
        readTail_more _ (by rw [Read.toNat_ofNat_byte]; split_ifs <;> omega),
        readTail_more _ (by rw [Read.toNat_ofNat_byte]; omega),
        readTail_last _ (by rw [Read.toNat_ofNat_byte]; omega), Read.toNat_ofNat_byte,
        Read.toNat_ofNat_byte, Read.toNat_ofNat_byte, hvalue]
      exact Prod.ext (congrArg some (by omega)) rfl

theorem decodeChars_flatMap (characters : List Char) :
    decodeChars (characters.flatMap String.utf8EncodeChar) = characters := by
  induction characters with
  | nil => rw [List.flatMap_nil, decodeChars]
  | cons character characters ih =>
    obtain ⟨first, tail, hencode, hdecode⟩ := decodeChar_encode character
    rw [List.flatMap_cons, hencode, List.cons_append, decodeChars, hdecode, ih]

/-- Nothing of a text is repaired. -/
theorem decodeLossy_encode (text : String) : decodeLossy (encode text) = text := by
  rw [decodeLossy, encode, decodeChars_flatMap, String.ofList_toList]

end Utf8

namespace Terminated

/-- Bytes without a NUL are read up to the NUL behind them. -/
theorem consumes_readBytes {bytes : Bytes} :
    ∀ {left : Nat}, bytes.length < left → 0 ∉ bytes →
      Consumes (readBytes left) (bytes ++ [0]) bytes := by
  induction bytes with
  | nil =>
    intro left hleft _
    obtain ⟨left, rfl⟩ : ∃ less, left = less + 1 := ⟨left - 1, by simp at hleft; omega⟩
    refine (Consumes.byte 0).bind_nil ?_
    rw [if_pos rfl]
    exact Takes.pure _
  | cons byte bytes ih =>
    intro left hleft hzero
    obtain ⟨left, rfl⟩ : ∃ less, left = less + 1 := ⟨left - 1, by simp at hleft; omega⟩
    obtain ⟨hbyte, hbytes⟩ := not_or.1 (mt List.mem_cons.2 hzero)
    rw [List.length_cons] at hleft
    have hothers : Consumes (readBytes left) (bytes ++ [0]) bytes := ih (by omega) hbytes
    refine (Consumes.byte byte).bind ?_
    rw [if_neg (Ne.symm hbyte)]
    exact hothers.bind_pure fun bytes => byte :: bytes

/-- A text that could be encoded comes back from its bytes. -/
theorem consumes_encode {text : String} {bytes : Bytes} (h : encode text = .ok bytes) :
    Consumes read bytes text := by
  rw [encode, outcome_bind_eq_ok] at h
  obtain ⟨_, hfits, h⟩ := h
  rw [outcome_ensure_eq_ok, fits, Bool.and_eq_true, decide_eq_true_iff, Bool.not_eq_true',
    ← Bool.not_eq_true, List.contains_iff_mem] at hfits
  rw [outcome_pure_eq_ok] at h
  subst h
  obtain ⟨hlength, hzero⟩ := hfits
  have hread := (consumes_readBytes hlength hzero).bind_pure fun bytes =>
    Utf8.decodeLossy (bytes.take (maxSize - 1))
  rwa [List.take_of_length_le (Nat.le_sub_one_of_lt hlength), Utf8.decodeLossy_encode] at hread

/-- The bytes of a text end with a NUL, if nothing else. -/
theorem one_le_length {text : String} {bytes : Bytes} (h : encode text = .ok bytes) :
    1 ≤ bytes.length := by
  rw [encode, outcome_bind_eq_ok] at h
  obtain ⟨_, -, h⟩ := h
  rw [outcome_pure_eq_ok] at h
  subst h
  rw [List.length_append]
  exact Nat.le_add_left 1 _

end Terminated

end Iamf.Text
