import Iamf.Bits.Basic
import Iamf.Error

/-!
# `Iamf.Bits.Reader`: reading bytes bit by bit

A `Reader` is what is left to read of a byte string: the bits left of the byte
that was begun, and the bytes not yet begun. It also carries the name of the
structure that is being read, which is what a read past the end reports.

`Read α` is a reading program. Whole byte values may start at any bit;
`bytes`, `remaining` and `skipBytes` first drop the rest of a byte that was
begun.

* `Read.times_succ`: reading `n + 1` items is reading one, then `n` more.
* `Read.byte_cons`, `Read.bytes_append`: at a byte boundary, reads take bytes
  off the front.
-/

set_option autoImplicit false

namespace Iamf

/-- What is left to read. -/
structure Reader where
  /-- The structure being read, for the report of an early end. -/
  subject : String
  /-- The bits left of the byte that was begun. -/
  pending : List Bool
  /-- The bytes not begun yet. -/
  rest : Bytes
  deriving DecidableEq, Repr

namespace Reader

/-- A reader at the start of a byte string. -/
def ofBytes (subject : String) (bytes : Bytes) : Reader :=
  ⟨subject, [], bytes⟩

/-- The bytes that have not been begun. -/
def bytesLeft (reader : Reader) : Nat :=
  reader.rest.length

/-- The bits not yet read, in order. -/
def unread (reader : Reader) : List Bool :=
  reader.pending ++ Bits.ofBytes reader.rest

end Reader

/-- A program that reads, and fails with an `Error`. -/
abbrev Read := StateT Reader (Except Error)

namespace Read

/-- Fails because the input ends too early. -/
def truncated {α : Type} : Read α :=
  fun reader => .error (.truncated reader.subject)

/-- The next bit. -/
def bit : Read Bool := fun reader =>
  match reader.pending, reader.rest with
  | first :: pending, _ => .ok (first, { reader with pending })
  | [], byte :: rest =>
    .ok (byte.toNat.testBit 7, { reader with pending := Bits.ofNat 7 byte.toNat, rest })
  | [], [] => truncated reader

/-- Reads `count` items one after the other. -/
def times {α : Type} (count : Nat) (item : Read α) : Read (List α) :=
  go count []
where
  /-- Reads `count` more items behind those read so far, last one first. -/
  go : Nat → List α → Read (List α)
    | 0, items => fun reader => .ok (items.reverse, reader)
    | count + 1, items => fun reader =>
      match item reader with
      | .ok (next, reader) => go count (next :: items) reader
      | .error error => .error error

/-- Runs `step` on a state `count` times. -/
def iterate {σ : Type} (step : σ → Read σ) : Nat → σ → Read σ
  | 0, state => fun reader => .ok (state, reader)
  | count + 1, state => fun reader =>
    match step state reader with
    | .ok (state, reader) => iterate step count state reader
    | .error error => .error error

/-- Reads `count` items, each of which may change a state that the next one sees. -/
def timesWith {σ α : Type} (count : Nat) (state : σ) (item : σ → Read (α × σ)) :
    Read (List α × σ) := do
  let (items, state) ← iterate
    (fun (items, state) => do
      let (next, state) ← item state
      return (next :: items, state))
    count (([] : List α), state)
  return (items.reverse, state)

/-- The number that the next `count` bits spell. -/
def bits (count : Nat) : Read Nat := do
  return Bits.toNat (← times count bit)

/-- Passes over `count` bits. -/
def skipBits (count : Nat) : Read Unit := do
  let _ ← times count bit

/-- The next eight bits as a byte. -/
def byte : Read UInt8 := fun reader =>
  match reader.pending, reader.rest with
  | [], first :: rest => .ok (first, { reader with rest })
  | _, _ => (UInt8.ofNat <$> bits 8) reader

/-- A big endian 16 bit word. -/
def uint16 : Read UInt16 := do
  let high ← byte
  let low ← byte
  return UInt16.ofNat (high.toNat * 256 + low.toNat)

/-- A big endian two's complement 16 bit word. -/
def int16 : Read Int16 :=
  UInt16.toInt16 <$> uint16

/-- A big endian 24 bit word. -/
def uint24 : Read UInt32 := do
  let high ← byte
  let low ← uint16
  return UInt32.ofNat (high.toNat * 65536 + low.toNat)

/-- A big endian 32 bit word. -/
def uint32 : Read UInt32 := do
  let high ← uint16
  let low ← uint16
  return UInt32.ofNat (high.toNat * 65536 + low.toNat)

/-- Drops the bits left of a byte that was begun. -/
def align : Read Unit :=
  modify fun reader => { reader with pending := [] }

/-- The next `count` whole bytes. -/
def bytes (count : Nat) : Read Bytes := do
  align
  let reader ← get
  match Bytes.split? count reader.rest with
  | some (front, rest) =>
    set { reader with rest }
    return front
  | none => truncated

/-- Passes over `count` whole bytes. -/
def skipBytes (count : Nat) : Read Unit := do
  let _ ← bytes count

/-- All bytes up to the end. -/
def remaining : Read Bytes := do
  align
  let reader ← get
  set { reader with rest := [] }
  return reader.rest

/-- How many whole bytes are left. -/
def bytesLeft : Read Nat := do
  return (← get).bytesLeft

/-- The end of an OBU body of the given kind. In strict reading bytes that are
left over are an error, otherwise they are ignored. -/
def finish (kind : Obu.Kind) (strict : Bool) : Read Unit := do
  let remaining ← bytesLeft
  ensure (remaining = 0 ∨ strict = false) (.underread kind remaining)

/-- The result of a reading program on a whole byte string. -/
def parse {α : Type} (program : Read α) (subject : String) (bytes : Bytes) : Except Error α :=
  match program (Reader.ofBytes subject bytes) with
  | .ok (value, _) => .ok value
  | .error error => .error error

/-! ### When a program succeeds -/

theorem pure_eq_ok {α : Type} {value : α} {reader : Reader} {result : α × Reader} :
    (pure value : Read α) reader = .ok result ↔ result = (value, reader) := by
  constructor
  · rintro ⟨⟩
    rfl
  · rintro rfl
    rfl

theorem throw_eq_ok {α : Type} {error : Error} {reader : Reader} {result : α × Reader} :
    (throw error : Read α) reader = .ok result ↔ False := by
  simp [throw, throwThe, MonadExceptOf.throw, StateT.lift, bind, Except.bind]

theorem bind_eq_ok {α β : Type} {first : Read α} {next : α → Read β} {reader : Reader}
    {result : β × Reader} :
    (first >>= next) reader = .ok result
      ↔ ∃ value middle, first reader = .ok (value, middle) ∧ next value middle = .ok result := by
  simp only [bind, StateT.bind, Except.bind]
  cases first reader with
  | error error => simp
  | ok pair =>
    constructor
    · exact fun h => ⟨_, _, rfl, h⟩
    · rintro ⟨_, _, ⟨⟩, h⟩
      exact h

theorem map_eq_ok {α β : Type} {f : α → β} {program : Read α} {reader : Reader}
    {result : β × Reader} :
    (f <$> program) reader = .ok result
      ↔ ∃ value after, program reader = .ok (value, after) ∧ result = (f value, after) := by
  simp only [Functor.map, StateT.map, bind, Except.bind, pure, Except.pure]
  cases program reader with
  | error error => simp
  | ok pair =>
    constructor
    · rintro ⟨⟩
      exact ⟨_, _, rfl, rfl⟩
    · rintro ⟨_, _, ⟨⟩, rfl⟩
      rfl

theorem ensure_eq_ok {condition : Prop} [Decidable condition] {error : Error}
    {reader : Reader} {result : Unit × Reader} :
    (ensure condition error : Read Unit) reader = .ok result
      ↔ condition ∧ result = ((), reader) := by
  simp only [ensure]
  split <;> simp_all [pure_eq_ok, throw_eq_ok]

/-- A program succeeds on a byte string when it does from its start. -/
theorem parse_eq_ok {α : Type} {program : Read α} {subject : String} {bytes : Bytes}
    {value : α} :
    program.parse subject bytes = .ok value
      ↔ ∃ after, program (Reader.ofBytes subject bytes) = .ok (value, after) := by
  simp only [parse]
  cases program (Reader.ofBytes subject bytes) with
  | error error => simp
  | ok result => simp [Prod.ext_iff]

/-! ### Reading at a byte boundary -/

theorem byte_cons (subject : String) (first : UInt8) (rest : Bytes) :
    byte ⟨subject, [], first :: rest⟩ = .ok (first, ⟨subject, [], rest⟩) := rfl

theorem byte_nil (subject : String) :
    byte ⟨subject, [], []⟩ = .error (.truncated subject) := rfl

theorem bytes_append {count : Nat} (subject : String) {front : Bytes} (rest : Bytes)
    (h : front.length = count) :
    bytes count ⟨subject, [], front ++ rest⟩ = .ok (front, ⟨subject, [], rest⟩) := by
  have halign : align ⟨subject, [], front ++ rest⟩ = .ok ((), ⟨subject, [], front ++ rest⟩) := rfl
  refine bind_eq_ok.2 ⟨(), _, halign, bind_eq_ok.2 ⟨_, _, rfl, ?_⟩⟩
  simp only [Bytes.split?_append rest h]
  rfl

/-! ### Repeated reads -/

theorem times_zero {α : Type} (item : Read α) (reader : Reader) :
    times 0 item reader = .ok ([], reader) := rfl

private theorem times_go_eq {α : Type} (item : Read α) (count : Nat) (items : List α)
    (reader : Reader) :
    times.go item count items reader
      = (times count item reader).map fun (next, reader) => (items.reverse ++ next, reader) := by
  induction count generalizing items reader with
  | zero => simp [times, times.go, Except.map]
  | succ count ih =>
    simp only [times, times.go]
    cases item reader with
    | error error => rfl
    | ok result =>
      simp only [ih (result.1 :: items), ih [result.1]]
      cases times count item result.2 <;> simp [Except.map]

/-- Reading `count + 1` items is reading one, then the others. -/
theorem times_succ {α : Type} (count : Nat) (item : Read α) (reader : Reader) :
    times (count + 1) item reader
      = match item reader with
        | .ok (next, reader) =>
          (times count item reader).map fun (items, reader) => (next :: items, reader)
        | .error error => .error error := by
  simp only [show times (count + 1) item = times.go item (count + 1) [] from rfl, times.go]
  cases item reader with
  | error error => rfl
  | ok result => exact times_go_eq item count [result.1] result.2

end Read

end Iamf
