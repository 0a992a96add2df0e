import Iamf.Proofs.Bits.Reading
import Iamf.Proofs.Element.Readable
import Iamf.Proofs.Mix.Readable
import Iamf.Proofs.Parameter.Block

/-!
# `Iamf.Proofs.Wire.Spending`: how much a reader takes at least

A list is preceded by its length, and every item takes at least one byte. `Read.Spends`
says of a program that it takes so many bytes or more, wherever it starts, and that it
stops inside of a byte or between two (`Reader.Within`), so that whole bytes can still be
counted. A sequence spends what its parts do, and a loop spends its rounds. What spends
so much demands it (`Read.Demands`): it fails where less is left, whatever comes behind.

* `Spends.seq`, `Spends.bind`, `Spends.behind`, `Spends.times`: sequences and loops.
* `Spends.counted`, `Spends.countedWith`: a list takes as many bytes as it has items.
* `Leb128.spends_read`, `Text.Terminated.spends_read`, …: what starts an item.
* `Parameter.spends_readBlockSubblock`: only recon gain that no layer carries is free.
-/

set_option autoImplicit false

namespace Iamf

/-- What is left of a byte that was begun is not a whole one. -/
def Reader.Within (reader : Reader) : Prop :=
  reader.pending.length < 8

/-- Fewer bytes than items leave fewer bits than the items take. -/
theorem Reader.Within.unread_lt {reader : Reader} (h : reader.Within) {count : Nat}
    (hcount : reader.bytesLeft < count) : reader.unread.length < 8 * count := by
  rw [bytesLeft] at hcount
  rw [Within] at h
  rw [unread, List.length_append, Bits.length_ofBytes]
  omega

theorem Reader.within_ofBytes (subject : String) (bytes : Bytes) :
    (Reader.ofBytes subject bytes).Within := by
  rw [Within, ofBytes, List.length_nil]
  omega

/-- What is left to read is known by its bits, as long as no whole byte of them is taken
for part of the one that was begun. -/
theorem Reader.eq_of_unread {first second : Reader} (hfirst : first.Within)
    (hsecond : second.Within) (hsubject : first.subject = second.subject)
    (hunread : first.unread = second.unread) : first = second := by
  obtain ⟨subject, pending, rest⟩ := first
  obtain ⟨name, others, bytes⟩ := second
  obtain rfl : subject = name := hsubject
  have hpending : pending.length = others.length := by
    have hlength := congrArg List.length hunread
    simp only [Reader.Within, Reader.unread, List.length_append, Bits.length_ofBytes]
      at hfirst hsecond hlength
    omega
  obtain ⟨rfl, hbytes⟩ := List.append_inj hunread hpending
  rw [← Bits.toBytes_ofBytes rest, hbytes, Bits.toBytes_ofBytes]

namespace Read

variable {α β σ : Type} {count : Nat}

/-- The program takes at least `count` bytes, and does not stop outside of a byte. -/
structure Spends (count : Nat) (program : Read α) : Prop where
  within : ∀ ⦃reader after : Reader⦄ ⦃value : α⦄, reader.Within →
    program reader = .ok (value, after) → after.Within
  length_le : ∀ ⦃reader after : Reader⦄ ⦃value : α⦄,
    program reader = .ok (value, after) → after.unread.length + 8 * count ≤ reader.unread.length

/-- What takes something takes nothing less. -/
theorem Spends.free {program : Read α} (h : Spends count program) : Spends 0 program where
  within := h.within
  length_le := fun _ _ _ hread => by
    have hle := h.length_le hread
    omega

theorem spends_pure (value : α) : Spends 0 (pure value) := by
  constructor
  · rintro reader _ _ h ⟨⟩
    exact h
  · rintro reader _ _ ⟨⟩
    omega

theorem spends_throw (error : Error) : Spends count (throw error : Read α) := by
  constructor
  · rintro reader _ _ - ⟨⟩
  · rintro reader _ _ ⟨⟩

theorem spends_ensure {condition : Prop} [Decidable condition] {error : Error} :
    Spends 0 (ensure condition error : Read Unit) := by
  rw [ensure]
  split
  · exact spends_pure ()
  · exact spends_throw error

/-- Two programs in a row take what both take. -/
theorem Spends.seq {first : Read α} {next : α → Read β} {more : Nat} (hfirst : Spends count first)
    (hnext : ∀ value, Spends more (next value)) : Spends (count + more) (first >>= next) := by
  constructor
  · intro reader after value hreader hread
    obtain ⟨found, middle, hmiddle, hlast⟩ := bind_eq_ok.1 hread
    exact (hnext found).within (hfirst.within hreader hmiddle) hlast
  · intro reader after value hread
    obtain ⟨found, middle, hmiddle, hlast⟩ := bind_eq_ok.1 hread
    have hle := hfirst.length_le hmiddle
    have hmore := (hnext found).length_le hlast
    omega

theorem Spends.bind {first : Read α} {next : α → Read β} (hfirst : Spends count first)
    (hnext : ∀ value, Spends 0 (next value)) : Spends count (first >>= next) :=
  hfirst.seq hnext

/-- A program that takes something, behind another one. -/
theorem Spends.behind {first : Read α} {next : α → Read β} (hfirst : Spends 0 first)
    (hnext : ∀ value, Spends count (next value)) : Spends count (first >>= next) := by
  rw [← Nat.zero_add count]
  exact hfirst.seq hnext

theorem Spends.map {program : Read α} (f : α → β) (h : Spends count program) :
    Spends count (f <$> program) := by
  show Spends count (program >>= fun value => pure (f value))
  exact h.bind fun _ => spends_pure _

/-! ### What a program demands -/

/-- Where less than `count` bytes are left, the program fails. -/
def Demands (count : Nat) (program : Read α) : Prop :=
  ∀ ⦃reader : Reader⦄, reader.unread.length < 8 * count → ∃ error, program reader = .error error

theorem Spends.demands {program : Read α} (h : Spends count program) : Demands count program := by
  intro reader hshort
  cases hread : program reader with
  | error error => exact ⟨error, rfl⟩
  | ok result =>
    have hle := h.length_le hread
    omega

/-- Whatever comes next. -/
theorem Demands.bind {first : Read α} (h : Demands count first) (next : α → Read β) :
    Demands count (first >>= next) := by
  intro reader hshort
  obtain ⟨error, herror⟩ := h hshort
  refine ⟨error, ?_⟩
  simp only [Bind.bind, StateT.bind, Except.bind, herror]

theorem Demands.behind {first : Read α} {next : α → Read β} (hfirst : Spends 0 first)
    (hnext : ∀ value, Demands count (next value)) : Demands count (first >>= next) := by
  intro reader hshort
  simp only [Bind.bind, StateT.bind, Except.bind]
  cases hread : first reader with
  | error error => exact ⟨error, rfl⟩
  | ok result =>
    have hle := hfirst.length_le hread
    exact hnext result.1 (by omega)

/-! ### Loops -/

/-- Rounds take what one of them takes, as often as there are rounds. -/
theorem Spends.times {item : Read α} {each : Nat} (h : Spends each item) (count : Nat) :
    Spends (count * each) (times count item) := by
  induction count with
  | zero =>
    rw [Nat.zero_mul]
    exact spends_pure []
  | succ count ih =>
    constructor
    · intro reader after values hreader hread
      obtain ⟨first, middle, others, hfirst, hothers, rfl⟩ := times_succ_eq_ok.1 hread
      exact ih.within (h.within hreader hfirst) hothers
    · intro reader after values hread
      obtain ⟨first, middle, others, hfirst, hothers, rfl⟩ := times_succ_eq_ok.1 hread
      have hle := h.length_le hfirst
      have hmore := ih.length_le hothers
      rw [Nat.add_mul, Nat.one_mul]
      omega

theorem Spends.iterate {step : σ → Read σ} {each : Nat} (h : ∀ state, Spends each (step state))
    (count : Nat) (state : σ) : Spends (count * each) (iterate step count state) := by
  induction count generalizing state with
  | zero =>
    rw [Nat.zero_mul]
    exact spends_pure state
  | succ count ih =>
    rw [iterate_succ, Nat.add_mul, Nat.one_mul, Nat.add_comm]
    exact (h state).seq ih

theorem Spends.timesWith {item : σ → Read (α × σ)} {each : Nat}
    (h : ∀ state, Spends each (item state)) (count : Nat) (state : σ) :
    Spends (count * each) (timesWith count state item) :=
  (iterate (fun _ => (h _).bind fun _ => spends_pure _) count _).bind fun _ => spends_pure _

/-- As many bytes as items, if each takes one. -/
theorem Spends.counted {item : Read α} (h : Spends 1 item) (count : Nat) :
    Spends count (Read.times count item) := by
  have htimes := h.times count
  rwa [Nat.mul_one] at htimes

theorem Spends.countedWith {item : σ → Read (α × σ)} (h : ∀ state, Spends 1 (item state))
    (count : Nat) (state : σ) : Spends count (Read.timesWith count state item) := by
  have htimes := Spends.timesWith h count state
  rwa [Nat.mul_one] at htimes

/-! ### Bytes -/

/-- A program that starts with a look at the reader. -/
theorem Spends.get_bind {next : Reader → Read α} (h : ∀ reader, Spends count (next reader)) :
    Spends count (get >>= next) where
  within := fun reader _ _ hreader hread => (h reader).within hreader hread
  length_le := fun reader _ _ hread => (h reader).length_le hread

theorem spends_bytesLeft : Spends 0 bytesLeft :=
  .get_bind fun _ => spends_pure _

/-- A bit comes off the byte that was begun, or begins one. -/
theorem within_of_bit :
    ∀ ⦃reader after : Reader⦄ ⦃value : Bool⦄, reader.Within →
      bit reader = .ok (value, after) → after.Within := by
  rintro ⟨subject, pending, rest⟩ after value hreader hread
  cases pending with
  | cons first pending =>
    cases hread
    exact Nat.lt_of_succ_lt hreader
  | nil =>
    cases rest with
    | nil => cases hread
    | cons byte rest =>
      cases hread
      rw [Reader.Within, Bits.length_ofNat]
      omega

theorem within_of_times_bit (count : Nat) :
    ∀ ⦃reader after : Reader⦄ ⦃values : List Bool⦄, reader.Within →
      times count bit reader = .ok (values, after) → after.Within := by
  induction count with
  | zero =>
    rintro reader _ _ hreader ⟨⟩
    exact hreader
  | succ count ih =>
    intro reader after values hreader hread
    obtain ⟨first, middle, others, hfirst, hothers, rfl⟩ := times_succ_eq_ok.1 hread
    exact ih (within_of_bit hreader hfirst) hothers

theorem within_of_bits {reader after : Reader} {value : Nat} (h : reader.Within)
    (hread : bits count reader = .ok (value, after)) : after.Within := by
  obtain ⟨values, _, hvalues, ⟨⟩⟩ := bind_eq_ok.1 hread
  exact within_of_times_bit count h hvalues

theorem within_of_skipBits {reader after : Reader} {value : Unit} (h : reader.Within)
    (hread : skipBits count reader = .ok (value, after)) : after.Within := by
  obtain ⟨values, _, hvalues, ⟨⟩⟩ := bind_eq_ok.1 hread
  exact within_of_times_bit count h hvalues

theorem spends_byte : Spends 1 byte := by
  constructor
  · rintro ⟨subject, pending, rest⟩ after value hreader hread
    rw [byte] at hread
    split at hread
    · cases hread
      exact hreader
    -- Off a byte boundary a byte is read as eight bits.
    · obtain ⟨number, _, hnumber, ⟨⟩⟩ := map_eq_ok.1 hread
      exact within_of_bits hreader hnumber
  · intro reader after value hread
    by_cases hcount : 8 ≤ reader.unread.length
    · obtain ⟨found, hfound, -, hleft⟩ := spells_byte.ok reader hcount
      obtain ⟨-, rfl⟩ := Prod.mk.inj (Except.ok.inj (hread.symm.trans hfound))
      rw [hleft, List.length_drop]
      omega
    · cases (spells_byte.error reader (Nat.lt_of_not_le hcount)).symm.trans hread

theorem spends_uint16 : Spends 2 uint16 :=
  spends_byte.seq fun _ => spends_byte.bind fun _ => spends_pure _

theorem spends_int16 : Spends 2 int16 :=
  spends_uint16.map _

theorem spends_uint24 : Spends 3 uint24 :=
  spends_byte.seq fun _ => spends_uint16.bind fun _ => spends_pure _

theorem spends_uint32 : Spends 4 uint32 :=
  spends_uint16.seq fun _ => spends_uint16.bind fun _ => spends_pure _

/-- The bits that are dropped in front of whole bytes come on top. -/
theorem spends_bytes (count : Nat) : Spends count (bytes count) := by
  constructor
  · intro reader after value _ hread
    rw [Reader.Within, (bytes_eq_ok hread).2.2, List.length_nil]
    omega
  · intro reader after value hread
    obtain ⟨hlength, hrest, hpending⟩ := bytes_eq_ok hread
    rw [Reader.unread, Reader.unread, hpending, hrest, List.length_append, List.length_append,
      Bits.length_ofBytes, Bits.length_ofBytes, List.length_append, List.length_nil]
    omega

theorem spends_skipBytes (count : Nat) : Spends count (skipBytes count) :=
  (spends_bytes count).bind fun _ => spends_pure _

end Read

open Read (Spends spends_pure spends_throw spends_ensure)

theorem ReadMode.spends_checkCount (mode : ReadMode) (count : Nat) (subject : String) :
    Spends 0 (mode.checkCount count subject) :=
  Read.spends_bytesLeft.bind fun _ => spends_ensure

/-! ### Numbers and texts -/

theorem Leb128.spends_readFrom (left index value : Nat) : Spends 1 (readFrom left index value) := by
  -- The first byte is enough; those behind it are by induction on how many there may be.
  induction left generalizing index value with
  | zero => exact spends_throw _
  | succ left ih =>
    refine Read.spends_byte.bind fun byte => spends_ensure.bind fun _ => ?_
    split
    · exact spends_pure _
    · exact (ih _ _).free

theorem Leb128.spends_read : Spends 1 read :=
  (spends_readFrom _ _ _).map _

namespace Text.Terminated

theorem spends_readBytes (left : Nat) : Spends 1 (readBytes (left + 1)) := by
  induction left with
  | zero =>
    refine Read.spends_byte.bind fun byte => ?_
    split
    · exact spends_pure _
    · exact (spends_pure []).bind fun _ => spends_pure _
  | succ left ih =>
    refine Read.spends_byte.bind fun byte => ?_
    split
    · exact spends_pure _
    · exact ih.free.bind fun _ => spends_pure _

/-- An empty text has a NUL. -/
theorem spends_read : Spends 1 read :=
  (spends_readBytes _).bind fun _ => spends_pure _

end Text.Terminated

/-! ### Values of parameters -/

theorem Ratio.spends_read : Spends 2 read :=
  Read.spends_int16.map _

theorem Animation.spends_read : Spends 1 read := by
  -- What the shape takes is enough, whichever numbers follow.
  refine Leb128.spends_read.bind fun shape => spends_ensure.bind fun _ =>
    Ratio.spends_read.free.bind fun start => ?_
  split
  · exact spends_pure _
  · refine Ratio.spends_read.free.bind fun finish => ?_
    split
    · exact spends_pure _
    · exact Ratio.spends_read.free.bind fun _ => Read.spends_byte.free.bind fun _ => spends_pure _

theorem spends_readDemixingMode : Spends 1 readDemixingMode :=
  Read.spends_byte.bind fun _ => spends_pure _

theorem GainRow.spends_readGains (flags : UInt32) (slots : List Nat) :
    Spends 0 (readGains flags slots) := by
  induction slots with
  | nil => exact spends_pure _
  | cons slot slots ih =>
    rw [readGains]
    split
    · exact Read.spends_byte.free.bind fun _ => ih.bind fun _ => spends_pure _
    · exact (spends_pure _).bind fun _ => ih.bind fun _ => spends_pure _

theorem GainRow.spends_read : Spends 1 read :=
  Leb128.spends_read.bind fun _ => (spends_readGains _ _).bind fun _ => spends_pure _

namespace GainTable

theorem free_readRows (carrying layers : List Nat) : Spends 0 (readRows carrying layers) := by
  induction layers with
  | nil => exact spends_pure _
  | cons layer layers ih =>
    rw [readRows]
    split
    · exact GainRow.spends_read.free.bind fun _ => ih.bind fun _ => spends_pure _
    · exact (spends_pure _).bind fun _ => ih.bind fun _ => spends_pure _

/-- A row is read if one of the layers carries recon gain. -/
theorem spends_readRows {carrying layers : List Nat} {layer : Nat} (hcarrying : layer ∈ carrying)
    (hlayer : layer ∈ layers) : Spends 1 (readRows carrying layers) := by
  induction layers with
  | nil => cases hlayer
  | cons first layers ih =>
    rw [readRows]
    split
    · exact GainRow.spends_read.bind fun _ => (free_readRows _ _).bind fun _ => spends_pure _
    · rename_i hfirst
      -- The carrying layer is not the first one.
      have hothers : layer ∈ layers :=
        (List.mem_cons.1 hlayer).resolve_left fun heq => hfirst (heq ▸ hcarrying)
      exact (spends_pure _).behind fun _ => (ih hothers).bind fun _ => spends_pure _

theorem spends_read {carrying : List Nat} (hsub : carrying.Sublist (List.range maxLayers))
    (hcarrying : carrying ≠ []) : Spends 1 (read carrying) := by
  obtain ⟨layer, hlayer⟩ := List.exists_mem_of_ne_nil carrying hcarrying
  exact (spends_readRows hlayer (hsub.subset hlayer)).bind fun _ => spends_pure _

end GainTable

/-- Only recon gain that no layer carries is free. -/
theorem SubblockValue.spends_read {kind : ParameterKind} {carrying : List Nat}
    (hsub : carrying.Sublist (List.range maxLayers))
    (h : kind ≠ .reconGain ∨ carrying ≠ []) : Spends 1 (read kind carrying) := by
  cases kind with
  | mixGain => exact Animation.spends_read.map _
  | demixing => exact spends_readDemixingMode.map _
  | reconGain => exact (GainTable.spends_read hsub (h.resolve_left fun hne => hne rfl)).map _

/-! ### Definitions and blocks of parameters -/

namespace Parameter

theorem spends_readTimeline (mode : ReadMode) (selfTimed : Bool) (site : Site) :
    Spends 0 (readTimeline mode selfTimed site) := by
  cases selfTimed with
  | false => exact spends_pure _
  | true =>
    refine Leb128.spends_read.free.bind fun duration => Leb128.spends_read.free.bind
      fun constantDuration => ?_
    split
    · exact Leb128.spends_read.free.bind fun count => (mode.spends_checkCount _ _).bind fun _ =>
        spends_ensure.bind fun _ => spends_pure _
    · exact spends_ensure.bind fun _ => spends_pure _

theorem spends_readDefinedValue (kind : ParameterKind) (duration : UInt32) :
    Spends 0 (readDefinedValue kind duration) := by
  cases kind with
  | demixing => exact spends_readDemixingMode.free.bind fun _ => spends_pure _
  | mixGain => exact spends_pure _
  | reconGain => exact spends_pure _

/-- A subblock of a definition takes its own duration, if it has one. The value is no
help: only down-mixing has one here. -/
theorem spends_readDefinedSubblock (kind : ParameterKind) :
    Spends 1 (readDefinedSubblock kind 0) := by
  rw [readDefinedSubblock_eq, if_pos rfl]
  exact Leb128.spends_read.bind fun _ => spends_readDefinedValue _ _

theorem free_readDefinedSubblock (kind : ParameterKind) (constantDuration : UInt32) :
    Spends 0 (readDefinedSubblock kind constantDuration) := by
  rw [readDefinedSubblock_eq]
  split
  · exact Leb128.spends_read.free.bind fun _ => spends_readDefinedValue _ _
  · exact spends_readDefinedValue _ _

theorem spends_readDefinition (mode : ReadMode) (kind : ParameterKind) (site : Site)
    (scope : Scope) : Spends 1 (readDefinition mode kind site scope) :=
  Leb128.spends_read.bind fun _ => Leb128.spends_read.free.bind fun _ =>
    Read.spends_byte.free.bind fun _ => spends_ensure.bind fun _ => spends_ensure.bind fun _ =>
    (spends_readTimeline _ _ _).bind fun _ => spends_ensure.bind fun _ =>
    ((free_readDefinedSubblock _ _).times _).free.bind fun _ => spends_pure _

theorem spends_readBlockTimeline (definition : Parameter) :
    Spends 0 (readBlockTimeline definition) := by
  rw [readBlockTimeline]
  split
  · exact spends_pure _
  · refine Leb128.spends_read.free.bind fun duration => Leb128.spends_read.free.bind
      fun constantDuration => ?_
    split
    · exact Leb128.spends_read.free.bind fun _ => spends_pure _
    · exact spends_pure _

theorem spends_readBlockDuration (selfTimed : Bool) (constantDuration : UInt32)
    (defined : Option Subblock) :
    Spends 0 (readBlockDuration selfTimed constantDuration defined) := by
  rw [readBlockDuration]
  repeat' split
  exacts [Leb128.spends_read.free, spends_pure _, spends_pure _]

/-- A subblock of a block may have no duration, but it has a value, of which only recon
gain that no layer carries is free. -/
theorem spends_readBlockSubblock {definition : Parameter} {carrying : List Nat}
    (constantDuration : UInt32) (hsub : carrying.Sublist (List.range maxLayers))
    (h : definition.kind ≠ .reconGain ∨ carrying ≠ []) (defined : List Subblock) :
    Spends 1 (readBlockSubblock definition constantDuration carrying defined) :=
  (spends_readBlockDuration _ _ _).behind fun _ =>
    (SubblockValue.spends_read hsub h).bind fun _ => spends_pure _

end Parameter

/-! ### Parts of audio elements -/

namespace AudioElement

theorem spends_readSubstream (config : CodecConfig) : Spends 1 (readSubstream config) :=
  Leb128.spends_read.bind fun _ => spends_pure _

theorem spends_skipConfig : Spends 1 skipConfig :=
  Leb128.spends_read.bind fun _ => (Read.spends_skipBytes _).free

theorem spends_readParameter (mode : ReadMode) (element : UInt32) (site : Site)
    (parameters : ParameterList) : Spends 1 (readParameter mode element site parameters) := by
  refine Leb128.spends_read.bind fun code => ?_
  split
  · exact spends_throw _
  · exact (Parameter.spends_readDefinition _ _ _ _).free.bind fun _ =>
      Read.spends_byte.free.bind fun _ => spends_pure _
  · exact (Parameter.spends_readDefinition _ _ _ _).free.bind fun _ => spends_pure _
  · exact spends_skipConfig.free.bind fun _ => spends_pure _

end AudioElement

/-! ### Parts of mix presentations -/

/-- There is a text for each label, so there may be none. -/
theorem Annotations.spends_read (labels : List String) : Spends 0 (read labels) := by
  have hgo : ∀ annotations : Annotations, Spends 0 (read.go annotations labels) := by
    induction labels with
    | nil => exact fun annotations => spends_pure _
    | cons label labels ih =>
      exact fun annotations => Text.Terminated.spends_read.free.bind fun text => ih _
  exact hgo {}

theorem SubmixElement.spends_read (mode : ReadMode) (registry : Registry) (labels : List String)
    (scope : Scope) : Spends 1 (read mode registry labels scope) := by
  refine Leb128.spends_read.bind fun id => ?_
  split
  · exact (Annotations.spends_read labels).bind fun _ => Read.spends_byte.free.bind fun _ =>
      Leb128.spends_read.free.bind fun _ => (Read.spends_skipBytes _).free.bind fun _ =>
      (Parameter.spends_readDefinition _ _ _ _).free.bind fun _ =>
      Ratio.spends_read.free.bind fun _ => spends_pure _
  · exact spends_throw _

theorem AnchoredLoudness.spends_read : Spends 1 read :=
  Read.spends_byte.bind fun _ => (Spends.iterate (fun _ => Read.spends_byte.bind fun _ =>
    Ratio.spends_read.free.bind fun _ => spends_pure _) _ _).free

namespace SubmixLayout

theorem spends_readTarget : Spends 1 readTarget := by
  refine Read.spends_byte.bind fun byte => ?_
  extract_lets code
  split
  · exact spends_pure _
  · split
    · exact spends_pure _
    · exact spends_throw _

theorem spends_read : Spends 1 read := by
  have htruePeak : ∀ info, Spends 0 (readTruePeak info) := by
    intro info
    rw [readTruePeak]
    split
    · exact (Ratio.spends_read.map _).free
    · exact spends_pure _
  have hanchored : ∀ info, Spends 0 (readAnchored info) := by
    intro info
    rw [readAnchored]
    split
    · exact AnchoredLoudness.spends_read.free
    · exact spends_pure _
  have hextension : ∀ info, Spends 0 (skipExtension info) := by
    intro info
    rw [skipExtension]
    split
    · exact Leb128.spends_read.free.bind fun _ => (Read.spends_skipBytes _).free
    · exact spends_pure _
  rw [read_eq]
  exact spends_readTarget.bind fun _ => Read.spends_byte.free.bind fun info =>
    Ratio.spends_read.free.bind fun _ => Ratio.spends_read.free.bind fun _ =>
    (htruePeak info).bind fun _ => (hanchored info).bind fun _ =>
    (hextension info).bind fun _ => spends_pure _

end SubmixLayout

theorem Submix.spends_read (mode : ReadMode) (registry : Registry) (labels : List String)
    (scope : Scope) : Spends 1 (read mode registry labels scope) :=
  Leb128.spends_read.bind fun _ => (mode.spends_checkCount _ _).bind fun _ =>
    (Spends.timesWith (SubmixElement.spends_read mode registry labels) _ _).free.bind fun _ =>
    (Parameter.spends_readDefinition _ _ _ _).free.bind fun _ =>
    Ratio.spends_read.free.bind fun _ => Leb128.spends_read.free.bind fun _ =>
    (mode.spends_checkCount _ _).bind fun _ =>
    (SubmixLayout.spends_read.times _).free.bind fun _ => spends_pure _

end Iamf
