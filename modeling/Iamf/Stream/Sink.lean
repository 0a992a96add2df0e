import Iamf.Bytes
import Iamf.Stateful

/-!
# `Iamf.Stream.Sink`: where written bytes go

A sink takes each piece of bytes whole or refuses it. It may have room for only
so many bytes, and it may be unable to flush.
-/

set_option autoImplicit false

namespace Iamf

/-- A sink, with the bytes that it has taken. -/
structure Sink where
  /-- The bytes taken so far. -/
  written : Bytes := []
  /-- The most bytes there is room for, and the failure when they are exceeded. -/
  room : Option (Nat × String) := none
  /-- The failure of flushing, if it fails. -/
  flushFailure : Option String := none
  deriving DecidableEq, Repr

namespace Sink

/-- The failure of a piece of the given length, if it does not fit. -/
def refusal? (sink : Sink) (length : Nat) : Option String :=
  match sink.room with
  | none => none
  | some (limit, text) => if sink.written.length + length ≤ limit then none else some text

/-- Hands a piece of bytes to the sink. -/
def write (bytes : Bytes) : Stateful Sink Unit := do
  let sink ← get
  match sink.refusal? bytes.length with
  | some text => throw (.io text)
  | none => set { sink with written := sink.written ++ bytes }

/-- Has the sink pass on what it holds back. -/
def flush : Stateful Sink Unit := do
  let sink ← get
  match sink.flushFailure with
  | some text => throw (.io text)
  | none => return ()

end Sink

end Iamf
