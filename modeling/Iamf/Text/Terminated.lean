import Iamf.Bits.Reader
import Iamf.Text.Utf8

/-!
# `Iamf.Text.Terminated`: texts that end with a NUL

A text on the wire is UTF-8 with a NUL behind it, 128 bytes at most. A reader
stops after 128 bytes even without a NUL and keeps 127 of them; a writer
refuses a text that does not fit or holds a NUL.
-/

set_option autoImplicit false

namespace Iamf.Text.Terminated

/-- The most bytes that a text takes, its NUL included. -/
def maxSize : Nat := 128

/-- Reads up to `left` bytes, or up to and including a NUL, which is dropped. -/
def readBytes : (left : Nat) → Read Bytes
  | 0 => return []
  | left + 1 => do
    let byte ← Read.byte
    if byte = 0 then return []
    else do
      let bytes ← readBytes left
      return byte :: bytes

/-- Reads a text. -/
def read : Read String := do
  let bytes ← readBytes maxSize
  return Utf8.decodeLossy (bytes.take (maxSize - 1))

/-- Whether a text can be written. -/
def fits (text : String) : Bool :=
  (Utf8.encode text).length < maxSize && !(Utf8.encode text).contains 0

/-- The bytes of a text. -/
def encode (text : String) : Except Error Bytes := do
  ensure (fits text) (.invalidModel (.badText text))
  return Utf8.encode text ++ [0]

end Iamf.Text.Terminated
