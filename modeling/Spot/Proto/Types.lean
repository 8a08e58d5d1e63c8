import Mathlib.Data.Vector.Basic
import Spot.General.Utf8

/-!
# Basic types

Byte strings, the strings of the source (`Str`, which carry the bound every allocation has), the
two builds (`Platform`), and the errors of the protocol crate.  A `Fault` is what stops a function
other than by returning a value: one of its errors, or a panic.
-/

namespace Spot

/-- Byte strings, `Vec<u8>` or `&[u8]`. -/
abbrev Bytes := List UInt8

/-- Texts whose size plays no part, such as those of errors. -/
abbrev Text := List Char

/-- `[u8; 16]`, a message id. -/
abbrev MessageId := List.Vector UInt8 16

theorem length_take_id {buf : Bytes} (h : ¬buf.length < 16) : (buf.take 16).length = 16 :=
  List.length_take_of_le (Nat.le_of_not_lt h)

/-- `isize::MAX` on a 64-bit target, the largest size of an allocation. -/
def isizeMax : ℕ := 2 ^ 63 - 1

/-- A `String`: Unicode scalar values whose UTF-8 form fits in an allocation. -/
@[ext] structure Str where
  chars : Text
  size_le : (utf8 chars).length ≤ isizeMax
  deriving DecidableEq

namespace Str

/-- `as_bytes`. -/
def bytes (s : Str) : Bytes := utf8 s.chars

/-- `len`, the number of bytes. -/
def len (s : Str) : ℕ := s.bytes.length

/-- `String::default()`. -/
def empty : Str := ⟨[], by decide⟩

instance : Inhabited Str := ⟨empty⟩

theorem len_le (s : Str) : s.len ≤ isizeMax := s.size_le

/-- The length of a string, as a `u64`, is its length. -/
theorem toNat_ofNat_len (s : Str) : (UInt64.ofNat s.len).toNat = s.len := by
  rw [UInt64.toNat_ofNat']
  have := s.len_le
  unfold isizeMax at this
  omega

theorem lossy_bytes (s : Str) : lossy s.bytes = s.chars := lossy_utf8 s.chars

/-- `String::from_utf8_lossy` of a short byte string. -/
def ofLossy (b : Bytes) (h : b.length ≤ 256) : Str :=
  ⟨lossy b, (length_utf8_lossy_le b).trans (by unfold isizeMax; omega)⟩

end Str

/-- The two builds: threads on a 64-bit target, or the browser's event loop on `wasm32`. -/
inductive Platform
  | native
  | wasm
  deriving DecidableEq

/-- The width of `usize`. -/
def Platform.usizeBits : Platform → ℕ
  | native => 64
  | wasm => 32

/-- A string that fits in an allocation of the platform. -/
def Str.FitsIn (t : Platform) (s : Str) : Prop := s.len < 2 ^ (t.usizeBits - 1)

theorem Str.fitsIn_native (s : Str) : s.FitsIn .native := by
  have := s.len_le
  unfold isizeMax at this
  show s.len < 2 ^ 63
  omega

/-- The errors of the protocol crate. -/
inductive ProtoError
  | emptyBuffer
  | invalidVersion (version packet : UInt8)
  | unknownPacket (packet : UInt8)
  | truncated
  | nameTooLong
  | cbor (e : Text)
  | bottle (e : Text)
  deriving DecidableEq

/-- What stops a function other than by returning a value. -/
inductive Fault (ε : Type)
  | panic
  | err (e : ε)
  deriving DecidableEq

/-- The result of a function of the protocol crate. -/
abbrev ProtoResult := Except (Fault ProtoError)

end Spot
