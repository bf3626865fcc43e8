/-! Reading bytes as UTF-8. A fault names the bytes that cannot stand where they do: a byte that
starts no character, the start of a character that does not go on, or the start of one that the end
of the data cuts off. -/

namespace SchemaCompiler

inductive Utf8Reason where
  | invalidStart
  | invalidContinuation
  | unexpectedEnd
  deriving DecidableEq, Repr

/-- The bytes that cannot be read: the position of the first, its value and their number. -/
structure Utf8Fault where
  position : Nat
  byte : UInt8
  count : Nat
  reason : Utf8Reason
  deriving DecidableEq, Repr

namespace Utf8

/-- The number of bytes after a starting byte, and the range of the first of them. -/
def shapeOf (b : UInt8) : Option (Nat × UInt8 × UInt8) :=
  if b < 0x80 then some (0, 0, 0)
  else if b < 0xc2 then none
  else if b < 0xe0 then some (1, 0x80, 0xbf)
  else if b < 0xf0 then
    some (2, if b = 0xe0 then 0xa0 else 0x80, if b = 0xed then 0x9f else 0xbf)
  else if b < 0xf5 then
    some (3, if b = 0xf0 then 0x90 else 0x80, if b = 0xf4 then 0x8f else 0xbf)
  else none

/-- Takes `more` continuation bytes, the first from the given range. The result on failure counts
the good ones and says whether the data ended. -/
def continuation : (more : Nat) → (low high : UInt8) → (code good : Nat) → List UInt8 →
    Except (Nat × Bool) (Nat × List UInt8)
  | 0, _, _, code, _, bytes => .ok (code, bytes)
  | _ + 1, _, _, _, good, [] => .error (good, true)
  | more + 1, low, high, code, good, b :: rest =>
    if low ≤ b ∧ b ≤ high then
      continuation more 0x80 0xbf (code * 64 + b.toNat % 64) (good + 1) rest
    else .error (good, false)

def startBits (more : Nat) (b : UInt8) : Nat :=
  match more with
  | 0 => b.toNat
  | 1 => b.toNat % 32
  | 2 => b.toNat % 16
  | _ => b.toNat % 8

/-- Reads characters from `position` on; each takes at least one byte, so the number of bytes bounds
the steps. -/
def decodeFrom : (bound position : Nat) → List UInt8 → List Char → Except Utf8Fault (List Char)
  | 0, _, _, done => .ok done.reverse
  | _, _, [], done => .ok done.reverse
  | bound + 1, position, b :: rest, done =>
    match shapeOf b with
    | none => .error ⟨position, b, 1, .invalidStart⟩
    | some (more, low, high) =>
      match continuation more low high (startBits more b) 0 rest with
      | .ok (code, rest) => decodeFrom bound (position + 1 + more) rest (Char.ofNat code :: done)
      | .error (good, true) => .error ⟨position, b, good + 1, .unexpectedEnd⟩
      | .error (good, false) => .error ⟨position, b, good + 1, .invalidContinuation⟩

def decode (bytes : List UInt8) : Except Utf8Fault String :=
  (decodeFrom bytes.length 0 bytes []).map String.ofList

end Utf8

end SchemaCompiler
