import Criteria.Text.Hexadecimal

/-!
# UTF-8

* `Utf8.Lead` is what the first byte of a character tells: how many bytes follow, and between which
  bounds the next one lies. The bounds leave out overlong forms, surrogates and numbers above
  `0x10FFFF`;
* `Utf8.decode` reads bytes as characters, or says which bytes are wrong;
* `unifyLineEnds` turns every kind of line end into one.
-/

namespace Criteria

namespace Utf8

/-- What is wrong with bytes. -/
inductive Cause
  /-- A byte that begins no character. -/
  | start
  /-- A byte that does not continue the character before it. -/
  | continuation
  /-- The bytes end inside a character. -/
  | ended
  deriving DecidableEq

/-- The words for what is wrong with bytes. -/
def Cause.message : Cause → String
  | .start => "invalid start byte"
  | .continuation => "invalid continuation byte"
  | .ended => "unexpected end of data"

/-- Bytes that are not read: what is wrong, the first byte, its position, and how many bytes there
are. -/
structure Fault where
  cause : Cause
  byte : Nat
  position : Nat
  length : Nat
  deriving DecidableEq

/-- The words for bytes that are not read. -/
def Fault.message (fault : Fault) : String :=
  let place :=
    if fault.length = 1 then
      s!"byte 0x{String.ofList (Hexadecimal.write 2 fault.byte)} in position {fault.position}"
    else s!"bytes in position {fault.position}-{fault.position + fault.length - 1}"
  "'utf-8' codec can't decode " ++ place ++ ": " ++ fault.cause.message

/-- What the first byte of a character tells. -/
structure Lead where
  /-- The number of bytes that follow. -/
  more : Nat
  /-- The least value of the next byte. -/
  least : Nat
  /-- The greatest value of the next byte. -/
  greatest : Nat
  /-- The bits of the character in this byte. -/
  bits : Nat

/-- What a first byte tells; other bytes begin no character. -/
def lead? (byte : Nat) : Option Lead :=
  if byte < 0x80 then some ⟨0, 0, 0, byte⟩
  else if byte < 0xC2 then none
  else if byte < 0xE0 then some ⟨1, 0x80, 0xBF, byte - 0xC0⟩
  else if byte < 0xF0 then
    some ⟨2, if byte = 0xE0 then 0xA0 else 0x80, if byte = 0xED then 0x9F else 0xBF, byte - 0xE0⟩
  else if byte < 0xF5 then
    some ⟨3, if byte = 0xF0 then 0x90 else 0x80, if byte = 0xF4 then 0x8F else 0xBF, byte - 0xF0⟩
  else none

/-- Read bytes that follow a first byte; `taken` counts the bytes of the character so far. -/
def readFollowing (least greatest taken bits : Nat) :
    Nat → List Nat → Except (Cause × Nat) Nat
  | 0, _ => .ok bits
  | _ + 1, [] => .error (.ended, taken)
  | more + 1, byte :: rest =>
    if least ≤ byte ∧ byte ≤ greatest then
      readFollowing 0x80 0xBF (taken + 1) (64 * bits + (byte - 0x80)) more rest
    else .error (.continuation, taken)

/-- Read characters from a position on, after passing over `passed` bytes of a character. -/
def decodeFrom : List Nat → Nat → Nat → Except Fault (List Char)
  | [], _, _ => .ok []
  | _ :: rest, position, passed + 1 => decodeFrom rest (position + 1) passed
  | byte :: rest, position, 0 =>
    match lead? byte with
    | none => .error ⟨.start, byte, position, 1⟩
    | some lead =>
      match readFollowing lead.least lead.greatest 1 lead.bits lead.more rest with
      | .error (cause, length) => .error ⟨cause, byte, position, length⟩
      | .ok n => (decodeFrom rest (position + 1) lead.more).map (Char.ofNat n :: ·)

/-- Read bytes as characters. -/
def decode (bytes : List Nat) : Except Fault (List Char) := decodeFrom bytes 0 0

end Utf8

/-- A text in which every line ends in one line feed, however it ended before. -/
def unifyLineEnds : List Char → List Char
  | '\r' :: '\n' :: rest => '\n' :: unifyLineEnds rest
  | '\r' :: rest => '\n' :: unifyLineEnds rest
  | c :: rest => c :: unifyLineEnds rest
  | [] => []

example : Utf8.decode [0x61, 0xC3, 0xA9] = .ok ['a', 'é'] := by rfl

example : Utf8.decode [0x61, 0xE2, 0x82] = .error ⟨.ended, 0xE2, 1, 2⟩ := by rfl

end Criteria
