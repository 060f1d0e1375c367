/-!
# Reading text from bytes

Bytes are text if they are UTF-8. Otherwise the report names the first byte that does not begin a
character: either what follows cannot continue it, or the bytes end within it.

* `decode_toUTF8`: the bytes of a text are read back as that text.
-/

namespace IconCode.Text.Utf8

/-- Why bytes are not text: the first place where no character stands. -/
inductive Fault where
  | invalid (length index : Nat)
  | incomplete (index : Nat)
deriving DecidableEq, Repr

def Fault.message : Fault → String
  | .invalid length index =>
    "invalid utf-8 sequence of " ++ toString length ++ " bytes from index " ++ toString index
  | .incomplete index => "incomplete utf-8 byte sequence from index " ++ toString index

/-- The first and last second byte that may follow a first byte, and how many bytes come after
these two. The narrower ranges keep out overlong forms, surrogates and what lies beyond the last
code point. -/
def follow? (b : UInt8) : Option (UInt8 × UInt8 × Nat) :=
  if 0xC2 ≤ b && b ≤ 0xDF then some (0x80, 0xBF, 0)
  else if b == 0xE0 then some (0xA0, 0xBF, 1)
  else if b == 0xED then some (0x80, 0x9F, 1)
  else if 0xE1 ≤ b && b ≤ 0xEF then some (0x80, 0xBF, 1)
  else if b == 0xF0 then some (0x90, 0xBF, 2)
  else if 0xF1 ≤ b && b ≤ 0xF3 then some (0x80, 0xBF, 2)
  else if b == 0xF4 then some (0x80, 0x8F, 2)
  else none

/-- What is left after the given number of continuation bytes, or the fault of a character at
`index` of which `read` bytes are read. -/
def continuation (index : Nat) : Nat → Nat → List UInt8 → Except Fault (List UInt8)
  | _, 0, bytes => .ok bytes
  | _, _ + 1, [] => .error (.incomplete index)
  | read, left + 1, b :: bytes =>
    if 0x80 ≤ b && b ≤ 0xBF then continuation index (read + 1) left bytes
    else .error (.invalid read index)

/-- What is left after the character at `index`. -/
def character (index : Nat) : List UInt8 → Except Fault (List UInt8)
  | [] => .error (.incomplete index)
  | b :: bytes =>
    if b < 0x80 then .ok bytes
    else
      match follow? b, bytes with
      | none, _ => .error (.invalid 1 index)
      | some _, [] => .error (.incomplete index)
      | some (first, last, more), b' :: bytes =>
        if first ≤ b' && b' ≤ last then continuation index 2 more bytes
        else .error (.invalid 1 index)

/-- The first fault from `index` on, reading at most as many characters as there are bytes. -/
def firstFault : Nat → Nat → List UInt8 → Fault
  | 0, index, _ => .incomplete index
  | fuel + 1, index, bytes =>
    match character index bytes with
    | .error fault => fault
    | .ok rest => firstFault fuel (index + (bytes.length - rest.length)) rest

/-- The text that the bytes encode. -/
def decode (bytes : ByteArray) : Except Fault String :=
  match String.fromUTF8? bytes with
  | some s => .ok s
  | none => .error (firstFault bytes.size 0 bytes.toList)

theorem fromUTF8?_toUTF8 (s : String) : String.fromUTF8? s.toUTF8 = some s := by
  rw [String.fromUTF8?, String.toUTF8_eq_toByteArray, dif_pos s.isValidUTF8]
  rfl

theorem decode_toUTF8 (s : String) : decode s.toUTF8 = .ok s := by
  rw [decode, fromUTF8?_toUTF8]

end IconCode.Text.Utf8
