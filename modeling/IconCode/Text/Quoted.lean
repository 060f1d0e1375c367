import IconCode.Text.Unprintable

/-!
# Quoted text

Values that a message repeats stand between double quotes. A quote and a backslash are written
after a backslash, the usual controls by a letter, and every other character that has no picture
of its own by its code point in hexadecimal digits.
-/

namespace IconCode.Text

/-- The written form of one character inside quotes. -/
def escaped (c : Char) : List Char :=
  if c = '"' then ['\\', '"']
  else if c = '\\' then ['\\', '\\']
  else if c = '\t' then ['\\', 't']
  else if c = '\r' then ['\\', 'r']
  else if c = '\n' then ['\\', 'n']
  else if c = '\x00' then ['\\', '0']
  else if isUnprintable c then ['\\', 'u', '\x7b'] ++ Nat.toDigits 16 c.toNat ++ ['\x7d']
  else [c]

def quoted (s : List Char) : List Char := '"' :: s.flatMap escaped ++ ['"']

/-- The quoted form of a string. -/
def quote (s : String) : String := String.ofList (quoted s.toList)

end IconCode.Text
