/-!
# Tokens

Code as a tree of tokens: words, numbers and operators, and groups in brackets.
-/

namespace IconCode.Code

inductive Delimiter where
  | parenthesis
  | bracket
  | brace
deriving DecidableEq, Repr

inductive Token where
  /-- A name, a number or an operator. -/
  | atom (text : String)
  | group (delimiter : Delimiter) (inside : List Token)

/-- What lays tokens out as text, or else says why it does not accept them. -/
abbrev Formatter := List Token → Except String String

namespace Token

def parenthesized (ts : List Token) : Token := .group .parenthesis ts

def bracketed (ts : List Token) : Token := .group .bracket ts

def braced (ts : List Token) : Token := .group .brace ts

mutual

def decEq : (t t' : Token) → Decidable (t = t')
  | .atom s, .atom s' => decidable_of_iff (s = s') (by simp)
  | .atom _, .group _ _ => .isFalse (by simp)
  | .group _ _, .atom _ => .isFalse (by simp)
  | .group d ts, .group d' ts' =>
    have := decEqAll ts ts'
    decidable_of_iff (d = d' ∧ ts = ts') (by simp)

def decEqAll : (ts ts' : List Token) → Decidable (ts = ts')
  | [], [] => .isTrue rfl
  | [], _ :: _ => .isFalse (by simp)
  | _ :: _, [] => .isFalse (by simp)
  | t :: ts, t' :: ts' =>
    have := decEq t t'
    have := decEqAll ts ts'
    decidable_of_iff (t = t' ∧ ts = ts') (by simp)

end

instance : DecidableEq Token := decEq

end Token

end IconCode.Code
