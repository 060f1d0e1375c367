import IconCode.Code.Token
import IconCode.Decimal.Hundredths

/-!
# Reading tokens

Words, groups and numbers are looked for among tokens that need not be those of any code: what is
not found is empty.
-/

namespace IconCode.Code

open Decimal (Hundredths)

namespace Token

/-- Whether a token is a certain word. -/
def isAtom (s : String) : Token → Bool
  | .atom s' => s' == s
  | .group _ _ => false

/-- Whether a token is a group. -/
def isGroup : Token → Bool
  | .atom _ => false
  | .group _ _ => true

/-- The tokens before the first of a word. -/
def before (s : String) (ts : List Token) : List Token := ts.takeWhile fun t => !t.isAtom s

/-- The tokens after the first of a word. -/
def after (s : String) (ts : List Token) : List Token := (ts.dropWhile fun t => !t.isAtom s).tail

/-- The word that comes first. -/
def word : List Token → String
  | .atom s :: _ => s
  | _ => ""

/-- What is in the group that comes first. -/
def inner : List Token → List Token
  | .group _ inside :: _ => inside
  | _ => []

/-- What is in the group that comes last. -/
def lastInner (ts : List Token) : List Token := inner ts.getLast?.toList

/-- The numbers among tokens, where a minus sign belongs to the number right after it. -/
def numbersFrom (negative : Bool) : List Token → List Hundredths
  | [] => []
  | .atom s :: ts =>
    if s.toList.head?.any Char.isDigit then .ofText negative s.toList :: numbersFrom false ts
    else numbersFrom (s == "-") ts
  | .group _ _ :: ts => numbersFrom false ts

def numbersIn (ts : List Token) : List Hundredths := numbersFrom false ts

end Token

end IconCode.Code
