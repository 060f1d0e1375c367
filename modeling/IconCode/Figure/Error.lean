import IconCode.Paint.Color

/-!
# Why a document has no code
-/

namespace IconCode

inductive DrawError where
  /-- The title has no words to make a name of. -/
  | invalidTitle
  | unsupportedColor (color : Color)
  /-- The code cannot be laid out as text. -/
  | unformattable (reason : String)
deriving DecidableEq

def DrawError.message : DrawError → String
  | .invalidTitle => "document title does not yield an identifier"
  | .unsupportedColor color =>
    "color " ++ color.description ++ " has no rgba representation with channels in 0..=1"
  | .unformattable reason => "generated code could not be formatted: " ++ reason

end IconCode
