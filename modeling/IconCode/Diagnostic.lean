import IconCode.Text.Quoted

/-!
# Diagnostics

Input that was understood well enough to be ignored.
-/

namespace IconCode

inductive Diagnostic where
  | unknownElement (name : String)
  | unknownAttribute (element name value : String)
  | unknownStyleRule (rule : String)
  | skippedSubtree (name : String)
deriving DecidableEq, Repr

def Diagnostic.message : Diagnostic → String
  | .unknownElement name => "unrecognized element <" ++ name ++ ">"
  | .unknownAttribute element name value =>
    "unrecognized attribute " ++ name ++ "=" ++ Text.quote value ++ " on <" ++ element ++ ">"
  | .unknownStyleRule rule => "unrecognized style rule " ++ Text.quote rule
  | .skippedSubtree name => "skipping unsupported <" ++ name ++ "> and its children"

end IconCode
