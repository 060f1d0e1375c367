import IconCode.Text.Position
import IconCode.Text.Quoted
import IconCode.Text.Utf8

/-!
# Why a drawing cannot be read

Each error is a cause with what its report repeats; the wording is in one place.
-/

namespace IconCode

/-- What is wrong with a command of path data. -/
inductive PathFault where
  | unknownCommand
  | missingCommand
  | wrongArgumentCount (expected found : Nat)
deriving DecidableEq, Repr

/-- What is wrong with a piece of markup. -/
inductive MarkupFault where
  | comment
  | declaration
  | instruction
  | tag
  | name
  | endTag
  | tagEnding
deriving DecidableEq, Repr

/-- Why a text is not the markup of one drawing. -/
inductive MarkupError where
  | malformed (fault : MarkupFault) (position : Text.Position)
  | undecodable (fault : Text.Utf8.Fault)
  | unopened (name : String)
  | mismatched (name opened : String)
  | unclosed (name : String)
  | noRoot
  | afterRoot (name : String)
  | wrongRoot (name : String)
  | outsideRoot
deriving DecidableEq, Repr

/-- Why there are no bytes to read. -/
inductive AccessFault where
  | missingFile
  | failed (reason : String)
deriving DecidableEq, Repr

/-- Why there is no document. -/
inductive ReadError where
  | invalidNumber (text : String)
  | invalidColor (text : String)
  | invalidPath (command arguments : String) (fault : PathFault)
  | invalidMarkup (error : MarkupError)
  | inaccessible (fault : AccessFault)
deriving DecidableEq, Repr

/-! ## Wording -/

def PathFault.message : PathFault → String
  | .unknownCommand => "unknown command"
  | .missingCommand => "arguments without a command"
  | .wrongArgumentCount 0 found => "expected no arguments, found " ++ toString found
  | .wrongArgumentCount expected found =>
    "expected a multiple of " ++ toString expected ++ " arguments, found " ++ toString found

def MarkupFault.message : MarkupFault → String
  | .comment => "found a malformed comment"
  | .declaration => "found a malformed declaration"
  | .instruction => "found a malformed instruction"
  | .tag => "found a malformed tag"
  | .name => "expected a name"
  | .endTag => "found an end tag with excessive data"
  | .tagEnding => "found an unexpected ending of a tag"

def MarkupError.message : MarkupError → String
  | .malformed fault position =>
    fault.message ++ " (line " ++ toString position.line ++ ", column "
      ++ toString position.column ++ ")"
  | .undecodable fault => fault.message
  | .unopened name => "closing tag </" ++ name ++ "> without an open tag"
  | .mismatched name opened => "closing tag </" ++ name ++ "> does not match <" ++ opened ++ ">"
  | .unclosed name => "unclosed tag <" ++ name ++ ">"
  | .noRoot => "no <svg> root element"
  | .afterRoot name => "<" ++ name ++ "> after the root element"
  | .wrongRoot name => "expected an <svg> root element, found <" ++ name ++ ">"
  | .outsideRoot => "element outside of the <svg> root"

def AccessFault.message : AccessFault → String
  | .missingFile => "No such file or directory (os error 2)"
  | .failed reason => reason

def ReadError.message : ReadError → String
  | .invalidNumber text => "invalid number: " ++ Text.quote text
  | .invalidColor text => "invalid color: " ++ Text.quote text
  | .invalidPath command arguments fault =>
    "path syntax error at command " ++ Text.quote command ++ " (arguments "
      ++ Text.quote arguments ++ "): " ++ fault.message
  | .invalidMarkup error => "malformed markup: " ++ error.message
  | .inaccessible fault => "io error: " ++ fault.message

end IconCode
