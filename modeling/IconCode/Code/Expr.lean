import IconCode.Code.Token
import IconCode.Decimal.Hundredths

/-!
# Expressions and statements

The part of the target language that drawing code is made of.
-/

namespace IconCode.Code

open Decimal (Hundredths)

mutual

inductive Expr where
  /-- A name in the namespaces before it. -/
  | path (names : List String)
  | number (value : Hundredths)
  | borrow (name : String)
  | call (function : List String) (arguments : List Expr)
  | method (receiver : Expr) (name : String) (arguments : List Expr)
  /-- The value of an expression, or leaving the function without one. -/
  | attempt (value : Expr)
  /-- A count as a floating-point number, divided by a number. -/
  | ratio (count : String) (divisor : Hundredths)
  /-- A record with one field given and the others taken from elsewhere. -/
  | record (type : List String) (field : String) (value rest : Expr)
  | block (body : List Stmt)
  /-- A block for the case that a variable holds something, which then has its name. -/
  | ifSome (var : String) (body : List Stmt)
  | ifSomeElse (var : String) (body otherwise : List Stmt)

inductive Stmt where
  | bind (isMutable : Bool) (name : String) (value : Expr)
  | run (value : Expr)
  /-- The value of a block, or an expression that needs no semicolon. -/
  | result (value : Expr)
  /-- Tokens whose lines are always the same. -/
  | fixed (tokens : List Token) (lines : List String)

end

namespace Expr

/-- A variable. -/
def name (s : String) : Expr := .path [s]

end Expr

end IconCode.Code
