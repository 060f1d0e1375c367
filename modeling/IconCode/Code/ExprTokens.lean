import IconCode.Code.Expr

/-!
# Tokens of expressions and statements

* `Stmt.listTokens_append`: the tokens of statements are those of each in turn.
-/

namespace IconCode.Code

open Decimal (Hundredths)

/-- Names with a separator between each two. -/
def pathTokens : List String → List Token
  | [] => []
  | [s] => [.atom s]
  | s :: rest => .atom s :: .atom "::" :: pathTokens rest

/-- A number; a minus sign is a token of its own. -/
def numberTokens (h : Hundredths) : List Token :=
  let digits := Token.atom (String.ofList h.magnitude)
  if h.isNegative then [.atom "-", digits] else [digits]

mutual

def Expr.tokens : Expr → List Token
  | .path names => pathTokens names
  | .number value => numberTokens value
  | .borrow name => [.atom "&", .atom name]
  | .call function arguments =>
    pathTokens function ++ [.parenthesized (Expr.listTokens arguments)]
  | .method receiver name arguments =>
    receiver.tokens ++ [.atom ".", .atom name, .parenthesized (Expr.listTokens arguments)]
  | .attempt value => value.tokens ++ [.atom "?"]
  | .ratio count divisor =>
    [.atom count, .atom "as", .atom "f32", .atom "/"] ++ numberTokens divisor
  | .record type field value rest =>
    pathTokens type ++
      [.braced ([.atom field, .atom ":"] ++ value.tokens ++ [.atom ",", .atom ".."] ++ rest.tokens)]
  | .block body => [.braced (Stmt.listTokens body)]
  | .ifSome var body => ifSomeTokens var ++ [.braced (Stmt.listTokens body)]
  | .ifSomeElse var body otherwise =>
    ifSomeTokens var ++
      [.braced (Stmt.listTokens body), .atom "else", .braced (Stmt.listTokens otherwise)]
where
  /-- The condition that a variable holds something. -/
  ifSomeTokens (var : String) : List Token :=
    [.atom "if", .atom "let", .atom "Some", .parenthesized [.atom var], .atom "=", .atom var]

/-- Arguments with a comma between each two. -/
def Expr.listTokens : List Expr → List Token
  | [] => []
  | e :: es =>
    match es with
    | [] => e.tokens
    | _ => e.tokens ++ .atom "," :: Expr.listTokens es

def Stmt.tokens : Stmt → List Token
  | .bind isMutable name value =>
    .atom "let" :: ((if isMutable then [.atom "mut"] else []) ++
      [.atom name, .atom "="] ++ value.tokens ++ [.atom ";"])
  | .run value => value.tokens ++ [.atom ";"]
  | .result value => value.tokens
  | .fixed tokens _ => tokens

def Stmt.listTokens : List Stmt → List Token
  | [] => []
  | s :: ss => s.tokens ++ Stmt.listTokens ss

end

theorem Stmt.listTokens_append (ss ts : List Stmt) :
    Stmt.listTokens (ss ++ ts) = Stmt.listTokens ss ++ Stmt.listTokens ts := by
  induction ss with
  | nil => simp [Stmt.listTokens]
  | cons s ss ih => simp [Stmt.listTokens, ih, List.append_assoc]

end IconCode.Code
