import IconCode.Code.Expr
import IconCode.Code.Layout

/-!
# Layout of expressions and statements

Arguments that do not fit on the line stand on lines of their own, with a comma after the last one.
A method whose receiver and arguments do not fit begins a line of its own. A block has one statement
a line.
-/

namespace IconCode.Code

open Decimal (Hundredths)

/-- How far the inside of brackets is indented. -/
def indentation : Int := 4

def joined (names : List String) : String := "::".intercalate names

def numberText (h : Hundredths) : String := String.ofList h.text

/-- The items with the last break among them moved back by one indentation. -/
def dedented : List Item → List Item
  | [] => []
  | .gap blanks offset tail :: [] => [.gap blanks (offset - indentation) tail]
  | i :: is => i :: dedented is

/-- A variable held against nothing, as the condition of a block. -/
def someCondition (var : String) : List Item :=
  let pattern := [Item.text "Some(", .box true indentation
    [.soft, .text var, .gap 0 (-indentation) ","], .text ")"]
  [.text "if ",
    .box true (-indentation)
      [.box true 0
        [.box false indentation
          [.text "let ", .box false (-indentation) pattern, .blank, .text ("= " ++ var)],
          .text " "]]]

/-- A number of lines, each with its end. -/
def lineItems (lines : List String) : List Item := lines.flatMap fun s => [.text s, .hard]

/-- Whether statements are nothing but a value. -/
def Stmt.isValue : List Stmt → Bool
  | [.result _] => true
  | _ => false

mutual

def Expr.items : Expr → List Item
  | .path names => [.text (joined names)]
  | .number value => [.text (numberText value)]
  | .borrow name => [.text ("&" ++ name)]
  | .call function arguments =>
    [.text (joined function), .text "("] ++ sequenceBox (Expr.sequence arguments) ++ [.text ")"]
  | .method receiver name arguments =>
    [.box true indentation
      (receiver.items ++ [.soft, .text ("." ++ name),
        .box true 0 ([.text "("] ++ sequenceBox (Expr.sequence arguments) ++ [.text ")"])])]
  | .attempt value => value.items ++ [.text "?"]
  | .ratio count divisor =>
    [.box false indentation
      [.box false (-indentation)
        [.box false indentation
          [.box false (-indentation) [.text count], .blank, .text "as f32"]],
        .blank, .text "/ ", .text (numberText divisor)]]
  | .record type field value rest =>
    [.box true indentation
      ([.text (joined type ++ " \x7b"), .blank, .text (field ++ ": "), .box false 0 value.items,
        .text ",", .blank, .text ".."] ++ rest.items ++ [.gap Item.endless (-indentation) ""]),
      .text "\x7d"]
  | .block body => [.box true indentation (braced (Stmt.isValue body) (Stmt.listItems body))]
  | .ifSome var body =>
    [.box true indentation
      (someCondition var ++ [.text "\x7b", .hard] ++ dedented (Stmt.listItems body)
        ++ [.text "\x7d"])]
  | .ifSomeElse var body otherwise =>
    [.box true indentation
      (someCondition var ++ braced (Stmt.isValue body) (Stmt.listItems body) ++
        [.text " else "] ++ braced (Stmt.isValue otherwise) (Stmt.listItems otherwise))]
where
  /-- Arguments on one line or on a line each. -/
  sequenceBox (inside : List Item) : List Item :=
    if inside.isEmpty then []
    else [.box true indentation ([Item.soft] ++ inside ++ [.gap 0 (-indentation) ","])]
  /-- Statements in braces. A value alone may stand on the line of its braces. -/
  braced (isValue : Bool) (lines : List Item) : List Item :=
    if lines.isEmpty then [.text "\x7b\x7d"]
    else
      let lines := if isValue then lines.dropLast ++ [.gap 1 (-indentation) ""] else dedented lines
      [Item.text "\x7b", .blank] ++ lines ++ [.text "\x7d"]

/-- Items of expressions with a comma and a break between each two. -/
def Expr.sequence : List Expr → List Item
  | [] => []
  | e :: es =>
    match es with
    | [] => e.items
    | _ => e.items ++ [.text ",", .blank] ++ Expr.sequence es

def Stmt.items : Stmt → List Item
  | .bind isMutable name value =>
    let head := if isMutable then "let mut " ++ name ++ " = " else "let " ++ name ++ " = "
    [.box false 0 (.text head :: value.items ++ [.text ";"]), .hard]
  | .run value => [.box false 0 (value.items ++ [.text ";"]), .hard]
  | .result value => [.box false 0 value.items, .hard]
  | .fixed _ lines => lineItems lines

def Stmt.listItems : List Stmt → List Item
  | [] => []
  | s :: ss => s.items ++ Stmt.listItems ss

end

end IconCode.Code
