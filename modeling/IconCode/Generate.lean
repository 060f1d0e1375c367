import IconCode.Accessor.Code
import IconCode.Reader.Source

/-!
# From markup to code

The code of a document is laid out as text by a formatter, which may refuse the tokens that it gets.

* `render_header`: the header is all that it adds.
-/

namespace IconCode

/-! ## Documents -/

/-- The tokens of a document's accessor. -/
def Document.tokens (d : Document) (options : Options) : Except DrawError (List Code.Token) :=
  (Accessor.ofDocument d options).map (·.tokens)

/-- A control character of either block. -/
def isControl (c : Char) : Bool := c.toNat < 0x20 || (0x7F ≤ c.toNat && c.toNat < 0xA0)

/-- The comment that says where the code comes from. -/
def Document.header (d : Document) : String :=
  let title := d.title.toList.map fun c => if isControl c then ' ' else c
  "// Generated by vectorgen from \"" ++ String.ofList title ++ "\". Do not edit.\n"

/-- A document's accessor laid out as text. -/
def Document.code (format : Code.Formatter) (d : Document) (options : Options) :
    Except DrawError String :=
  match d.tokens options with
  | .error e => .error e
  | .ok ts =>
    match format ts with
    | .error reason => .error (.unformattable reason)
    | .ok code => .ok code

/-- The code of a document, below the comment or not. -/
def Document.render (format : Code.Formatter) (d : Document) (options : Options) :
    Except DrawError String :=
  (d.code format options).map fun code => if options.header then d.header ++ code else code

theorem Document.render_header (format : Code.Formatter) (d : Document) (options : Options)
    (h : options.header = true) :
    d.render format options =
      (d.render format { options with header := false }).map (d.header ++ ·) := by
  have hcode : d.code format { options with header := false } = d.code format options := rfl
  simp only [render, hcode, h]
  cases d.code format options <;> rfl

/-- The file that the code of a document is meant for. -/
def Document.outputFile (d : Document) : Except DrawError String :=
  match Naming.Identifier.ofTitle? d.title with
  | none => .error .invalidTitle
  | some name => .ok name.file

/-! ## Markup -/

/-- Why markup has no code. -/
inductive ConvertError where
  | unreadable (error : ReadError)
  | undrawable (error : DrawError)

/-- The code for markup. A document without a title gets the given one. -/
def convert (scan : Markup.Scanner) (format : Code.Formatter) (markup title : String)
    (options : Options) : Except ConvertError String :=
  match (Reader.ofText scan markup).result with
  | .error e => .error (.unreadable e)
  | .ok d =>
    let d := if d.title.isEmpty then { d with title } else d
    match d.render format options with
    | .error e => .error (.undrawable e)
    | .ok s => .ok s

end IconCode
