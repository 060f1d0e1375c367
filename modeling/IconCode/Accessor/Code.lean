import IconCode.Accessor.Basic
import IconCode.Code.ExprLayout
import IconCode.Code.ExprTokens
import IconCode.Figure.Code

/-!
# The code of accessors

An accessor is a static cache and a function. The function looks into the cache, draws the figures
if nothing is found, and puts the picture into the cache.

* `wordsOf_ne_nil`: a text is at least one word.
-/

namespace IconCode

open Code

/-! ## Tokens from text -/

/-- The parts of a text between single spaces. -/
def wordsOf : List Char → List (List Char)
  | [] => [[]]
  | c :: s =>
    match wordsOf s with
    | [] => [[c]]
    | w :: ws => if c = ' ' then [] :: w :: ws else (c :: w) :: ws

theorem wordsOf_ne_nil (s : List Char) : wordsOf s ≠ [] := by
  cases s with
  | nil => simp [wordsOf]
  | cons c s =>
    simp only [wordsOf]
    split
    · simp
    · split <;> simp

/-- An atom for each word of a text. -/
def atoms (s : String) : List Token := (wordsOf s.toList).map fun w => .atom (String.ofList w)

def parens (ts : List Token) : List Token := [.parenthesized ts]

def brackets (ts : List Token) : List Token := [.bracketed ts]

def braces (ts : List Token) : List Token := [.braced ts]

/-! ## Transforms -/

def Transform.expr : Transform → Expr
  | .identity => .call (skia ["Transform", "identity"]) []
  | .scale width height shift =>
    let scale := Expr.call (skia ["Transform", "from_scale"])
      [.ratio "width" width, .ratio "height" height]
    match shift with
    | none => scale
    | some p => .method scale "pre_translate" (pointArguments p)

namespace Accessor

/-! ## Keys of the cache -/

/-- The type of the four bytes of a tint. -/
def tintType : List Token := atoms "Option <" ++ brackets (atoms "u8 ; 4") ++ atoms ">"

/-- The bytes of the tint, if there is one. -/
def tintKey : List Token :=
  let channel (name : String) := atoms ("tint . " ++ name) ++ parens []
  let body := atoms "let tint = tint . to_color_u8" ++ parens [] ++ atoms ";" ++
    brackets (channel "red" ++ atoms "," ++ channel "green" ++ atoms "," ++ channel "blue"
      ++ atoms "," ++ channel "alpha")
  atoms "tint . map" ++ parens (atoms "| tint |" ++ braces body)

/-- A side of the picture as a literal of its type. -/
def pixels (n : Nat) : String := String.ofList (Decimal.digits n) ++ "u32"

/-- The width and the height that are drawn. -/
def sizeStatement (a : Accessor) : Stmt :=
  let names := atoms "let" ++ parens (atoms "width , height")
  let sides := parens (atoms (pixels a.width ++ " , " ++ pixels a.height))
  let text := "(" ++ pixels a.width ++ ", " ++ pixels a.height ++ ")"
  if a.sizeInCacheKey then
    .fixed (names ++ atoms "= size . unwrap_or" ++ parens sides ++ atoms ";")
      ["let (width, height) = size.unwrap_or(" ++ text ++ ");"]
  else
    .fixed (names ++ atoms ":" ++ parens (atoms "u32 , u32") ++ atoms "=" ++ sides ++ atoms ";")
      ["let (width, height): (u32, u32) = " ++ text ++ ";"]

/-- The key under which the picture is kept. -/
def keyStatement (a : Accessor) : Stmt :=
  if a.sizeInCacheKey then
    .fixed
      (atoms "let key =" ++ parens (atoms "width , height ," ++ tintKey) ++ atoms ";")
      ["let key = (",
        "    width,",
        "    height,",
        "    tint",
        "        .map(|tint| \x7b",
        "            let tint = tint.to_color_u8();",
        "            [tint.red(), tint.green(), tint.blue(), tint.alpha()]",
        "        \x7d),",
        ");"]
  else
    .fixed
      (atoms "let key =" ++ tintKey ++ atoms ";")
      ["let key = tint",
        "    .map(|tint| \x7b",
        "        let tint = tint.to_color_u8();",
        "        [tint.red(), tint.green(), tint.blue(), tint.alpha()]",
        "    \x7d);"]

/-! ## The function's body -/

/-- The lock on the cache, unless another thread has failed with it. -/
def lockTokens : List Token :=
  atoms "cache . lock" ++ parens [] ++ atoms ". ok" ++ parens [] ++ atoms "?"

/-- Returns what the cache holds. -/
def lookupStatement : Stmt :=
  .fixed
    (atoms "if let Some" ++ parens (atoms "pixmap") ++ atoms "=" ++ lockTokens ++ atoms ". get" ++
      parens (atoms "& key") ++
      braces (atoms "return Some" ++ parens (atoms "pixmap . clone" ++ parens []) ++ atoms ";"))
    ["if let Some(pixmap) = cache.lock().ok()?.get(&key) \x7b",
      "    return Some(pixmap.clone());",
      "\x7d"]

/-- Puts the picture into the cache and returns it. -/
def storeStatement : Stmt :=
  .fixed
    (atoms "let mut cache =" ++ lockTokens ++ atoms "; Some" ++
      parens (atoms "cache . entry" ++ parens (atoms "key") ++ atoms ". or_insert_with" ++
        parens (atoms "|| std :: sync :: Arc :: new" ++ parens (atoms "pixmap")) ++
        atoms ". clone" ++ parens []))
    ["let mut cache = cache.lock().ok()?;",
      "Some(cache.entry(key).or_insert_with(|| std::sync::Arc::new(pixmap)).clone())"]

/-- What is done before anything is drawn. -/
def prelude (a : Accessor) : List Stmt :=
  [a.sizeStatement,
    a.keyStatement,
    .bind false "cache"
      (.method (.name a.name.cache) "get_or_init" [.path ["Default", "default"]]),
    lookupStatement,
    .bind true "pixmap" (.attempt (.call (skia ["Pixmap", "new"]) [.name "width", .name "height"]))]

def body (a : Accessor) : List Stmt :=
  a.prelude ++ .bind false "transform" a.transform.expr ::
    (Figure.statements a.figures ++ [storeStatement])

/-! ## Tokens -/

def keyTypeTokens (a : Accessor) : List Token :=
  if a.sizeInCacheKey then parens (atoms "u32 , u32 ," ++ tintType) else tintType

def parameterTokens (a : Accessor) : List Token :=
  let size := atoms "size : Option <" ++ parens (atoms "u32 , u32") ++ atoms "> ,"
  (if a.sizeInCacheKey then size else []) ++ atoms "tint : Option < tiny_skia :: Color >"

def visibilityTokens (a : Accessor) : List Token :=
  match a.visibility with
  | .everywhere => atoms "pub"
  | .crate => atoms "pub" ++ parens (atoms "crate")

/-- The cache, and what is said of the function before it begins. -/
def frontTokens (a : Accessor) : List Token :=
  atoms "#" ++ brackets (atoms "allow" ++ parens (atoms "non_upper_case_globals")) ++
    atoms "static" ++ [.atom a.name.cache] ++
    atoms ": std :: sync :: OnceLock < std :: sync :: Mutex < std :: collections :: HashMap <" ++
    a.keyTypeTokens ++
    atoms ", std :: sync :: Arc < tiny_skia :: Pixmap >> > , > = std :: sync :: OnceLock :: new" ++
    parens [] ++ atoms "; #" ++
    brackets (atoms "allow" ++ parens (atoms "non_snake_case , unused_mut , unused_variables")) ++
    a.visibilityTokens

/-- The function after the word that begins it. -/
def functionTokens (a : Accessor) : List Token :=
  [.atom a.name.accessor] ++ parens a.parameterTokens ++
    atoms "-> Option < std :: sync :: Arc < tiny_skia :: Pixmap >>" ++
    braces (Stmt.listTokens a.body)

/-- The whole code as tokens. -/
def tokens (a : Accessor) : List Token := a.frontTokens ++ .atom "fn" :: a.functionTokens

/-! ## Layout -/

def staticLines (a : Accessor) : List String :=
  ["#[allow(non_upper_case_globals)]",
    "static " ++ a.name.cache ++ ": std::sync::OnceLock<",
    "    std::sync::Mutex<"] ++
    (if a.sizeInCacheKey then
      ["        std::collections::HashMap<",
        "            (u32, u32, Option<[u8; 4]>),",
        "            std::sync::Arc<tiny_skia::Pixmap>,",
        "        >,"]
    else
      ["        std::collections::HashMap<Option<[u8; 4]>, std::sync::Arc<tiny_skia::Pixmap>>,"]) ++
    ["    >,",
      "> = std::sync::OnceLock::new();"]

def visibilityText (a : Accessor) : String :=
  match a.visibility with
  | .everywhere => "pub "
  | .crate => "pub(crate) "

/-- The lines up to the function's brace. A signature with one parameter stands on one line if it
fits. -/
def signatureLines (a : Accessor) : List String :=
  let head := a.visibilityText ++ "fn " ++ a.name.accessor ++ "("
  let tint := "tint: Option<tiny_skia::Color>"
  let tail := ") -> Option<std::sync::Arc<tiny_skia::Pixmap>> \x7b"
  if a.sizeInCacheKey then
    [head, "    size: Option<(u32, u32)>,", "    " ++ tint ++ ",", tail]
  else
    let line := head ++ tint ++ tail
    if (line.length : Int) ≤ Item.margin then [line] else [head, "    " ++ tint ++ ",", tail]

/-- The whole code as items. -/
def items (a : Accessor) : List Item :=
  lineItems a.staticLines ++
    lineItems ["#[allow(non_snake_case, unused_mut, unused_variables)]"] ++
    (lineItems a.signatureLines).dropLast ++
    [.box true indentation
      ([Item.blank] ++ dedented (Stmt.listItems a.body) ++ [.text "\x7d"]),
      .hard]

/-- The whole code as text. -/
def source (a : Accessor) : String := Item.render a.items

end Accessor

end IconCode
