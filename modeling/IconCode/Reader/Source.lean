import IconCode.Markup.Event
import IconCode.Reader.State

/-!
# Sources

Documents come as text, as bytes, in pieces from a stream, or from a file. All of them are read as
text, whatever finds its events; bytes that are no text and streams that fail are errors before any
markup is looked at.

* `ofBytes_toUTF8`: reading the bytes of a text is reading the text.
-/

namespace IconCode.Reader

variable (scan : Markup.Scanner)

/-- Reads a document from markup. -/
def ofText (s : String) : Outcome Document := run (scan s.toList)

/-- Reads a document from the bytes of markup. -/
def ofBytes (bytes : ByteArray) : Outcome Document :=
  match Text.Utf8.decode bytes with
  | .ok s => ofText scan s
  | .error fault => Outcome.fail (.invalidMarkup (.undecodable fault))

theorem ofBytes_toUTF8 (s : String) : ofBytes scan s.toUTF8 = ofText scan s := by
  rw [ofBytes, Text.Utf8.decode_toUTF8]

/-! ## Streams -/

/-- What a request for more bytes brings: no bytes are the end. -/
inductive Delivery where
  | bytes (bytes : ByteArray)
  | interrupted
  | failed (reason : String)

/-- The bytes up to the end of a stream. An interruption is no failure; what has nothing more to
deliver is at its end. -/
def gatherBytes : List Delivery → Except ReadError ByteArray
  | [] => .ok .empty
  | .interrupted :: rest => gatherBytes rest
  | .failed reason :: _ => .error (.inaccessible (.failed reason))
  | .bytes chunk :: rest =>
    if chunk.isEmpty then .ok .empty
    else
      match gatherBytes rest with
      | .ok bytes => .ok (chunk ++ bytes)
      | .error e => .error e

/-- Reads a document from a stream. -/
def ofStream (deliveries : List Delivery) : Outcome Document :=
  match gatherBytes deliveries with
  | .ok bytes => ofBytes scan bytes
  | .error e => Outcome.fail e

/-! ## Files -/

/-- A file's name without its last extension. A point at the very beginning begins no extension. -/
def stem (name : List Char) : List Char :=
  match (name.reverse.dropWhile (· != '.')).reverse with
  | [] => name
  | beforeAndPoint =>
    let before := beforeAndPoint.dropLast
    if before.isEmpty then name else before

/-- Reads a document from a file of the given name. Without a title of its own it is called by the
name without the extension. -/
def ofFile (name : String) (content : Except AccessFault ByteArray) : Outcome Document :=
  match content with
  | .error fault => Outcome.fail (.inaccessible fault)
  | .ok bytes => do
    let d ← ofBytes scan bytes
    pure (if d.title.isEmpty then { d with title := String.ofList (stem name.toList) } else d)

end IconCode.Reader
