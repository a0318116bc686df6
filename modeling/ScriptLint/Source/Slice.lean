import ScriptLint.Source.Span

namespace ScriptLint

/-- Number of bytes that a text occupies. -/
def byteLength (text : List Char) : Nat := text.foldr (fun c n => c.utf8Size + n) 0

/-- What is left of a text after its first `n` bytes. -/
def dropBytes : Nat → List Char → Option (List Char)
  | 0, text => some text
  | _ + 1, [] => none
  | n + 1, c :: text => if c.utf8Size ≤ n + 1 then dropBytes (n + 1 - c.utf8Size) text else none

/-- The first `n` bytes of a text. -/
def takeBytes : Nat → List Char → Option (List Char)
  | 0, _ => some []
  | _ + 1, [] => none
  | n + 1, c :: text =>
    if c.utf8Size ≤ n + 1 then (takeBytes (n + 1 - c.utf8Size) text).map (c :: ·) else none

/-- The bytes from `start` up to `stop`, if both are places of the text in this order. -/
def slice? (text : List Char) (start stop : Nat) : Option (List Char) :=
  if start ≤ stop then (dropBytes start text).bind (takeBytes (stop - start)) else none

/-- The text of a span, empty where the span does not lie on characters of the source. -/
def Span.slice (s : Span) (text : List Char) : String :=
  String.ofList ((slice? text s.start s.stop).getD [])

/-- The place at a byte offset, if the offset lies between two characters. -/
def position? (text : List Char) (offset : Nat) : Option Position :=
  (takeBytes offset text).map Position.origin.after

end ScriptLint
