
namespace ScriptLint
namespace Escape

/-- The value of a hexadecimal digit. -/
def hexValue? (c : Char) : Option Nat :=
  if '0' ≤ c ∧ c ≤ '9' then some (c.toNat - '0'.toNat)
  else if 'a' ≤ c ∧ c ≤ 'f' then some (c.toNat - 'a'.toNat + 10)
  else if 'A' ≤ c ∧ c ≤ 'F' then some (c.toNat - 'A'.toNat + 10)
  else none

/-- The value of a run of hexadecimal digits read after `value`. -/
def hexFrom? (value : Nat) : List Char → Option Nat
  | [] => some value
  | c :: cs => (hexValue? c).bind fun d => hexFrom? (16 * value + d) cs

/-- The value of hexadecimal digits; one plus sign may stand before them. -/
def hex? : List Char → Option Nat
  | [] => none
  | ['+'] => none
  | '+' :: cs => hexFrom? 0 cs
  | cs => hexFrom? 0 cs

/-- The character with a code point, if there is one: surrogates are no characters. -/
def char? (n : Nat) : Option Char :=
  if n.isValidChar then some (Char.ofNat n) else none

/-- What an escape with the given hexadecimal digits stands for. -/
def resolve (digits : List Char) : List Char :=
  match (hex? digits).bind char? with
  | some c => [c]
  | none => digits

/-- What a backslash before the character stands for, the hexadecimal escapes apart. -/
def simple (c : Char) : List Char :=
  match c with
  | 'n' => ['\n']
  | 'r' => ['\r']
  | 't' => ['\t']
  | 'b' => ['\x08']
  | 'f' => ['\x0c']
  | 'v' => ['\x0b']
  | '0' => ['\x00']
  | '\n' => []
  | c => [c]

/-- Where a reader of a string body stands. Collected digits are in reverse. -/
inductive Mode where
  | plain
  /-- After a backslash. -/
  | escaped
  /-- After `\u`, where an opening brace may follow. -/
  | unicode
  /-- Inside an escape with `left + 1` digits still to come. -/
  | fixed (left : Nat) (digits : List Char)
  /-- Inside the braces of `\u`. -/
  | braced (digits : List Char)

/-- Reads a string body from a mode. -/
def read : Mode → List Char → List Char
  | .plain, [] => []
  | .plain, '\\' :: cs => read .escaped cs
  | .plain, c :: cs => c :: read .plain cs
  | .escaped, [] => []
  | .escaped, 'x' :: cs => read (.fixed 1 []) cs
  | .escaped, 'u' :: cs => read .unicode cs
  | .escaped, c :: cs => simple c ++ read .plain cs
  | .unicode, [] => []
  | .unicode, '{' :: cs => read (.braced []) cs
  | .unicode, c :: cs => read (.fixed 2 [c]) cs
  | .fixed _ digits, [] => resolve digits.reverse
  | .fixed 0 digits, c :: cs => resolve (c :: digits).reverse ++ read .plain cs
  | .fixed (n + 1) digits, c :: cs => read (.fixed n (c :: digits)) cs
  | .braced digits, [] => resolve digits.reverse
  | .braced digits, '}' :: cs => resolve digits.reverse ++ read .plain cs
  | .braced digits, c :: cs => read (.braced (c :: digits)) cs

end Escape

/-- Resolves the escapes of a string literal's body. -/
def unescape (body : String) : String := String.ofList (Escape.read .plain body.toList)

end ScriptLint
