import ScriptLint.Number.Binary64
import ScriptLint.Text.Search
import ScriptLint.Toml.Basic
import ScriptLint.Toml.Text

namespace ScriptLint
namespace Toml

/-- Digits in groups, with a single underscore between two of them. The result has none. -/
def groupedDigits? (isDigit : Char → Bool) (text : List Char) : Option (List Char) :=
  let groups := pieces '_' text
  if groups.all fun group => !group.isEmpty && group.all isDigit then some groups.flatten
  else none

/-- The value of digits in a base. -/
def digitsValue (base : Nat) (digits : List Char) : Nat :=
  digits.foldl (fun n c => base * n + (Escape.hexValue? c).getD 0) 0

/-- A whole number of decimal digits that does not begin with a zero it does not need. -/
def wholeDigits? (text : List Char) : Option (List Char) :=
  match groupedDigits? Char.isDigit text with
  | some ('0' :: _ :: _) => none
  | digits => digits

/-- A number without its sign, and whether it was negative. -/
def splitSign : List Char → Bool × List Char
  | '+' :: text => (false, text)
  | '-' :: text => (true, text)
  | text => (false, text)

/-- A number that fits into a word of 64 bits with sign. -/
def word? (value : Int) : Option Value :=
  if -0x8000000000000000 ≤ value && value < 0x8000000000000000 then some (.integer value) else none

def inBase? (base : Nat) (isDigit : Char → Bool) (text : List Char) : Option Value :=
  (groupedDigits? isDigit text).bind fun digits => word? (digitsValue base digits)

def isHexDigit (c : Char) : Bool := (Escape.hexValue? c).isSome

def integer? : List Char → Option Value
  | '0' :: 'x' :: text => inBase? 16 isHexDigit text
  | '0' :: 'o' :: text => inBase? 8 (fun c => '0' ≤ c && c ≤ '7') text
  | '0' :: 'b' :: text => inBase? 2 (fun c => c == '0' || c == '1') text
  | text =>
    let (negative, digits) := splitSign text
    (wholeDigits? digits).bind fun digits =>
      let value : Int := digitsValue 10 digits
      word? (if negative then -value else value)

/-- The exponent after `e`. -/
def exponent? (text : List Char) : Option Int :=
  let (negative, digits) := splitSign text
  (groupedDigits? Char.isDigit digits).map fun digits =>
    let value : Int := digitsValue 10 digits
    if negative then -value else value

/-- Whether the text is a number with a fraction or an exponent. One past the largest number is
refused. -/
def isDecimal (text : List Char) : Bool :=
  let (negative, text) := splitSign text
  let isMark (c : Char) : Bool := c == 'e' || c == 'E'
  let mantissa := text.takeWhile fun c => !isMark c
  let exponent := (text.dropWhile fun c => !isMark c).drop 1
  let scaled (digits : List Char) (places : Nat) : Bool :=
    match if mantissa.length == text.length then some 0 else exponent? exponent with
    | some e => negative || Binary64.ofDecimal (digitsValue 10 digits) (e - places) != .infinity
    | none => false
  match splitAtFirst? ['.'] mantissa with
  | some (whole, fraction) =>
    match wholeDigits? whole, groupedDigits? Char.isDigit fraction with
    | some whole, some fraction => scaled (whole ++ fraction) fraction.length
    | _, _ => false
  | none =>
    match wholeDigits? mantissa with
    | some whole => mantissa.length != text.length && scaled whole 0
    | none => false

def isSpecialFloat (text : List Char) : Bool :=
  let (_, text) := splitSign text
  text == "inf".toList || text == "nan".toList

/-- The value of exactly `count` digits, if it lies between two bounds. -/
def fixedDigits? (count low high : Nat) (text : List Char) : Option Nat :=
  let value := digitsValue 10 text
  if text.length == count && text.all Char.isDigit && low ≤ value && value ≤ high then some value
  else none

def daysInMonth (year month : Nat) : Nat :=
  if month == 2 then if year % 4 == 0 && (year % 100 != 0 || year % 400 == 0) then 29 else 28
  else if month == 4 || month == 6 || month == 9 || month == 11 then 30 else 31

def isDay (text : List Char) : Bool :=
  match pieces '-' text with
  | [year, month, day] =>
    match fixedDigits? 4 0 9999 year, fixedDigits? 2 1 12 month with
    | some y, some m => (fixedDigits? 2 1 (daysInMonth y m) day).isSome
    | _, _ => false
  | _ => false

def isTime (text : List Char) : Bool :=
  match pieces ':' text with
  | [hour, minute, second] =>
    let fraction := second.drop 2
    (fixedDigits? 2 0 23 hour).isSome && (fixedDigits? 2 0 59 minute).isSome &&
      (fixedDigits? 2 0 60 (second.take 2)).isSome &&
      match fraction with
      | [] => true
      | '.' :: digits => !digits.isEmpty && digits.all Char.isDigit
      | _ => false
  | _ => false

def isOffset : List Char → Bool
  | ['Z'] | ['z'] => true
  | c :: text =>
    (c == '+' || c == '-') &&
      match pieces ':' text with
      | [hour, minute] => (fixedDigits? 2 0 23 hour).isSome && (fixedDigits? 2 0 59 minute).isSome
      | _ => false
  | [] => false

/-- A time with or without its distance from universal time. -/
def isTimeWithOffset (text : List Char) : Bool :=
  let ends (c : Char) : Bool := c == 'Z' || c == 'z' || c == '+' || c == '-'
  let offset := text.dropWhile fun c => !ends c
  isTime (text.takeWhile fun c => !ends c) && (offset.isEmpty || isOffset offset)

/-- A day, a time, or both. -/
def isDate (text : List Char) : Bool :=
  isTime text || isDay text ||
    match text.drop 10 with
    | c :: time => (c == 'T' || c == 't' || c == ' ') && isDay (text.take 10) &&
        isTimeWithOffset time
    | [] => false

/-- Characters of numbers, dates and truth values. -/
def isScalarChar (c : Char) : Bool :=
  c.isAlphanum || c == '+' || c == '-' || c == '_' || c == '.' || c == ':'

/-- The run of characters of a value, together with the time after a day and a blank. -/
def scalarRun (text : List Char) : List Char × List Char :=
  let run := text.takeWhile isScalarChar
  let rest := text.dropWhile isScalarChar
  match rest with
  | ' ' :: c :: time =>
    if isDay run && c.isDigit then
      (run ++ ' ' :: (c :: time).takeWhile isScalarChar, (c :: time).dropWhile isScalarChar)
    else (run, rest)
  | _ => (run, rest)

def scalar? (text : List Char) : Option Value :=
  if text == "true".toList then some (.boolean true)
  else if text == "false".toList then some (.boolean false)
  else if isDate text then some .date
  else if isDecimal text || isSpecialFloat text then some .float
  else integer? text

end Toml
end ScriptLint
