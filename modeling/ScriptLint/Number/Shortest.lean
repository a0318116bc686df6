import ScriptLint.Number.Binary64

namespace ScriptLint
namespace Binary64

/-- A finite magnitude `mantissa · 2 ^ exponent`, and whether the gap below it is half the gap
above it. -/
private structure Magnitude where
  mantissa : Nat
  exponent : Int
  narrowBelow : Bool

private def magnitude (x : Binary64) : Magnitude :=
  let fraction : Nat := x.bits.toNat % 0x10000000000000
  let field : Nat := x.bits.toNat / 0x10000000000000 % 0x800
  if field = 0 then ⟨fraction, -1074, false⟩
  else ⟨fraction + 0x10000000000000, (field : Int) - 1075, fraction == 0 && 1 < field⟩

/-- Compares `a · 2 ^ e` with `b · 10 ^ f`, exactly. -/
private def compareScaled (a : Nat) (e : Int) (b : Nat) (f : Int) : Ordering :=
  let left := a * Nat.pow 2 e.toNat * Nat.pow 10 (-f).toNat
  let right := b * Nat.pow 10 f.toNat * Nat.pow 2 (-e).toNat
  compare left right

/-- The exponent `k` with `10 ^ k ≤ m · 2 ^ e < 10 ^ (k + 1)`, searched upwards from a bound
below it. -/
private def decimalExponent (m : Nat) (e : Int) : Nat → Int → Int
  | 0, k => k
  | fuel + 1, k =>
    if compareScaled m e 1 (k + 1) = .lt then k else decimalExponent m e fuel (k + 1)

/-- Digits and decimal exponent of the best approximation on the grid of multiples of
`10 ^ f`, if one reads back as the number. -/
private def onGrid? (x : Magnitude) (f : Int) : Option Nat :=
  let quarter := x.exponent - 2
  let value := 4 * x.mantissa
  let low := value - (if x.narrowBelow then 1 else 2)
  let high := value + 2
  let even := x.mantissa % 2 == 0
  let inside (d : Nat) : Bool :=
    let below := compareScaled low quarter d f
    let above := compareScaled high quarter d f
    (below == .lt || (even && below == .eq)) && (above == .gt || (even && above == .eq))
  let d := value * Nat.pow 2 quarter.toNat * Nat.pow 10 (-f).toNat /
    (Nat.pow 10 f.toNat * Nat.pow 2 (-quarter).toNat)
  match inside d, inside (d + 1) with
  | true, true =>
    -- twice the value against the sum of the two neighbours
    if compareScaled (2 * value) quarter (2 * d + 1) f = .lt then some d else some (d + 1)
  | true, false => some d
  | false, true => some (d + 1)
  | false, false => none

private def searchGrids (x : Magnitude) (top : Int) : Nat → Nat → Nat × Int
  | 0, digits => ((onGrid? x (top - digits)).getD 0, top - digits)
  | fuel + 1, digits =>
    match onGrid? x (top - digits) with
    | some d => (d, top - digits)
    | none => searchGrids x top fuel (digits + 1)

/-- The fewest digits that read back as a positive finite number, with their exponent. -/
private def shortest (x : Magnitude) : Nat × Int :=
  let guess : Int := ((Nat.log2 x.mantissa : Int) + x.exponent) * 3 / 10 - 4
  let top := decimalExponent x.mantissa x.exponent 16 guess
  searchGrids x top 17 0

/-- Writes `digits · 10 ^ exponent` without an exponent. -/
private def positional (digits : Nat) (exponent : Int) : String :=
  let text := Nat.toDigits 10 digits
  if 0 ≤ exponent then String.ofList (text ++ List.replicate exponent.toNat '0')
  else
    let places := (-exponent).toNat
    let padded := List.replicate (places + 1 - text.length) '0' ++ text
    let whole := padded.take (padded.length - places)
    let fraction := (padded.drop (padded.length - places)).reverse.dropWhile (· == '0') |>.reverse
    if fraction.isEmpty then String.ofList whole
    else String.ofList (whole ++ '.' :: fraction)

/-- The decimal text of a number. Whole numbers have no point. -/
def toDecimal (x : Binary64) : String :=
  let unsigned := x.bits &&& 0x7fffffffffffffff
  if infinity.bits < unsigned then "NaN"
  else
    let sign := if unsigned = x.bits then "" else "-"
    if unsigned = infinity.bits then sign ++ "inf"
    else if unsigned = 0 then sign ++ "0"
    else
      let (digits, exponent) := shortest (magnitude x)
      sign ++ positional digits exponent

end Binary64
end ScriptLint
