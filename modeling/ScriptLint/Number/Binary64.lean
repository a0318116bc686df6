
namespace ScriptLint

/-- A 64-bit binary floating-point number, by its bit pattern. -/
structure Binary64 where
  bits : UInt64
  deriving DecidableEq, Inhabited

namespace Binary64

def zero : Binary64 := ⟨0⟩

def infinity : Binary64 := ⟨0x7ff0000000000000⟩

/-- Numerator and denominator of `m / n · 2 ^ e`. -/
private def scale (m n : Nat) (e : Int) : Nat × Nat :=
  if 0 ≤ e then (m * Nat.pow 2 e.toNat, n) else (m, n * Nat.pow 2 (-e).toNat)

/-- The quotient rounded to the nearest whole number, a tie going to the even one. -/
def roundDiv (m n : Nat) : Nat :=
  let q := m / n
  let twice := 2 * (m % n)
  if twice < n then q else if n < twice then q + 1 else q + q % 2

/-- The exponent `k` with `2 ^ k ≤ m / n < 2 ^ (k + 1)`, for positive `m` and `n`. -/
private def binaryExponent (m n : Nat) : Int :=
  let k : Int := (Nat.log2 m : Int) - (Nat.log2 n : Int)
  let (a, b) := scale m n (-k)
  if b ≤ a then k else k - 1

/-- The number nearest to `m / n`. A value past the largest finite number becomes infinity. -/
def ofRatio (m n : Nat) : Binary64 :=
  if m = 0 ∨ n = 0 then zero
  else
    let step : Int := max (binaryExponent m n - 52) (-1074)
    let (a, b) := scale m n (-step)
    let bits := (step + 1074).toNat * 0x10000000000000 + roundDiv a b
    if infinity.bits.toNat ≤ bits then infinity else ⟨UInt64.ofNat bits⟩

def ofNat (n : Nat) : Binary64 := ofRatio n 1

/-- The number nearest to `m · 10 ^ e`. Exponents far outside the range are decided at once. -/
def ofDecimal (m : Nat) (e : Int) : Binary64 :=
  if m = 0 then zero
  else if 400 < e then infinity
  else if e < -400 - (Nat.log2 m : Int) then zero
  else if 0 ≤ e then ofRatio (m * Nat.pow 10 e.toNat) 1
  else ofRatio m (Nat.pow 10 (-e).toNat)

/-- Whether two numbers compare equal: the two zeros do, and a not-a-number equals nothing. -/
def eqv (a b : Binary64) : Bool :=
  let magnitude (x : Binary64) := x.bits &&& 0x7fffffffffffffff
  if infinity.bits < magnitude a || infinity.bits < magnitude b then false
  else a.bits == b.bits || (magnitude a == 0 && magnitude b == 0)

end Binary64
end ScriptLint
