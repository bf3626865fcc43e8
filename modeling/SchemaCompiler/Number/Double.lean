/-! Binary floating-point numbers of double precision, held exactly: a sign, a mantissa and a power
of two. `Double.ofDecimal` rounds a decimal to the nearest of them, a tie going to the even
mantissa, and `Double.toInt?` reads off the integer a number stands for. -/

namespace SchemaCompiler

/-- A number of double precision; a finite one is `mantissa * 2 ^ exponent` with its sign. -/
inductive Double where
  | nan
  | infinite (negative : Bool)
  | finite (negative : Bool) (mantissa : Nat) (exponent : Int)
  deriving DecidableEq, Repr, Inhabited

/-- The integer nearest to `num / den`, a half going to the even neighbour. -/
def roundHalfEven (num den : Nat) : Nat :=
  let q := num / den
  let r := num % den
  if 2 * r > den ∨ (2 * r = den ∧ q % 2 = 1) then q + 1 else q

/-- A power; the exponent counts as zero if it is negative. -/
def power (base : Nat) (exponent : Int) : Nat :=
  Nat.pow base exponent.toNat

namespace Double

/-- The least exponent of two; numbers this small lose leading bits of their mantissa. -/
def minExponent : Int := -1074

def maxExponent : Int := 971

def leadingBit (num den : Nat) : Int :=
  let k : Int := (num.log2 : Int) - den.log2
  if den * power 2 k ≤ num * power 2 (-k) then k else k - 1

def ofRatio (negative : Bool) (num den : Nat) : Double :=
  if num = 0 then .finite negative 0 minExponent
  else
    let e := max minExponent (leadingBit num den - 52)
    let m := roundHalfEven (num * power 2 (-e)) (den * power 2 e)
    let (m, e) := if m = power 2 53 then (power 2 52, e + 1) else (m, e)
    if e > maxExponent then .infinite negative else .finite negative m e

/-- The number nearest to `digits * 10 ^ exponent`. Far outside the range of the format no power
of ten is built. -/
def ofDecimal (negative : Bool) (digits : Nat) (exponent : Int) : Double :=
  let size : Int := (Nat.toDigits 10 digits).length + exponent
  if digits = 0 ∨ size < -400 then .finite negative 0 minExponent
  else if size > 400 then .infinite negative
  else ofRatio negative (digits * power 10 exponent) (power 10 (-exponent))

def toInt? : Double → Option Int
  | .finite negative m e =>
    let num := m * power 2 e
    let den := power 2 (-e)
    if num % den = 0 then
      let n : Int := (num / den : Nat)
      some (if negative then -n else n)
    else none
  | _ => none

end Double

end SchemaCompiler
