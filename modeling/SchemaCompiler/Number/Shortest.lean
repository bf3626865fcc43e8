import SchemaCompiler.Number.Double

/-! The shortest decimal that reads back as a given number of double precision. The real numbers
that round to it form an interval; of the decimal grids with 1, 2, … 17 digits the first one with a
point in that interval is taken, and on it the point nearest to the number. -/

namespace SchemaCompiler

/-- A decimal `0.d₁d₂… * 10 ^ point`, without a zero at its end. -/
structure DecimalDigits where
  digits : List Char
  point : Int
  deriving DecidableEq, Repr, Inhabited

namespace DecimalDigits

/-- The digits of `n`, of which the last stands for `10 ^ unit`. -/
def ofNat (n : Nat) (unit : Int) : DecimalDigits :=
  let ds := Nat.toDigits 10 n
  ⟨(ds.reverse.dropWhile (· == '0')).reverse, ds.length + unit⟩

/-- The point of a grid nearest to `num / den` among its two neighbours that satisfies
`inside`; an exact tie goes to the even one. -/
def nearestInside (num den : Nat) (inside : Nat → Bool) : Option Nat :=
  let d := num / den
  let r := num % den
  match inside d, inside (d + 1) with
  | true, true => some (if 2 * r < den ∨ (2 * r = den ∧ d % 2 = 0) then d else d + 1)
  | true, false => some d
  | false, true => some (d + 1)
  | false, false => none

/-- The grid point with the fewest digits, from `count` digits on and with `more` tries, for the
number `num / den` and the interval of half-width `up` above and `down` below it, in quarters of
`den`. `point` is the number of digits before the decimal point. -/
def search (num den up down : Nat) (closed : Bool) (point : Int) :
    (more count : Nat) → Option DecimalDigits
  | 0, _ => none
  | more + 1, count =>
    let unit : Int := point - count
    let scale (n : Nat) := n * power 10 (-unit)
    let cell := den * power 10 unit
    let inside (d : Nat) : Bool :=
      let x := 4 * d * cell
      let low := scale (4 * num - down)
      let high := scale (4 * num + up)
      if closed then low ≤ x && x ≤ high else low < x && x < high
    match nearestInside (scale num) cell inside with
    | some d => some (ofNat d unit)
    | none => search num den up down closed point more (count + 1)

/-- The shortest decimal that rounds to `m * 2 ^ e`, for a positive mantissa. -/
def shortest (m : Nat) (e : Int) : DecimalDigits :=
  let num := m * power 2 e
  let den := power 2 (-e)
  let ulp := power 2 e
  let down := if m = power 2 52 ∧ e > Double.minExponent then ulp else 2 * ulp
  let size : Int := ((Nat.toDigits 10 num).length : Int) - (Nat.toDigits 10 den).length
  let point := if den * power 10 size ≤ num * power 10 (-size) then size + 1 else size
  (search num den (2 * ulp) down (m % 2 == 0) point 17 1).getD (ofNat num 0)

end DecimalDigits

namespace Double

/-- The digits written in scientific form, the exponent with at least two digits. -/
def scientific (d : DecimalDigits) : List Char :=
  let e := d.point - 1
  let digits := Nat.toDigits 10 e.natAbs
  let mantissa := match d.digits with
    | [] => ['0']
    | [c] => [c]
    | c :: r => c :: '.' :: r
  mantissa ++ ['e', if e < 0 then '-' else '+'] ++
    (if digits.length < 2 then '0' :: digits else digits)

/-- The digits written in positional form, always with a digit after the point. -/
def positional (d : DecimalDigits) : List Char :=
  if d.point ≤ 0 then
    '0' :: '.' :: (List.replicate (-d.point).toNat '0' ++ d.digits)
  else
    let n := d.point.toNat
    let whole := d.digits.take n ++ List.replicate (n - d.digits.length) '0'
    let fraction := d.digits.drop n
    whole ++ '.' :: (if fraction.isEmpty then ['0'] else fraction)

/-- A number's text: the fewest digits that read back, positional when the leading digit stands
for `10 ^ -4` up to `10 ^ 15` and scientific otherwise. -/
def text : Double → String
  | .nan => "nan"
  | .infinite negative => if negative then "-inf" else "inf"
  | .finite negative 0 _ => if negative then "-0.0" else "0.0"
  | .finite negative m e =>
    let d := DecimalDigits.shortest m e
    let body := if -4 < d.point ∧ d.point ≤ 16 then positional d else scientific d
    String.ofList (if negative then '-' :: body else body)

end Double

end SchemaCompiler
