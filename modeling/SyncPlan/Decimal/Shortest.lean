import SyncPlan.Decimal.Double

/-!
The text of a double: the fewest decimal digits that no other double is nearer to, of those the
nearest and of two equally near the greater, without a power of ten and with at least one digit
behind the point.
-/

namespace SyncPlan.Double

/-- The whole power of ten above a positive fraction. -/
def ceilLog10 (num den : Nat) : Int :=
  if den ≤ num then (Nat.toDigits 10 (num / den)).length
  else 1 - (Nat.toDigits 10 ((den - 1) / num)).length

/-- The digits of a double on the grid of so many decimal places that fall nearer to it than to any
other, if any do. In quarters of its last bit a double reaches two up and two down, and one down
when it is the least of its power of two. -/
def digitsAt? (mantissa : Nat) (exponent grid : Int) : Option Nat :=
  let four := 4 * mantissa
  let low := if mantissa = twoTo 52 ∧ exponent ≠ leastExponent then four - 1 else four - 2
  let high := four + 2
  -- A whole number of grid steps `x` and a whole number of quarters `y` compare as
  -- `x * step` and `y * quarter`.
  let step := tenTo grid * twoTo (2 - exponent)
  let quarter := tenTo (-grid) * twoTo (exponent - 2)
  let inside (x : Nat) : Bool :=
    if mantissa % 2 = 0 then low * quarter ≤ x * step && x * step ≤ high * quarter
    else low * quarter < x * step && x * step < high * quarter
  let x := four * quarter / step
  let nearBelow := 2 * (four * quarter % step) < step
  match inside x, inside (x + 1) with
  | true, true => some (if nearBelow then x else x + 1)
  | true, false => some x
  | false, true => some (x + 1)
  | false, false => none

/-- The shortest digits of a positive double, as a whole number and a power of ten. -/
def shortest (mantissa : Nat) (exponent : Int) : Nat × Int :=
  let top := ceilLog10 (mantissa * twoTo exponent) (twoTo (-exponent))
  let found := (List.range 17).findSome? fun n : Nat =>
    let grid : Int := top - (n + 1 : Nat)
    (digitsAt? mantissa exponent grid).map fun x => (x, grid)
  found.getD (mantissa, 0)

/-- A whole number of steps of some power of ten, with a point. -/
def positional (digits : List Char) (power : Int) : List Char :=
  let point : Int := digits.length + power
  if 0 ≤ power then digits ++ List.replicate power.toNat '0' ++ ['.', '0']
  else if 0 < point then digits.take point.toNat ++ '.' :: digits.drop point.toNat
  else ['0', '.'] ++ List.replicate (-point).toNat '0' ++ digits

def text : Double → String
  | .nan => "NaN"
  | .infinite negative => if negative then "-inf" else "inf"
  | .finite negative m e =>
    let sign := if negative then ['-'] else []
    if m = 0 then String.ofList (sign ++ ['0', '.', '0'])
    else
      let (n, power) := shortest m e
      let digits := Nat.toDigits 10 n
      let kept := (digits.reverse.dropWhile (· == '0')).reverse
      let power := power + (digits.length - kept.length : Nat)
      String.ofList (sign ++ positional kept power)

end SyncPlan.Double
