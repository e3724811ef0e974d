import SyncPlan.Text.Numeral

/-!
Double precision numbers as a sign, a mantissa and a power of two, and the nearest one to a decimal
numeral, a half going to the even neighbour.
-/

namespace SyncPlan

/-- A finite value is its mantissa times two to its exponent. The mantissa has fifty-three bits, or
fewer at the least exponent. -/
inductive Double
  | finite (negative : Bool) (mantissa : Nat) (exponent : Int)
  | infinite (negative : Bool)
  | nan
  deriving DecidableEq, Repr

namespace Double

def leastExponent : Int := -1074

/-- Two to a power, one below zero counting as zero. -/
def twoTo (power : Int) : Nat := Nat.pow 2 power.toNat

/-- Ten to a power, one below zero counting as zero. -/
def tenTo (power : Int) : Nat := Nat.pow 10 power.toNat

/-- The quotient rounded to the nearest whole number, a half to the even one. -/
def roundDiv (num den : Nat) : Nat :=
  let q := num / den
  let r := num % den
  if 2 * r < den || (2 * r == den && q % 2 == 0) then q else q + 1

/-- The power of two at or below a positive fraction. -/
def floorLog2 (num den : Nat) : Int :=
  let f : Int := num.log2 - den.log2
  if den * twoTo f ≤ num * twoTo (-f) then f else f - 1

/-- The double nearest to a fraction. -/
def ofFraction (negative : Bool) (num den : Nat) : Double :=
  if num = 0 then .finite negative 0 leastExponent
  else
    let e := max (floorLog2 num den - 52) leastExponent
    let m := roundDiv (num * twoTo (-e)) (den * twoTo e)
    let (m, e) := if m = twoTo 53 then (twoTo 52, e + 1) else (m, e)
    if e > 971 then .infinite negative else .finite negative m e

/-- The double nearest to a whole number times a power of ten. -/
def ofScientific (negative : Bool) (n : Nat) (power : Int) : Double :=
  let size : Int := (Nat.toDigits 10 n).length
  if n = 0 then .finite negative 0 leastExponent
  else if 310 < power + size then .infinite negative
  else if power + size < -330 then .finite negative 0 leastExponent
  else ofFraction negative (n * tenTo power) (tenTo (-power))

/-- The power of ten behind a mantissa: nothing, or a letter and a whole number. -/
def powerOfTen? : List Char → Option Int
  | [] => some 0
  | c :: cs => if c == 'e' || c == 'E' then Text.signed? 10 cs else none

/-- A numeral without a sign: digits with a point before, between or behind them, and a power of
ten. -/
def unsigned? (negative : Bool) (cs : List Char) : Option Double := do
  let whole := cs.takeWhile Char.isDigit
  let rest := cs.dropWhile Char.isDigit
  let (fraction, rest) :=
    if rest.head? == some '.' then
      ((rest.drop 1).takeWhile Char.isDigit, (rest.drop 1).dropWhile Char.isDigit)
    else ([], rest)
  guard (!(whole.isEmpty && fraction.isEmpty))
  let power ← powerOfTen? rest
  let n := Text.digitsValue 10 (whole ++ fraction)
  some (ofScientific negative n (power - fraction.length))

/-- A decimal numeral with at most one sign. -/
def ofDecimal? : List Char → Option Double
  | '-' :: cs => unsigned? true cs
  | '+' :: cs => unsigned? false cs
  | cs => unsigned? false cs

def isFinite : Double → Bool
  | .finite .. => true
  | _ => false

end Double

end SyncPlan
