import SyncPlan.Toml.Value

/-!
The numerals of a TOML document: integers in four bases, floats, and dates and times. A numeral is
the longest run of the characters that any of them can have.
-/

namespace SyncPlan.Toml

/-- Digits of a base, single low lines standing between two of them at most, without those lines. -/
def grouped? (base : Nat) : List Char → Option (List Char)
  | [] => none
  | [c] => if Text.isDigitIn base c then some [c] else none
  | c :: '_' :: rest =>
    if Text.isDigitIn base c then (grouped? base rest).map (c :: ·) else none
  | c :: rest => if Text.isDigitIn base c then (grouped? base rest).map (c :: ·) else none

def splitSign : List Char → Bool × List Char
  | '-' :: cs => (true, cs)
  | '+' :: cs => (false, cs)
  | cs => (false, cs)

/-- The whole part of a number in base ten, which has no leading zero. -/
def whole? (cs : List Char) : Option (List Char) :=
  (grouped? 10 cs).filter fun _ => cs.head? != some '0' || cs.length == 1

def inRange (n : Int) : Bool := -Text.boundOfBits 63 ≤ n && n < Text.boundOfBits 63

def integer? (cs : List Char) : Option Int :=
  let based (base : Nat) (cs : List Char) : Option Int :=
    (grouped? base cs).map fun digits => (Text.digitsValue base digits : Int)
  let n : Option Int := match cs with
    | '0' :: 'x' :: cs => based 16 cs
    | '0' :: 'o' :: cs => based 8 cs
    | '0' :: 'b' :: cs => based 2 cs
    | cs =>
      let (negative, cs) := splitSign cs
      (whole? cs).map fun digits =>
        let n : Int := Text.digitsValue 10 digits
        if negative then -n else n
  n.filter inRange

/-- The power of ten behind a mantissa, which may be missing. -/
def power? : List Char → Option Int
  | [] => some 0
  | _ :: cs => do
    let (negative, cs) := splitSign cs
    let digits ← grouped? 10 cs
    let n : Int := Text.digitsValue 10 digits
    some (if negative then -n else n)

def isPowerMark (c : Char) : Bool := c == 'e' || c == 'E'

/-- A number with a fraction, a power of ten or both. One too large is refused, unless it is
negative. -/
def decimal? (cs : List Char) : Option Double := do
  let (negative, cs) := splitSign cs
  let mantissa := cs.takeWhile (!isPowerMark ·)
  let tail := cs.dropWhile (!isPowerMark ·)
  let digits ← whole? (mantissa.takeWhile (· != '.'))
  let fraction ← match mantissa.dropWhile (· != '.') with
    | [] => some []
    | _ :: cs => grouped? 10 cs
  guard (!(fraction.isEmpty && tail.isEmpty))
  let power ← power? tail
  let x := Double.ofScientific negative (Text.digitsValue 10 (digits ++ fraction))
    (power - fraction.length)
  if x = .infinite false then none else some x

def float? (cs : List Char) : Option Double :=
  let (negative, word) := splitSign cs
  if word == "inf".toList then some (.infinite negative)
  else if word == "nan".toList then some .nan
  else decimal? cs

/-- Two digits in a range. -/
def twoDigits? (low high : Nat) : List Char → Option (Nat × List Char)
  | a :: b :: rest => do
    let n ← Text.natural? 10 [a, b]
    if low ≤ n && n ≤ high then some (n, rest) else none
  | _ => none

def pass? (c : Char) : List Char → Option (List Char)
  | d :: rest => if c == d then some rest else none
  | [] => none

def daysIn (year month : Nat) : Nat :=
  if month == 2 then
    if year % 4 == 0 && (year % 100 != 0 || year % 400 == 0) then 29 else 28
  else if month == 4 || month == 6 || month == 9 || month == 11 then 30
  else 31

/-- Passes a date. -/
def date? (cs : List Char) : Option (List Char) := do
  guard (4 ≤ cs.length)
  let year ← Text.natural? 10 (cs.take 4)
  let (month, cs) ← twoDigits? 1 12 (← pass? '-' (cs.drop 4))
  let (_, cs) ← twoDigits? 1 (daysIn year month) (← pass? '-' cs)
  some cs

/-- Passes a time of day, with a fraction of its seconds if it has one. -/
def time? (cs : List Char) : Option (List Char) := do
  let (_, cs) ← twoDigits? 0 23 cs
  let (_, cs) ← twoDigits? 0 59 (← pass? ':' cs)
  let (_, cs) ← twoDigits? 0 60 (← pass? ':' cs)
  match cs with
  | '.' :: d :: cs => if d.isDigit then some (cs.dropWhile Char.isDigit) else none
  | cs => some cs

/-- Passes the distance to universal time, if it is told. -/
def offset? : List Char → Option (List Char)
  | [] => some []
  | c :: cs =>
    if c == 'Z' || c == 'z' then some cs
    else if c == '+' || c == '-' then do
      let (_, cs) ← twoDigits? 0 23 cs
      let (_, cs) ← twoDigits? 0 59 (← pass? ':' cs)
      some cs
    else some (c :: cs)

/-- A time of day and its offset, and nothing else. -/
def isTime (cs : List Char) : Bool := ((time? cs).bind offset?) == some []

/-- A date, a time of day, or both with a letter between them. -/
def isDatetime (cs : List Char) : Bool :=
  match date? cs with
  | some [] => true
  | some (c :: rest) => (c == 'T' || c == 't') && isTime rest
  | none => time? cs == some []

def isNumeralChar (c : Char) : Bool :=
  c.isAlphanum || c == '_' || c == '+' || c == '-' || c == '.' || c == ':'

/-- A date that a blank parts from a time of day is one value with it. -/
def spacedTime? (cs rest : List Char) : Option (List Char) :=
  match date? cs, rest with
  | some [], ' ' :: rest =>
    if isTime (rest.takeWhile isNumeralChar) then some (rest.dropWhile isNumeralChar) else none
  | _, _ => none

/-- A numeral or one of the words for booleans and for the floats that have no digits. -/
def numeral? (cs : List Char) : Option (Value × List Char) :=
  let word := cs.takeWhile isNumeralChar
  let rest := cs.dropWhile isNumeralChar
  if word == "true".toList then some (.boolean true, rest)
  else if word == "false".toList then some (.boolean false, rest)
  else match integer? word with
  | some n => some (.integer n, rest)
  | none =>
    match float? word with
    | some x => some (.float x, rest)
    | none =>
      if isDatetime word then some (.datetime, (spacedTime? word rest).getD rest) else none

end SyncPlan.Toml
