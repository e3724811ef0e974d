/-!
White space at the ends of a text, and numerals in a base: the value of a digit, the value of a run
of digits, and the reading of a numeral into a range with the reason why it has no place there.
-/

namespace SyncPlan.Text

/-- The characters of the Unicode property `White_Space`. -/
def isSpace (c : Char) : Bool :=
  let n := c.toNat
  (9 ≤ n && n ≤ 13) || n == 0x20 || n == 0x85 || n == 0xA0 || n == 0x1680 ||
    (0x2000 ≤ n && n ≤ 0x200A) || n == 0x2028 || n == 0x2029 || n == 0x202F || n == 0x205F ||
    n == 0x3000

/-- What is left of a text without the characters of a class at its two ends. -/
def trimBy (p : Char → Bool) (cs : List Char) : List Char :=
  (((cs.dropWhile p).reverse).dropWhile p).reverse

def trim (cs : List Char) : List Char := trimBy isSpace cs

/-- One more than the greatest number of so many bits. -/
def boundOfBits (bits : Nat) : Nat := Nat.pow 2 bits

/-- The value of a digit or letter in the bases up to thirty-six. -/
def digitValue (c : Char) : Option Nat :=
  if '0' ≤ c && c ≤ '9' then some (c.toNat - '0'.toNat)
  else if 'a' ≤ c && c ≤ 'z' then some (c.toNat - 'a'.toNat + 10)
  else if 'A' ≤ c && c ≤ 'Z' then some (c.toNat - 'A'.toNat + 10)
  else none

def digitIn (base : Nat) (c : Char) : Option Nat := (digitValue c).filter (· < base)

def isDigitIn (base : Nat) (c : Char) : Bool := (digitIn base c).isSome

/-- The value of a run of digits, of which those outside the base count nothing. -/
def digitsValue (base : Nat) (cs : List Char) : Nat :=
  cs.foldl (fun n c => n * base + (digitIn base c).getD 0) 0

/-- A numeral without a sign. -/
def natural? (base : Nat) (cs : List Char) : Option Nat :=
  if cs.isEmpty || !cs.all (isDigitIn base) then none else some (digitsValue base cs)

/-- A numeral that may carry one sign. -/
def signed? (base : Nat) : List Char → Option Int
  | '-' :: cs => (natural? base cs).map fun n => -(n : Int)
  | '+' :: cs => (natural? base cs).map Int.ofNat
  | cs => (natural? base cs).map Int.ofNat

inductive NumeralFault
  | empty
  | badDigit
  | tooLarge
  | tooSmall
  deriving DecidableEq, Repr

def NumeralFault.message : NumeralFault → String
  | .empty => "cannot parse integer from empty string"
  | .badDigit => "invalid digit found in string"
  | .tooLarge => "number too large to fit in target type"
  | .tooSmall => "number too small to fit in target type"

/-- Reads digits from the left and stops at the first that is none in the base or that takes the
value past the limit; of the two at one digit the first counts. -/
def readDigits (base limit : Nat) (excess : NumeralFault) (start : Nat) :
    List Char → Except NumeralFault Nat
  | [] => .ok start
  | c :: cs =>
    match digitIn base c with
    | none => .error .badDigit
    | some d =>
      if start * base + d ≤ limit then readDigits base limit excess (start * base + d) cs
      else .error excess

def readDigits1 (base limit : Nat) (excess : NumeralFault) (cs : List Char) :
    Except NumeralFault Nat :=
  if cs.isEmpty then .error .badDigit else readDigits base limit excess 0 cs

/-- A numeral up to a limit, with at most a plus sign. -/
def readNatural (base limit : Nat) : List Char → Except NumeralFault Nat
  | [] => .error .empty
  | '+' :: cs => readDigits1 base limit .tooLarge cs
  | cs => readDigits1 base limit .tooLarge cs

/-- A numeral between the negation of one limit and another, with at most one sign. -/
def readInteger (base negative positive : Nat) : List Char → Except NumeralFault Int
  | [] => .error .empty
  | '-' :: cs => (readDigits1 base negative .tooSmall cs).map fun n => -(n : Int)
  | '+' :: cs => (readDigits1 base positive .tooLarge cs).map Int.ofNat
  | cs => (readDigits1 base positive .tooLarge cs).map Int.ofNat

end SyncPlan.Text
