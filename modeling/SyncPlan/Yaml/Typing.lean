import SyncPlan.ConfigFile.Defect
import SyncPlan.Yaml.Event

/-!
What a scalar of a YAML document gives: text, or by its spelling an integer, a float, a boolean or
nothing. Integers have a base mark in lower case and no leading zeros in base ten.
-/

namespace SyncPlan.Yaml

def boolean? (s : String) : Option Bool :=
  if ["true", "True", "TRUE"].contains s then some true
  else if ["false", "False", "FALSE"].contains s then some false
  else none

def isNull (s : String) : Bool := ["null", "Null", "NULL", "~"].contains s

def isSign (c : Char) : Bool := c == '+' || c == '-'

/-- Digits with a leading zero, after at most one sign, are no numeral. -/
def hasLeadingZero (cs : List Char) : Bool :=
  let digits := if cs.head?.any isSign then cs.drop 1 else cs
  digits.length > 1 && digits.head? == some '0' && digits.all Char.isDigit

def baseOfMark? : Char → Option Nat
  | 'x' => some 16
  | 'o' => some 8
  | 'b' => some 2
  | _ => none

/-- The value of a numeral with a base mark. -/
def marked? : List Char → Option Nat
  | '0' :: m :: cs => do Text.natural? (← baseOfMark? m) cs
  | _ => none

/-- An integer that is written without a minus sign, in one of the bases. -/
def nonnegative? (cs : List Char) : Option Nat :=
  let body := if cs.head? == some '+' then cs.drop 1 else cs
  match marked? body with
  | some n => some n
  | none => if hasLeadingZero cs then none else Text.natural? 10 body

/-- An integer that is written with a minus sign, in one of the bases. -/
def negative? (cs : List Char) : Option Int :=
  if cs.head? == some '-' then
    match marked? (cs.drop 1) with
    | some n => some (-n)
    | none => if hasLeadingZero cs then none else (Text.natural? 10 (cs.drop 1)).map (-Int.ofNat ·)
  else none

def integer? (cs : List Char) : Option Int :=
  match nonnegative? cs with
  | some n => some n
  | none => negative? cs

/-- Integers are told as such up to a hundred and twenty-eight bits. -/
def wideInteger? (cs : List Char) : Option Int :=
  (integer? cs).filter fun n => -Text.boundOfBits 127 ≤ n ∧ n < Text.boundOfBits 128

def float? (s : String) : Option Double :=
  if [".inf", ".Inf", ".INF", "+.inf", "+.Inf", "+.INF"].contains s then some (.infinite false)
  else if ["-.inf", "-.Inf", "-.INF"].contains s then some (.infinite true)
  else if [".nan", ".NaN", ".NAN"].contains s then some .nan
  else (Double.ofDecimal? s.toList).filter Double.isFinite

/-- What the spelling of a plain scalar gives. -/
def givenOfPlain (s : String) : Given :=
  if s.isEmpty || isNull s then .unit
  else match boolean? s with
  | some b => .boolean b
  | none =>
    match wideInteger? s.toList with
    | some n => .integer n
    | none =>
      match if hasLeadingZero s.toList then none else float? s with
      | some x => .float x
      | none => .text s

/-- A tag of the core schema. -/
def coreTag (name : String) : Octets := asciiOctets ("tag:yaml.org,2002:" ++ name).toList

/-- The failure of a scalar where something else is wanted. A tag of the core schema decides what
the scalar gives, and is itself not met by some texts. -/
def scalarDefect (tag : Option Octets) (style : Style) (s : String) (wanted : Wanted) : Defect :=
  let wrong (given : Option Given) (kind : Wanted) : Defect :=
    match given with
    | some g => .wrongType g wanted
    | none => .wrongValue (.text s) kind
  let untagged : Given := if style == .plain then givenOfPlain s else .text s
  match tag with
  | none => .wrongType untagged wanted
  | some t =>
    if t == coreTag "bool" then wrong ((boolean? s).map .boolean) .switch
    else if t == coreTag "int" then wrong ((wideInteger? s.toList).map .integer) .integer
    else if t == coreTag "float" then wrong ((float? s).map .float) .float
    else if t == coreTag "null" then wrong (if isNull s then some .unit else none) .null
    else if t.head? == (asciiOctets ['!']).head? then .wrongType untagged wanted
    else .wrongType (.text s) wanted

end SyncPlan.Yaml
