import Mathlib.Algebra.Field.Rat
import SyncPlan.Proofs.Numerals

/-!
The grammar of JSON: which texts are documents, and the value that each of them has. White space may
stand around every value and every mark, strings may use any escape, and numbers may have a fraction
and an exponent.
-/

namespace SyncPlan
open Text

/-- The value of a document. Numbers are exact, and an object keeps the order of its members. -/
inductive Datum
  | null
  | bool (b : Bool)
  | number (q : ℚ)
  | string (s : String)
  | array (items : List Datum)
  | object (members : List (String × Datum))

namespace Datum

def isBlank (c : Char) : Bool := c == ' ' || c == '\t' || c == '\n' || c == '\r'

def IsBlank (cs : List Char) : Prop := ∀ c ∈ cs, isBlank c = true

/-- The marks behind a backslash that stand for one character. -/
def escapes : List (Char × Char) := [
  ('"', '"'), ('\\', '\\'), ('/', '/'), ('b', '\x08'), ('f', '\x0c'), ('n', '\n'), ('r', '\r'),
  ('t', '\t')]

/-- Four hexadecimal digits and their value. -/
def IsCode (cs : List Char) (n : Nat) : Prop := cs.length = 4 ∧ natural? 16 cs = some n

/-- The codes that tell the first ten bits of a character past sixteen bits. -/
def isLeading (n : Nat) : Bool := 0xD800 ≤ n && n < 0xDC00

/-- The codes that tell the last ten. -/
def isTrailing (n : Nat) : Bool := 0xDC00 ≤ n && n < 0xE000

def pairValue (leading trailing : Nat) : Nat :=
  0x10000 + (leading - 0xD800) * 0x400 + (trailing - 0xDC00)

/-- One character between quotes. One half of a pair alone stands for no character. -/
inductive SpellsChar : List Char → Char → Prop
  | plain {c : Char} : 0x20 ≤ c.toNat → c ≠ '"' → c ≠ '\\' → SpellsChar [c] c
  | escape {mark c : Char} : escapes.lookup mark = some c → SpellsChar ['\\', mark] c
  | code {code : List Char} {c : Char} : IsCode code c.toNat →
      SpellsChar ('\\' :: 'u' :: code) c
  | pair {first second : List Char} {m n : Nat} {c : Char} : IsCode first m → IsCode second n →
      isLeading m = true → isTrailing n = true → c.toNat = pairValue m n →
      SpellsChar ('\\' :: 'u' :: first ++ '\\' :: 'u' :: second) c

inductive SpellsText : List Char → List Char → Prop
  | nil : SpellsText [] []
  | cons {front back text : List Char} {c : Char} : SpellsChar front c → SpellsText back text →
      SpellsText (front ++ back) (c :: text)

inductive SpellsString : List Char → String → Prop
  | quoted {body : List Char} {s : String} : SpellsText body s.toList →
      SpellsString ('"' :: body ++ ['"']) s

inductive SpellsFraction : List Char → ℚ → Prop
  | none : SpellsFraction [] 0
  | some {digits : List Char} : IsRun 10 digits →
      SpellsFraction ('.' :: digits) (valueOf 10 digits / 10 ^ digits.length)

def isExponentMark (c : Char) : Bool := c == 'e' || c == 'E'

inductive SpellsExponent : List Char → ℤ → Prop
  | none : SpellsExponent [] 0
  | unsigned {mark : Char} {digits : List Char} : isExponentMark mark = true → IsRun 10 digits →
      SpellsExponent (mark :: digits) (valueOf 10 digits)
  | positive {mark : Char} {digits : List Char} : isExponentMark mark = true → IsRun 10 digits →
      SpellsExponent (mark :: '+' :: digits) (valueOf 10 digits)
  | negative {mark : Char} {digits : List Char} : isExponentMark mark = true → IsRun 10 digits →
      SpellsExponent (mark :: '-' :: digits) (-(valueOf 10 digits : ℤ))

/-- A number without a sign. No other digit follows a zero at its front. -/
inductive SpellsMagnitude : List Char → ℚ → Prop
  | parts {whole fraction exponent : List Char} {f : ℚ} {e : ℤ} : IsRun 10 whole →
      (whole = ['0'] ∨ whole.head? ≠ some '0') → SpellsFraction fraction f →
      SpellsExponent exponent e →
      SpellsMagnitude (whole ++ (fraction ++ exponent)) ((valueOf 10 whole + f) * 10 ^ e)

inductive SpellsNumber : List Char → ℚ → Prop
  | unsigned {cs : List Char} {q : ℚ} : SpellsMagnitude cs q → SpellsNumber cs q
  | negative {cs : List Char} {q : ℚ} : SpellsMagnitude cs q → SpellsNumber ('-' :: cs) (-q)

/-- The words that are values. -/
def words : List (List Char × Datum) := [
  (['t', 'r', 'u', 'e'], bool true), (['f', 'a', 'l', 's', 'e'], bool false),
  (['n', 'u', 'l', 'l'], null)]

mutual

inductive Spells : List Char → Datum → Prop
  | word {cs : List Char} {v : Datum} : (cs, v) ∈ words → Spells cs v
  | number {cs : List Char} {q : ℚ} : SpellsNumber cs q → Spells cs (.number q)
  | string {cs : List Char} {s : String} : SpellsString cs s → Spells cs (.string s)
  | emptyArray {blank : List Char} : IsBlank blank → Spells ('[' :: blank ++ [']']) (.array [])
  | array {cs : List Char} {items : List Datum} : SpellsItems cs items →
      Spells ('[' :: cs ++ [']']) (.array items)
  | emptyObject {blank : List Char} : IsBlank blank →
      Spells ('\x7b' :: blank ++ ['\x7d']) (.object [])
  | object {cs : List Char} {members : List (String × Datum)} : SpellsMembers cs members →
      Spells ('\x7b' :: cs ++ ['\x7d']) (.object members)

/-- A value with white space around it. -/
inductive SpellsItem : List Char → Datum → Prop
  | blanks {before cs behind : List Char} {v : Datum} : IsBlank before → Spells cs v →
      IsBlank behind → SpellsItem (before ++ (cs ++ behind)) v

/-- Values with commas between them, at least one. -/
inductive SpellsItems : List Char → List Datum → Prop
  | last {cs : List Char} {v : Datum} : SpellsItem cs v → SpellsItems cs [v]
  | more {cs rest : List Char} {v : Datum} {vs : List Datum} : SpellsItem cs v →
      SpellsItems rest vs → SpellsItems (cs ++ ',' :: rest) (v :: vs)

/-- A key and its value. -/
inductive SpellsMember : List Char → String × Datum → Prop
  | pair {before key behind cs : List Char} {k : String} {v : Datum} : IsBlank before →
      SpellsString key k → IsBlank behind → SpellsItem cs v →
      SpellsMember (before ++ (key ++ (behind ++ ':' :: cs))) (k, v)

/-- Keys and values with commas between them, at least one. -/
inductive SpellsMembers : List Char → List (String × Datum) → Prop
  | last {cs : List Char} {m : String × Datum} : SpellsMember cs m → SpellsMembers cs [m]
  | more {cs rest : List Char} {m : String × Datum} {ms : List (String × Datum)} :
      SpellsMember cs m → SpellsMembers rest ms → SpellsMembers (cs ++ ',' :: rest) (m :: ms)

end

/-- A document is a value with white space around it. -/
def IsDocument (text : String) (v : Datum) : Prop := SpellsItem text.toList v

end Datum

end SyncPlan
