import SyncPlan.Text.Numeral

/-!
What the text of an option can stand for: one of a few words, which match exactly, for the access
class of uploaded objects and the action on a failed object; permission bits in octal; and a rate of
bytes, of digits and a unit.
-/

namespace SyncPlan

/-- The access class of uploaded objects. The empty word leaves it to the store. -/
inductive AccessClass
  | storeDefault
  | ownerOnly
  | publicRead
  | publicReadWrite
  | awsExecRead
  | authenticatedRead
  | bucketOwnerRead
  | bucketOwnerFullControl
  deriving DecidableEq, Repr

namespace AccessClass

def all : List AccessClass := [
  .storeDefault, .ownerOnly, .publicRead, .publicReadWrite, .awsExecRead, .authenticatedRead,
  .bucketOwnerRead, .bucketOwnerFullControl]

def word : AccessClass → String
  | .storeDefault => ""
  | .ownerOnly => "private"
  | .publicRead => "public-read"
  | .publicReadWrite => "public-read-write"
  | .awsExecRead => "aws-exec-read"
  | .authenticatedRead => "authenticated-read"
  | .bucketOwnerRead => "bucket-owner-read"
  | .bucketOwnerFullControl => "bucket-owner-full-control"

def ofWord? (s : String) : Option AccessClass := all.find? (·.word == s)

/-- The class as a person reads it. -/
def label : AccessClass → String
  | .storeDefault => "(backend default)"
  | c => c.word

/-- The class as a plan for other programs names it. -/
def name : AccessClass → String
  | .storeDefault => "backend-default"
  | c => c.word

/-- The words to choose from, as an error lists them. -/
def choices : String := ", ".intercalate (all.tail.map word)

theorem ofWord?_word (c : AccessClass) : ofWord? c.word = some c := by
  cases c <;> decide

end AccessClass

/-- What happens when one object fails: the run ends, it goes on, or it goes on if the object has
disappeared from the source. -/
inductive FailureAction
  | fatal
  | skip
  | skipMissing
  deriving DecidableEq, Repr

namespace FailureAction

def all : List FailureAction := [.fatal, .skip, .skipMissing]

def word : FailureAction → String
  | .fatal => "fatal"
  | .skip => "skip"
  | .skipMissing => "skipmissing"

def ofWord? (s : String) : Option FailureAction := all.find? (·.word == s)

def choices : String := ", ".intercalate (all.map word)

theorem ofWord?_word (a : FailureAction) : ofWord? a.word = some a := by
  cases a <;> decide

end FailureAction

/-- Permission bits of files and directories, written in octal. -/
structure FileMode where
  bits : UInt32
  deriving DecidableEq, Repr

namespace FileMode

def read (s : String) : Except Text.NumeralFault FileMode :=
  (Text.readNatural 8 (Text.boundOfBits 32 - 1) s.toList).map fun n => ⟨UInt32.ofNat n⟩

/-- The octal digits, with zeros before them up to four. -/
def text (m : FileMode) : String :=
  let digits := Nat.toDigits 8 m.bits.toNat
  String.ofList (List.replicate (4 - digits.length) '0' ++ digits)

end FileMode

/-! Byte rates: digits and a unit, with white space around either, in binary multiples. A blank text
is a rate of zero, which means no limit. -/

namespace Rate

def unit? : List Char → Option Nat
  | [] => some 1
  | ['k'] | ['K'] => some 1024
  | ['m'] | ['M'] => some 1048576
  | ['g'] | ['G'] => some 1073741824
  | _ => none

def readChars (cs : List Char) : Option Nat :=
  let cs := Text.trim cs
  if cs.isEmpty then some 0
  else do
    let unit ← unit? ((cs.dropWhile Char.isDigit).dropWhile Text.isSpace)
    let n ← Text.natural? 10 (cs.takeWhile Char.isDigit)
    if n * unit < Text.boundOfBits 64 then some (n * unit) else none

/-- Bytes per second. -/
def read (s : String) : Option UInt64 := (readChars s.toList).map UInt64.ofNat

end Rate

end SyncPlan
