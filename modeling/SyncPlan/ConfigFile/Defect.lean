import SyncPlan.Decimal.Shortest
import SyncPlan.Files.Tree
import SyncPlan.Options
import SyncPlan.Text.Quoted

/-!
What can be wrong with a config file: it cannot be read, its text is malformed, or one of its
entries does not fit the options. The last kind names what the file gave and what was wanted.
-/

namespace SyncPlan

/-- A value that a config file gives. -/
inductive Given
  | text (s : String)
  | integer (n : Int)
  | float (x : Double)
  | boolean (b : Bool)
  | unit
  | sequence
  | mapping
  deriving DecidableEq, Repr

/-- Integers beyond sixty-four bits are marked by their width. -/
def integerMark (n : Int) : String :=
  if n < -Text.boundOfBits 63 then " as i128"
  else if n < Text.boundOfBits 64 then ""
  else " as u128"

def Given.description : Given → String
  | .text s => "string " ++ Text.quoted s
  | .integer n => s!"integer \x60{n}\x60" ++ integerMark n
  | .float x => s!"floating point \x60{x.text}\x60"
  | .boolean b => s!"boolean \x60{b}\x60"
  | .unit => "unit value"
  | .sequence => "sequence"
  | .mapping => "map"

/-- What a config file should have given. -/
inductive Wanted
  | options
  | fieldName
  | text
  | count
  | number
  | switch
  | list
  | integer
  | float
  | null
  deriving DecidableEq, Repr

def Wanted.description : Wanted → String
  | .options => "struct RawOptions"
  | .fieldName => "field identifier"
  | .text => "a string"
  | .count => "u32"
  | .number => "i64"
  | .switch => "a boolean"
  | .list => "a sequence"
  | .integer => "an integer"
  | .float => "a float"
  | .null => "null"

def Field.wanted : Field → Wanted
  | .text _ => .text
  | .count _ => .count
  | .number _ => .number
  | .switch _ => .switch
  | .list _ => .list

inductive Defect
  | unreadable (fault : ReadFault)
  | malformed
  | unknownField (key : String)
  | duplicateField (f : Field)
  | wrongType (given : Given) (wanted : Wanted)
  | wrongValue (given : Given) (wanted : Wanted)
  deriving DecidableEq, Repr

namespace Defect

def className : Defect → String
  | .unreadable _ => "io"
  | .malformed => "syntax"
  | .unknownField _ => "unknown_field"
  | .duplicateField _ => "duplicate_field"
  | .wrongType .. => "invalid_type"
  | .wrongValue .. => "invalid_value"

/-- The text of a defect, apart from one of the syntax, of which only the fact is told. -/
def detail : Defect → Option String
  | .unreadable fault => some fault.message
  | .malformed => none
  | .unknownField key =>
    let keys := Field.all.map fun f => s!"\x60{f.key}\x60"
    some (s!"unknown field \x60{key}\x60, expected one of " ++ ", ".intercalate keys)
  | .duplicateField f => some s!"duplicate field \x60{f.key}\x60"
  | .wrongType given wanted =>
    some s!"invalid type: {given.description}, expected {wanted.description}"
  | .wrongValue given wanted =>
    some s!"invalid value: {given.description}, expected {wanted.description}"

end Defect

end SyncPlan
