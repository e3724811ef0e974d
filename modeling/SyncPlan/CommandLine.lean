import SyncPlan.CommandLine.Fault

/-!
The command line. It is read from left to right; an argument that takes a value takes the rest of
its own token or the next token, unless that one begins with a dash and is not a dash alone. What it
gives is laid over the options of a config file.
-/

namespace SyncPlan

inductive Format
  | human
  | json
  deriving DecidableEq, Repr

def Format.name : Format → String
  | .human => "human"
  | .json => "json"

def Format.ofName? (s : String) : Option Format := [Format.human, .json].find? (·.name == s)

/-- What a command line gives, with nothing where it gives nothing. -/
structure CommandLine where
  config : Option String := none
  configDirectory : Option String := none
  format : Option Format := none
  text : TextField → Option String := fun _ => none
  count : CountField → Option UInt32 := fun _ => none
  number : NumberField → Option Int64 := fun _ => none
  switch : SwitchField → Bool := fun _ => false
  list : ListField → List String := fun _ => []

namespace CommandLine

/-- The options of a command line laid over others. What is given counts, switches are only turned
on, and a list that is given takes the place of the other. -/
def overlay (c : CommandLine) (o : Options) : Options where
  text f := (c.text f).getD (o.text f)
  count f := (c.count f).getD (o.count f)
  number f := (c.number f).getD (o.number f)
  switch f := o.switch f || c.switch f
  list f := if (c.list f).isEmpty then o.list f else c.list f

def searchStart (c : CommandLine) : String := c.configDirectory.getD "."

def outputFormat (c : CommandLine) : Format := c.format.getD .human

/-- Whether an argument that may be given only once has been given. -/
def has (c : CommandLine) : Argument → Bool
  | .config => c.config.isSome
  | .configDirectory => c.configDirectory.isSome
  | .format => c.format.isSome
  | .field (.text f) => (c.text f).isSome
  | .field (.count f) => (c.count f).isSome
  | .field (.number f) => (c.number f).isSome
  | .field (.switch f) => c.switch f
  | .field (.list _) | .help | .version => false

def setText (c : CommandLine) (f : TextField) (v : String) : CommandLine :=
  { c with text := fun g => if g = f then some v else c.text g }

def setCount (c : CommandLine) (f : CountField) (v : UInt32) : CommandLine :=
  { c with count := fun g => if g = f then some v else c.count g }

def setNumber (c : CommandLine) (f : NumberField) (v : Int64) : CommandLine :=
  { c with number := fun g => if g = f then some v else c.number g }

def turnOn (c : CommandLine) (f : SwitchField) : CommandLine :=
  { c with switch := fun g => g == f || c.switch g }

def append (c : CommandLine) (f : ListField) (v : String) : CommandLine :=
  { c with list := fun g => if g = f then c.list g ++ [v] else c.list g }

def readInteger (a : Argument) (v : String) : Except CommandLineFault Int :=
  match Text.readInteger 10 (Text.boundOfBits 63) (Text.boundOfBits 63 - 1) v.toList with
  | .error fault => .error (.noNumber a v fault)
  | .ok n => .ok n

/-- Gives an argument that takes a value its value. -/
def give (c : CommandLine) (a : Argument) (v : String) : Except CommandLineFault CommandLine :=
  if c.has a then .error (.repeated a)
  else match a with
  | .config => if v.isEmpty then .error (.missingValue a) else .ok { c with config := some v }
  | .configDirectory =>
    if v.isEmpty then .error (.missingValue a) else .ok { c with configDirectory := some v }
  | .format =>
    if v.isEmpty then .error (.missingValue a)
    else match Format.ofName? v with
    | some f => .ok { c with format := some f }
    | none => .error (.noChoice a v)
  | .field (.text f) => .ok (c.setText f v)
  | .field (.count f) =>
    match readInteger a v with
    | .error fault => .error fault
    | .ok n =>
      match countOf? n with
      | some k => .ok (c.setCount f k)
      | none => .error (.outOfRange a v n)
  | .field (.number f) =>
    match readInteger a v with
    | .error fault => .error fault
    | .ok n => .ok (c.setNumber f (Int64.ofInt n))
  | .field (.list f) => .ok (c.append f v)
  | .field (.switch _) | .help | .version => .error (.unwantedValue a v)

/-- Raises an argument that takes no value; `long` says by which of its names. -/
def raise (c : CommandLine) (long : Bool) (a : Argument) : Except CommandLineFault CommandLine :=
  if c.has a then .error (.repeated a)
  else match a with
  | .field (.switch f) => .ok (c.turnOn f)
  | .version => .error (.version long)
  | .help => .error .help
  | a => .error (.missingValue a)

/-- The state of reading: what is given so far, the argument that comes last with its value or
without one yet, and how many places have been taken by position. -/
structure Reading where
  given : CommandLine := {}
  pending : Option (Argument × Option String) := none
  positions : Nat := 0

namespace Reading

/-- Gives the pending argument its value. -/
def settle (r : Reading) : Except CommandLineFault Reading :=
  match r.pending with
  | none => .ok r
  | some (a, none) => .error (.missingValue a)
  | some (a, some v) => (r.given.give a v).map fun c => { r with given := c, pending := none }

/-- An argument whose value stands in the same token. -/
def attach (r : Reading) (a : Argument) (v : String) : Except CommandLineFault Reading := do
  let r ← r.settle
  return { r with given := ← r.given.give a v }

/-- An argument whose value has to follow. -/
def await (r : Reading) (a : Argument) : Except CommandLineFault Reading := do
  return { ← r.settle with pending := some (a, none) }

def flag (r : Reading) (long : Bool) (a : Argument) : Except CommandLineFault Reading := do
  let r ← r.settle
  return { r with given := ← r.given.raise long a }

/-- A token that belongs to no name. -/
def positional (r : Reading) (v : String) : Except CommandLineFault Reading :=
  let place (f : TextField) : Except CommandLineFault Reading := do
    let r ← r.settle
    return { r with given := r.given.setText f v, positions := r.positions + 1 }
  match r.positions with
  | 0 => place .source
  | 1 => place .target
  | _ => .error (.unknown v)

/-- A token behind two dashes, with a value behind the first equals sign if there is one. -/
def longToken (r : Reading) (cs : List Char) : Except CommandLineFault Reading :=
  let name := String.ofList (cs.takeWhile (· != '='))
  let value := (cs.dropWhile (· != '=')).tail?.map String.ofList
  match Argument.ofLong? name, value with
  | none, _ => .error (.unknown ("--" ++ name))
  | some a, some v => if a.takesValue then r.attach a v else .error (.unwantedValue a v)
  | some a, none => if a.takesValue then r.await a else r.flag true a

/-- A token behind one dash: flags, the last of which may be an argument with its value. -/
def shortToken (r : Reading) : List Char → Except CommandLineFault Reading
  | [] => .ok r
  | c :: cs =>
    match Argument.ofShort? c with
    | none => .error (.unknown (String.ofList ['-', c]))
    | some a =>
      if a.takesValue then
        match cs with
        | [] => r.await a
        | '=' :: v => r.attach a (String.ofList v)
        | v => r.attach a (String.ofList v)
      else do (← r.flag false a).shortToken cs

def token (r : Reading) (t : String) : Except CommandLineFault Reading :=
  match t.toList, r.pending with
  | '-' :: '-' :: cs, _ => r.longToken cs
  | '-' :: c :: cs, _ => r.shortToken (c :: cs)
  | _, some (a, none) => .ok { r with pending := some (a, some t) }
  | _, _ => r.positional t

/-- Reads tokens up to the first pair of dashes alone, behind which all are taken by position. -/
def tokens (r : Reading) : List String → Except CommandLineFault Reading
  | [] => r.settle
  | t :: ts =>
    if t == "--" then ts.foldlM positional r >>= settle
    else do (← r.token t).tokens ts

end Reading

def read (tokens : List String) : Except CommandLineFault CommandLine :=
  (({} : Reading).tokens tokens).map Reading.given

end CommandLine

end SyncPlan
