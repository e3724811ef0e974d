import SyncPlan.Log.Event
import SyncPlan.Text.Utf8

/-!
Which notes of a run are shown. A filter is a list of directives, each a level for all parts of the
program, for those whose names begin in some way, or for notes that carry a value. The most
particular directive that fits a note decides, and of equals the last.
-/

namespace SyncPlan.Log

inductive Level
  | off
  | error
  | warn
  | info
  | debug
  | trace
  deriving DecidableEq, Repr

def Level.names : List (String × Level) := [
  ("off", .off), ("error", .error), ("warn", .warn), ("info", .info), ("debug", .debug),
  ("trace", .trace)]

/-- A level by its name in letters of any case or by its place in the order of levels. -/
def Level.ofName? (cs : List Char) : Option Level :=
  match Text.readNatural 10 5 cs with
  | .ok place => Level.names[place]?.map (·.2)
  | .error _ => Level.names.lookup (String.ofList (cs.map Char.toLower))

/-- Whether notes of the level for debugging are shown. -/
def Level.showsDebug : Level → Bool
  | .debug | .trace => true
  | _ => false

structure Directive where
  target : String := ""
  field : Option String := none
  /-- Bound to a span or to the value of a field, and so to no note of a run. -/
  isBound : Bool := false
  level : Level := .trace
  deriving DecidableEq, Repr

/-- A directive that is being read. Its shape is told from the text without the blanks around it;
what is taken from it are the octets at the same places in the text with them. -/
structure Reader where
  shape : List Char
  octets : List UInt8

namespace Reader

def ofText (cs : List Char) : Reader := ⟨Text.trim cs, Text.utf8 cs⟩

def skip (r : Reader) (n : Nat) : Reader :=
  ⟨r.shape.drop n, r.octets.drop (Text.utf8 (r.shape.take n)).length⟩

/-- Whether a character begins here, or there is none. -/
def atCharacter (r : Reader) : Bool := !r.octets.head?.any Text.isTail

/-- All that is left. -/
def text? (r : Reader) : Option (List Char) := (Text.decodeUtf8 r.octets).toOption

/-- What is taken up to the next character of a class, and the rest from there on. Nothing is taken
where that would cut a character in two, for which the blanks before a directive must be of more
than one octet. -/
def upTo (r : Reader) (p : Char → Bool) : Option (List Char) × Reader :=
  let rest := r.skip (r.shape.takeWhile (!p ·)).length
  let octets := r.octets.take (r.octets.length - rest.octets.length)
  (if r.atCharacter && rest.atCharacter then (Text.decodeUtf8 octets).toOption else none, rest)

end Reader

namespace Directive

/-- The level behind an equals sign, all levels being meant where nothing follows it. -/
def withLevel (d : Directive) (level : List Char) : Option Directive :=
  if level.isEmpty then some d else (Level.ofName? level).map fun l => { d with level := l }

/-- What stands behind a target: nothing or a level. -/
def withTail (d : Directive) (r : Reader) : Option Directive :=
  match r.shape with
  | [] => some d
  | '=' :: _ => (r.skip 1).text?.bind d.withLevel
  | _ => none

def isSpanEnd (c : Char) : Bool := c == ']' || c == '\x7b'

def isFieldEnd (c : Char) : Bool := c == '\x7d'

/-- A span or a field in brackets, behind the opening one. -/
def withSpan (d : Directive) (r : Reader) : Option Directive := do
  let (name?, r) := r.upTo isSpanEnd
  let name ← name?
  match r.shape with
  | ']' :: _ => withTail { d with isBound := true } (r.skip 1)
  | '\x7b' :: _ =>
    let (field?, r) := (r.skip 1).upTo isFieldEnd
    let field ← field?
    let isBound := !name.isEmpty || field.contains '='
    match r.shape with
    | '\x7d' :: ']' :: _ =>
      if field.isEmpty then none
      else withTail { d with isBound, field := some (String.ofList field) } (r.skip 2)
    | _ => none
  | _ => none

/-- Letters and digits begin a target, for which every character past ASCII is taken. -/
def isTargetStart (c : Char) : Bool :=
  c.isAlphanum || c == '-' || c == ':' || c == '_' || 0x7f < c.toNat

def isTargetEnd (c : Char) : Bool := c == '=' || c == '['

/-- The program breaks off at a directive that would be cut within a character. Such filters are
left out of account here, and taken for ones that cannot be read. -/
def ofText? (cs : List Char) : Option Directive :=
  let r := Reader.ofText cs
  match r.shape with
  | [] => none
  | '[' :: _ => withSpan {} (r.skip 1)
  | c :: _ =>
    if !isTargetStart c then none
    else
      let (target?, r) := r.upTo isTargetEnd
      match r.shape with
      | [] =>
        match Level.ofName? cs with
        | some level => some { level }
        | none => some { target := String.ofList cs }
      | '[' :: _ => do withSpan { target := String.ofList (← target?) } (r.skip 1)
      | _ => do withTail { target := String.ofList (← target?) } r

def fits (d : Directive) (e : Event) : Bool :=
  !d.isBound && e.target.startsWith d.target && d.field.all e.fields.contains

/-- Whether a directive is less particular than another or just as particular. -/
def yields (a b : Directive) : Bool :=
  a.target.length < b.target.length || a.target.length == b.target.length &&
    a.field.all fun f => b.field.any (f ≤ ·)

end Directive

abbrev Filter := List Directive

namespace Filter

/-- The directives of a text, with commas between them. One that cannot be read spoils all. -/
def ofText? (s : String) : Option Filter :=
  ((s.splitOn ",").filter (· != "")).mapM fun d => Directive.ofText? d.toList

def shows (f : Filter) (e : Event) : Bool :=
  let best := (f.filter (·.fits e)).foldl (fun best d =>
    match best with
    | some b => if b.yields d then some d else some b
    | none => some d) none
  best.any (·.level.showsDebug)

end Filter

/-- The lines that are shown of some notes. With debugging all are, each with the part of the
program that it belongs to; otherwise those that the filter lets through. -/
def shown (debug : Bool) (filter : Option String) (events : List Event) : List Line :=
  if debug then events.map (Event.line true)
  else
    let filter := (filter.bind Filter.ofText?).getD []
    (events.filter filter.shows).map (Event.line false)

end SyncPlan.Log
