import SyncPlan.Yaml.Cursor
import SyncPlan.Text.Numeral

/-!
The tokens of a YAML stream, and the reading of those that are named: anchors and aliases, tags, and
directives.
-/

namespace SyncPlan.Yaml

inductive Style
  | plain
  | quoted
  | literal
  | folded
  deriving DecidableEq, Repr

/-- Tags are octets, as their escapes may write any. -/
abbrev Octets := List UInt8

inductive Token
  | streamStart
  | streamEnd
  | version (major minor : Nat)
  | tagDirective (handle : String) (expansion : Octets)
  | documentStart
  | documentEnd
  | sequenceOpen
  | mappingOpen
  | blockEnd
  | bracketOpen
  | bracketClose
  | braceOpen
  | braceClose
  | entry
  | comma
  | key
  | value
  | alias (name : String)
  | anchor (name : String)
  | tag (handle : String) (suffix : Octets)
  | scalar (style : Style) (text : String)
  deriving DecidableEq, Repr

def asciiOctets (cs : List Char) : Octets := cs.map fun c => UInt8.ofNat c.toNat

/-- What may follow the name of an anchor or alias. -/
def endsName (cs : List Char) : Bool :=
  endsWord cs || cs.head?.any ("?:,]\x7d%@\x60".toList.contains ·)

/-- The name of an anchor or alias, behind its indicator. -/
def anchorName (c : Cursor) : Option (String × Cursor) :=
  let name := c.rest.takeWhile isNameChar
  let d := c.advance name.length
  if name.isEmpty || !endsName d.rest then none else some (String.ofList name, d)

def escapedOctet? : List Char → Option UInt8
  | '%' :: a :: b :: _ => do
    let m ← Text.digitIn 16 a
    let n ← Text.digitIn 16 b
    some (UInt8.ofNat (m * 16 + n))
  | _ => none

/-- The number of octets behind a leading octet of a character. -/
def tailCount? (lead : UInt8) : Option Nat :=
  if lead < 0x80 then some 0
  else if 0xC0 ≤ lead && lead < 0xE0 then some 1
  else if 0xE0 ≤ lead && lead < 0xF0 then some 2
  else if 0xF0 ≤ lead && lead < 0xF8 then some 3
  else none

/-- The octets of one character whose octets are all escaped. -/
def escapedChar? (cs : List Char) : Option Octets := do
  let lead ← escapedOctet? cs
  let count ← tailCount? lead
  let tails ← (List.range count).mapM fun k =>
    (escapedOctet? (cs.drop (3 * (k + 1)))).filter fun b => 0x80 ≤ b && b < 0xC0
  some (lead :: tails)

def isUriChar (verbatim : Bool) (c : Char) : Bool :=
  isNameChar c || ";/?:@&=+$.!~*'()".toList.contains c || (verbatim && ",[]".toList.contains c)

/-- The octets of a tag or of the expansion of a handle, and what follows them. -/
def uriFrom (verbatim : Bool) (cs : List Char) : Option (Octets × Nat) :=
  match cs with
  | [] => some ([], 0)
  | c :: rest =>
    if c == '%' then
      match escapedChar? cs with
      | none => none
      | some octets =>
        let n := 3 * octets.length
        (uriFrom verbatim (rest.drop (n - 1))).map fun (more, k) => (octets ++ more, n + k)
    else if isUriChar verbatim c then
      (uriFrom verbatim rest).map fun (more, k) => (asciiOctets [c] ++ more, k + 1)
    else some ([], 0)
termination_by cs.length
decreasing_by
  all_goals simp only [List.length_cons, List.length_drop]; omega

def uri (verbatim : Bool) (c : Cursor) : Option (Octets × Cursor) := do
  let (octets, n) ← uriFrom verbatim c.rest
  guard (!octets.isEmpty)
  some (octets, c.advance n)

/-- A handle as far as it goes: a mark, name characters, and a second mark if there is one. -/
def handleFrom (c : Cursor) : List Char × Cursor :=
  let name := (c.rest.drop 1).takeWhile isNameChar
  let d := c.advance (1 + name.length)
  if d.rest.head? == some '!' then ('!' :: name ++ ['!'], d.advance 1) else ('!' :: name, d)

/-- A tag from its mark on. A handle without a second mark is the start of a local tag, and a lone
mark is a tag of its own. -/
def tagFrom (flow : Bool) (c : Cursor) : Option (Token × Cursor) := do
  let (token, d) ←
    if (c.rest.drop 1).head? == some '<' then do
      let (suffix, d) ← uri true (c.advance 2)
      guard (d.rest.head? == some '>')
      pure (Token.tag "" suffix, d.advance 1)
    else
      let (handle, d) := handleFrom c
      if handle.length > 1 && handle.getLast? == some '!' then do
        let (suffix, d) ← uri false d
        pure (Token.tag (String.ofList handle) suffix, d)
      else do
        let (more, n) ← uriFrom false d.rest
        let suffix := asciiOctets (handle.drop 1) ++ more
        let token := if suffix.isEmpty then Token.tag "" (asciiOctets ['!']) else .tag "!" suffix
        pure (token, d.advance n)
  guard (endsWord d.rest || (flow && d.rest.head? == some ','))
  pure (token, d)

/-- A number of at most nine digits. -/
def versionNumber (c : Cursor) : Option (Nat × Cursor) :=
  let digits := c.rest.takeWhile Char.isDigit
  if digits.isEmpty || 9 < digits.length then none
  else some (Text.digitsValue 10 digits, c.advance digits.length)

def versionDirective (c : Cursor) : Option (Token × Cursor) := do
  let (major, d) ← versionNumber (c.skipWhile isBlank)
  guard (d.rest.head? == some '.')
  let (minor, e) ← versionNumber (d.advance 1)
  pure (.version major minor, e)

def tagDirective (c : Cursor) : Option (Token × Cursor) := do
  let c := c.skipWhile isBlank
  guard (c.rest.head? == some '!')
  let (handle, d) := handleFrom c
  guard (handle.getLast? == some '!')
  guard (d.rest.head?.any isBlank)
  let (expansion, e) ← uri true (d.skipWhile isBlank)
  guard (endsWord e.rest)
  pure (.tagDirective (String.ofList handle) expansion, e)

/-- A directive behind its indicator, up to the start of the next line. -/
def directive (c : Cursor) : Option (Token × Cursor) := do
  let name := c.rest.takeWhile isNameChar
  let d := c.advance name.length
  guard (!name.isEmpty && endsWord d.rest)
  let (token, e) ←
    if name == "YAML".toList then versionDirective d
    else if name == "TAG".toList then tagDirective d
    else none
  let f := e.skipComment
  guard (f.rest.head?.all isBreak)
  pure (token, f.skipBreak)

end SyncPlan.Yaml
