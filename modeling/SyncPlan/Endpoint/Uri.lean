import SyncPlan.Endpoint.Ipv6
import SyncPlan.Text.Numeral

/-!
The check of a text as a URI with an authority. Controls and spaces at its ends and tabs and line
ends anywhere are not part of it. Behind two slashes stand user information up to the last at sign,
a host and a port, of which a host may be left out only where nothing else is told.
-/

namespace SyncPlan

inductive UriFault
  | emptyHost
  | badPort
  | badIpv6
  | badHostCharacter
  deriving DecidableEq, Repr

def UriFault.message : UriFault → String
  | .emptyHost => "empty host"
  | .badPort => "invalid port number"
  | .badIpv6 => "invalid IPv6 address"
  | .badHostCharacter => "invalid domain character"

namespace Uri

def isControlOrSpace (c : Char) : Bool := c.toNat ≤ 0x20

def isIgnored (c : Char) : Bool := c == '\t' || c == '\n' || c == '\r'

/-- The characters of a text that count. -/
def clean (cs : List Char) : List Char :=
  (Text.trimBy isControlOrSpace cs).filter (!isIgnored ·)

def endsAuthority (c : Char) : Bool := c == '/' || c == '?' || c == '#'

/-- What stands before and behind the last at sign. -/
def splitUserinfo (cs : List Char) : Option (List Char) × List Char :=
  let host := (cs.reverse.takeWhile (· != '@')).reverse
  if host.length < cs.length then (some (cs.take (cs.length - host.length - 1)), host)
  else (none, cs)

/-- The host up to the first colon outside of brackets, and what follows it. -/
def splitHost (bracketed : Bool) : List Char → List Char × List Char
  | [] => ([], [])
  | c :: cs =>
    if c == ':' && !bracketed then ([], c :: cs)
    else
      let (host, rest) := splitHost (c == '[' || (bracketed && c != ']')) cs
      (c :: host, rest)

/-- The characters that no host can have, apart from those that end it. -/
def isForbiddenInHost (c : Char) : Bool :=
  c == '\x00' || c == '\t' || c == '\n' || c == '\r' || " #/:<>?@[\\]^|".toList.contains c

def hostFault? (host : List Char) : Option UriFault :=
  match host with
  | '[' :: rest =>
    if rest.getLast? == some ']' && Ipv6.isAddress rest.dropLast then none else some .badIpv6
  | _ => if host.any isForbiddenInHost then some .badHostCharacter else none

/-- A port is a number up to 65535, and may be left out. A backslash ends it. -/
def portFault? (cs : List Char) : Option UriFault :=
  let digits := cs.takeWhile Char.isDigit
  if 65535 < Text.digitsValue 10 digits then some .badPort
  else match cs.dropWhile Char.isDigit with
  | [] => none
  | '\\' :: _ => none
  | _ => some .badPort

/-- User information tells something unless it is empty or a lone colon. -/
def isTelling (userinfo : List Char) : Bool := !(userinfo.isEmpty || userinfo == [':'])

/-- What is wrong with the authority that begins a text behind two slashes. -/
def authorityFault? (cs : List Char) : Option UriFault :=
  let authority := cs.takeWhile (!endsAuthority ·)
  let isLast := (cs.dropWhile (!endsAuthority ·)).isEmpty
  let (userinfo, place) := splitUserinfo authority
  if userinfo == some [] && place.isEmpty && !isLast then some .emptyHost
  else
    let (host, port) := splitHost false place
    match hostFault? host, port with
    | some fault, _ => some fault
    | none, _ :: port => if host.isEmpty then some .emptyHost else portFault? port
    | none, [] => if host.isEmpty && userinfo.any isTelling then some .emptyHost else none

/-- What is wrong with a text that starts with a scheme and a colon. -/
def fault? (cs : List Char) : Option UriFault :=
  match (clean cs).dropWhile (· != ':') with
  | ':' :: '/' :: '/' :: rest => authorityFault? rest
  | _ => none

end Uri

end SyncPlan
