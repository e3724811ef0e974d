import SyncPlan.Text.Numeral

/-!
Octets and the texts that they code. In UTF-8 a failure to decode names the octet at which the first
character that cannot be read begins, and how many octets of it form the longest start of a
well-formed sequence, unless the octets end inside one. In percent coding a percent sign and two
hexadecimal digits stand for one octet, and a percent sign that no two digits follow for itself.
-/

namespace SyncPlan.Text

inductive Utf8Fault
  | invalid (width start : Nat)
  | incomplete (start : Nat)
  deriving DecidableEq, Repr

def Utf8Fault.message : Utf8Fault → String
  | .invalid width start => s!"invalid utf-8 sequence of {width} bytes from index {start}"
  | .incomplete start => s!"incomplete utf-8 byte sequence from index {start}"

def utf8 (cs : List Char) : List UInt8 := cs.flatMap String.utf8EncodeChar

/-- The octets that may come second after a lead octet of three or four. -/
def utf8Second (lead : UInt8) : UInt8 × UInt8 :=
  if lead = 0xE0 then (0xA0, 0xBF)
  else if lead = 0xED then (0x80, 0x9F)
  else if lead = 0xF0 then (0x90, 0xBF)
  else if lead = 0xF4 then (0x80, 0x8F)
  else (0x80, 0xBF)

def isTail (b : UInt8) : Bool := 0x80 ≤ b && b ≤ 0xBF

def isSecond (lead b : UInt8) : Bool := (utf8Second lead).1 ≤ b && b ≤ (utf8Second lead).2

/-- The bits that a tail octet carries, below those of the octets before it. -/
def withTail (n : Nat) (b : UInt8) : Nat := n * 64 + b.toNat % 64

def decodeUtf8From (start : Nat) : List UInt8 → Except Utf8Fault (List Char)
  | [] => .ok []
  | a :: rest =>
    if a < 0x80 then (decodeUtf8From (start + 1) rest).map (Char.ofNat a.toNat :: ·)
    else if a < 0xC2 || 0xF4 < a then .error (.invalid 1 start)
    else match rest with
    | [] => .error (.incomplete start)
    | b :: rest =>
      if a < 0xE0 then
        if isTail b then
          (decodeUtf8From (start + 2) rest).map (Char.ofNat (withTail (a.toNat % 32) b) :: ·)
        else .error (.invalid 1 start)
      else if !isSecond a b then .error (.invalid 1 start)
      else match rest with
      | [] => .error (.incomplete start)
      | c :: rest =>
        if !isTail c then .error (.invalid 2 start)
        else if a < 0xF0 then
          (decodeUtf8From (start + 3) rest).map
            (Char.ofNat (withTail (withTail (a.toNat % 16) b) c) :: ·)
        else match rest with
        | [] => .error (.incomplete start)
        | d :: rest =>
          if !isTail d then .error (.invalid 3 start)
          else (decodeUtf8From (start + 4) rest).map
            (Char.ofNat (withTail (withTail (withTail (a.toNat % 8) b) c) d) :: ·)

def decodeUtf8 (octets : List UInt8) : Except Utf8Fault (List Char) := decodeUtf8From 0 octets

def hexOctet? (b : UInt8) : Option Nat := digitIn 16 (Char.ofNat b.toNat)

def percentDecode : List UInt8 → List UInt8
  | [] => []
  | 0x25 :: a :: b :: rest =>
    match hexOctet? a, hexOctet? b with
    | some m, some n => UInt8.ofNat (m * 16 + n) :: percentDecode rest
    | _, _ => 0x25 :: percentDecode (a :: b :: rest)
  | a :: rest => a :: percentDecode rest

end SyncPlan.Text
