import SyncPlan.Text.Numeral

/-!
The texts of IPv6 addresses: eight groups of up to four hexadecimal digits, of which one run may be
left out between two colons and the last two may be written as four decimal numbers.
-/

namespace SyncPlan.Ipv6

def isHexDigit (c : Char) : Bool := Text.isDigitIn 16 c

/-- A decimal number up to 255 without leading zeros. -/
def isOctet (cs : List Char) : Bool :=
  match Text.natural? 10 cs with
  | none => false
  | some n => n ≤ 255 && (cs.head? != some '0' || cs.length == 1)

/-- So many decimal numbers with points between them. -/
def isDotted : Nat → List Char → Bool
  | 0, _ => false
  | 1, cs => isOctet cs
  | n + 2, cs =>
    isOctet (cs.takeWhile (· != '.')) &&
      match cs.dropWhile (· != '.') with
      | [] => false
      | _ :: rest => isDotted (n + 1) rest

/-- The groups of an address from one of them on. `count` groups stand before it, and `gap` says
that a run has been left out. -/
def groupsFrom (count : Nat) (gap : Bool) (cs : List Char) : Bool :=
  match cs with
  | [] => gap || count == 8
  | ':' :: rest => !gap && count < 8 && groupsFrom (count + 1) true rest
  | c :: more =>
    let digits := ((c :: more).take 4).takeWhile isHexDigit
    if count == 8 then false
    else match _h : (c :: more).drop digits.length with
    | [] => gap || count == 7
    | '.' :: _ => !digits.isEmpty && count ≤ 6 && isDotted 4 cs && (gap || count == 6)
    | ':' :: rest => !rest.isEmpty && groupsFrom (count + 1) gap rest
    | _ => false
termination_by cs.length
decreasing_by
  · simp
  · have := congrArg List.length _h
    simp only [List.length_drop, List.length_cons] at this ⊢
    omega

def isAddress : List Char → Bool
  | ':' :: ':' :: rest => groupsFrom 1 true rest
  | ':' :: _ => false
  | cs => groupsFrom 0 false cs

end SyncPlan.Ipv6
