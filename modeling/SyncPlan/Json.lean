/-!
JSON documents, written on one line or on a line for every item. Objects keep the order of their
members, and strings escape only what they must.
-/

namespace SyncPlan

inductive Json
  | bool (b : Bool)
  | number (n : Int)
  | string (s : String)
  | array (items : List Json)
  | object (members : List (String × Json))
  deriving Repr

namespace Json

def hexDigit (n : Nat) : Char := Nat.digitChar n

/-- One character of a string. -/
def escapeChar (c : Char) : List Char :=
  match c with
  | '"' => ['\\', '"']
  | '\\' => ['\\', '\\']
  | '\x08' => ['\\', 'b']
  | '\x0c' => ['\\', 'f']
  | '\n' => ['\\', 'n']
  | '\r' => ['\\', 'r']
  | '\t' => ['\\', 't']
  | c =>
    if c.toNat < 0x20 then
      ['\\', 'u', '0', '0', hexDigit (c.toNat / 16), hexDigit (c.toNat % 16)]
    else [c]

def stringText (s : String) : List Char := '"' :: s.toList.flatMap escapeChar ++ ['"']

def numberText (n : Int) : List Char := (toString n).toList

/-- How the parts of a document are set: what stands before the items of an array or object at some
depth, and what stands behind the colon of a member. -/
structure Layout where
  space : List Char
  newline : Nat → List Char

def Layout.compact : Layout := ⟨[], fun _ => []⟩

/-- Every item on a line of its own, two blanks further in than what holds it. -/
def Layout.pretty : Layout := ⟨[' '], fun depth => '\n' :: List.replicate (2 * depth) ' '⟩

/-- Items within brackets; where there are none the brackets stand together. -/
def bracketed (layout : Layout) (depth : Nat) (opening closing : Char) :
    List (List Char) → List Char
  | [] => [opening, closing]
  | items =>
    opening :: layout.newline (depth + 1) ++
      List.intercalate (',' :: layout.newline (depth + 1)) items ++
      layout.newline depth ++ [closing]

mutual

def chars (layout : Layout) (depth : Nat) : Json → List Char
  | bool b => if b then "true".toList else "false".toList
  | number n => numberText n
  | string s => stringText s
  | array items => bracketed layout depth '[' ']' (itemChars layout depth items)
  | object members => bracketed layout depth '\x7b' '\x7d' (memberChars layout depth members)

def itemChars (layout : Layout) (depth : Nat) : List Json → List (List Char)
  | [] => []
  | v :: vs => chars layout (depth + 1) v :: itemChars layout depth vs

def memberChars (layout : Layout) (depth : Nat) : List (String × Json) → List (List Char)
  | [] => []
  | (k, v) :: ms =>
    (stringText k ++ ':' :: layout.space ++ chars layout (depth + 1) v) ::
      memberChars layout depth ms

end

def text (layout : Layout) (v : Json) : String := String.ofList (chars layout 0 v)

end Json

end SyncPlan
