import SyncPlan.Toml.Text
import SyncPlan.Toml.Number

/-!
TOML documents: values nested in brackets and braces to a fixed depth, pairs, and sections under
headers.
-/

namespace SyncPlan.Toml

/-- The items of an array behind its opening bracket or a comma. -/
def items? (item : List Char → Option (Value × List Char)) (cs : List Char) :
    Option (List Value × List Char) :=
  match skipLines cs with
  | ']' :: rest => some ([], rest)
  | start =>
    match item start with
    | none => none
    | some (v, rest) =>
      match skipLines rest with
      | ']' :: rest => some ([v], rest)
      | ',' :: rest =>
        if rest.length < cs.length then
          (items? item rest).map fun (vs, rest) => (v :: vs, rest)
        else none
      | _ => none
termination_by cs.length

/-- A key, the sign behind it, and a value. -/
def pair? (item : List Char → Option (Value × List Char)) (cs : List Char) :
    Option ((List String × Value) × List Char) := do
  let (path, rest) ← key? cs
  match rest with
  | '=' :: rest =>
    let (v, rest) ← item (skipBlanks rest)
    some ((path, v), rest)
  | _ => none

/-- The pairs of an inline table behind its opening brace or a comma. -/
def pairs? (item : List Char → Option (Value × List Char)) (cs : List Char) :
    Option (List (List String × Value) × List Char) :=
  match pair? item cs with
  | none => none
  | some (p, rest) =>
    match skipBlanks rest with
    | '\x7d' :: rest => some ([p], rest)
    | ',' :: rest =>
      if rest.length < cs.length then
        (pairs? item rest).map fun (ps, rest) => (p :: ps, rest)
      else none
    | _ => none
termination_by cs.length

def inlineTable? (item : List Char → Option (Value × List Char)) (cs : List Char) :
    Option (Value × List Char) := do
  let (pairs, rest) ← match skipBlanks cs with
    | '\x7d' :: rest => some ([], rest)
    | _ => pairs? item cs
  let _ ← addPairs [] pairs
  some (.inlineTable, rest)

/-- A value in which so many brackets and braces may stand around one another. -/
def value? : Nat → List Char → Option (Value × List Char)
  | depth, cs =>
    match cs with
    | '"' :: _ | '\'' :: _ => (string? cs).map fun (s, rest) => (.string (String.ofList s), rest)
    | '[' :: rest =>
      match depth with
      | 0 => none
      | depth + 1 => (items? (value? depth) rest).map fun (vs, rest) => (.array vs, rest)
    | '\x7b' :: rest =>
      match depth with
      | 0 => none
      | depth + 1 => inlineTable? (value? depth) rest
    | _ => numeral? cs

def deepest : Nat := 79

/-- The header of a section, behind its first bracket. -/
def header? : List Char → Option (Section × List Char)
  | '[' :: cs => do
    let (path, rest) ← key? cs
    match rest with
    | ']' :: ']' :: rest => some (⟨true, path, []⟩, ← restOfLine? rest)
    | _ => none
  | cs => do
    let (path, rest) ← key? cs
    match rest with
    | ']' :: rest => some (⟨false, path, []⟩, ← restOfLine? rest)
    | _ => none

/-- The pairs up to the first header, and the sections. -/
def lines? (cs : List Char) : Option (List (List String × Value) × List Section) :=
  match skipLines cs with
  | [] => some ([], [])
  | '#' :: _ => if (restOfLine? (skipLines cs)) == some [] then some ([], []) else none
  | '[' :: rest => do
    let (s, rest) ← header? rest
    if rest.length < cs.length then do
      let (pairs, sections) ← lines? rest
      some ([], { s with pairs } :: sections)
    else none
  | start => do
    let (p, rest) ← pair? (value? deepest) start
    let rest ← restOfLine? rest
    if rest.length < cs.length then do
      let (pairs, sections) ← lines? rest
      some (p :: pairs, sections)
    else none
termination_by cs.length

/-- The entries of a document, before which a byte order mark may stand. -/
def read (cs : List Char) : Option Entries := do
  let (pairs, sections) ← lines? (if cs.head? == some '\ufeff' then cs.drop 1 else cs)
  document? pairs sections

end SyncPlan.Toml
