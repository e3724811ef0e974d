import SyncPlan.Decimal.Double

/-!
The values of a TOML document, and its tables as trees whose entries stay in the order of their
first mention. A table is implicit until a header of its own defines it, and dotted when it came
about by a dotted key.
-/

namespace SyncPlan.Toml

inductive Value
  | string (s : String)
  | integer (n : Int)
  | float (x : Double)
  | boolean (b : Bool)
  | datetime
  | array (items : List Value)
  | inlineTable
  deriving Repr

inductive Tree
  | value (v : Value)
  | table (implicit dotted : Bool) (entries : List (String × Tree))
  | tables (rows : List (List (String × Tree)))
  deriving Repr

abbrev Entries := List (String × Tree)

/-- Replaces the item of a key that is present. -/
def Entries.replace (es : Entries) (k : String) (t : Tree) : Entries :=
  es.map fun e => if e.1 == k then (k, t) else e

/-- Goes down a path from a table and changes the table found there, making the tables on the way
that are missing. A path through the last row of an array of tables is a path through it. By a
dotted key no table can be reached that a header or braces have defined. -/
def descend {α : Type} (dotted : Bool) (change : Bool → Entries → Option (Entries × α)) :
    List String → Bool → Entries → Option (Entries × α)
  | [], isDotted, es => change isDotted es
  | k :: path, _, es =>
    match es.lookup k with
    | none => do
      let (sub, a) ← descend dotted change path dotted []
      some (es ++ [(k, .table true dotted sub)], a)
    | some (.table implicit isDotted sub) =>
      if dotted && !implicit then none
      else do
        let (sub, a) ← descend dotted change path isDotted sub
        some (es.replace k (.table implicit isDotted sub), a)
    | some (.tables rows) =>
      match rows.getLast? with
      | none => none
      | some row => do
        let (row, a) ← descend dotted change path false row
        some (es.replace k (.tables (rows.dropLast ++ [row])), a)
    | some (.value _) => none

/-- Adds a value under a dotted key, which must be new, to a table. -/
def addPair (es : Entries) (path : List String) (v : Value) : Option Entries :=
  match path.getLast? with
  | none => none
  | some k =>
    let parents := path.dropLast
    let change (isDotted : Bool) (es : Entries) : Option (Entries × Unit) :=
      if isDotted == parents.isEmpty || (es.lookup k).isSome then none
      else some (es ++ [(k, .value v)], ())
    (descend true change parents false es).map Prod.fst

def addPairs (es : Entries) (pairs : List (List String × Value)) : Option Entries :=
  pairs.foldlM (fun es (path, v) => addPair es path v) es

/-- A table header, or one of an array of tables, and the pairs under it. -/
structure Section where
  isArray : Bool
  path : List String
  pairs : List (List String × Value)
  deriving Repr

/-- Adds a section to a document. A table that is only implied so far is taken up again, behind the
entries that came in the meantime, and an array of tables gets another row. -/
def addSection (root : Entries) (s : Section) : Option Entries :=
  match s.path.getLast? with
  | none => none
  | some k =>
    let parents := s.path.dropLast
    if s.isArray then do
      let row ← addPairs [] s.pairs
      let change (_ : Bool) (es : Entries) : Option (Entries × Unit) :=
        match es.lookup k with
        | none => some (es ++ [(k, .tables [row])], ())
        | some (.tables rows) => some (es.replace k (.tables (rows ++ [row])), ())
        | some _ => none
      (descend false change parents false root).map Prod.fst
    else do
      let change (_ : Bool) (es : Entries) : Option (Entries × Unit) :=
        match es.lookup k with
        | none => do
          let sub ← addPairs [] s.pairs
          some (es ++ [(k, .table false false sub)], ())
        | some (.table true false sub) => do
          let sub ← addPairs sub s.pairs
          some (es.filter (·.1 != k) ++ [(k, .table false false sub)], ())
        | some _ => none
      (descend false change parents false root).map Prod.fst

def document? (pairs : List (List String × Value)) (sections : List Section) : Option Entries := do
  sections.foldlM addSection (← addPairs [] pairs)

end SyncPlan.Toml
