/-!
Paths as texts. A text is split at its slashes into pieces, of which the empty ones and the single
points stand for nothing, apart from a slash or a single point at the start. The parent of a path is
found in its text alone.
-/

namespace SyncPlan

/-- What a path starts from: the root, the working directory by a point, or nothing written. -/
inductive Anchor
  | root
  | point
  | none
  deriving DecidableEq, Repr

structure Path where
  anchor : Anchor
  pieces : List String
  deriving DecidableEq, Repr

namespace Path

/-- The pieces between the slashes of a text, one more than it has slashes. -/
def splitSlashes : List Char → List (List Char)
  | [] => [[]]
  | c :: cs =>
    if c == '/' then [] :: splitSlashes cs
    else match splitSlashes cs with
    | [] => [[c]]
    | p :: ps => (c :: p) :: ps

def piecesOf (cs : List Char) : List String := (splitSlashes cs).map String.ofList

def ofText (s : String) : Path :=
  match s.toList with
  | '/' :: cs => ⟨.root, piecesOf cs⟩
  | ['.'] => ⟨.point, []⟩
  | '.' :: '/' :: cs => ⟨.point, piecesOf cs⟩
  | cs => ⟨.none, piecesOf cs⟩

def text (p : Path) : String :=
  match p.anchor with
  | .root => "/" ++ "/".intercalate p.pieces
  | .point => "." ++ String.join (p.pieces.map ("/" ++ ·))
  | .none => "/".intercalate p.pieces

/-- A piece that does not lead anywhere. -/
def isIdle (piece : String) : Bool := piece == "" || piece == "."

def trimIdle (pieces : List String) : List String := (pieces.reverse.dropWhile isIdle).reverse

/-- The path without its last piece that leads somewhere, and without the idle pieces around it. -/
def parent? (p : Path) : Option Path :=
  match trimIdle p.pieces with
  | [] => if p.anchor = .point then some ⟨.none, []⟩ else none
  | pieces => some { p with pieces := trimIdle pieces.dropLast }

theorem length_trimIdle_le (pieces : List String) : (trimIdle pieces).length ≤ pieces.length := by
  have := (List.dropWhile_sublist isIdle (l := pieces.reverse)).length_le
  simpa [trimIdle] using this

def weight (p : Path) : Nat := p.pieces.length + if p.anchor = .point then 1 else 0

theorem weight_lt_of_parent? {p q : Path} (h : p.parent? = some q) : q.weight < p.weight := by
  unfold parent? at h
  split at h
  · split at h
    · rename_i ha
      obtain rfl := Option.some.inj h
      simp [weight, ha]
    · simp at h
  · rename_i hne
    obtain rfl := Option.some.inj h
    have h1 := length_trimIdle_le p.pieces
    have h2 := length_trimIdle_le (trimIdle p.pieces).dropLast
    have h3 : 0 < (trimIdle p.pieces).length := List.length_pos_iff.2 hne
    simp only [List.length_dropLast] at h2
    simp only [weight]
    omega

/-- A path and its parents, nearest first. -/
def ancestry (p : Path) : List Path :=
  match _h : p.parent? with
  | none => [p]
  | some q => p :: q.ancestry
termination_by p.weight
decreasing_by exact weight_lt_of_parent? _h

/-- The text of a name within a directory. -/
def join (directory name : String) : String :=
  if directory.isEmpty || directory.toList.getLast? == some '/' then directory ++ name
  else directory ++ "/" ++ name

/-- What stands behind the last point of the last piece, unless that piece starts with its only
point. -/
def extension? (p : Path) : Option String :=
  match (trimIdle p.pieces).getLast? with
  | none => none
  | some ".." => none
  | some name =>
    let reversed := name.toList.reverse
    let tail := reversed.dropWhile (· != '.')
    if tail.length ≤ 1 then none
    else some (String.ofList (reversed.takeWhile (· != '.')).reverse)

end Path

end SyncPlan
