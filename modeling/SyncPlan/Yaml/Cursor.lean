/-!
A place in a YAML stream: the characters that are left and the line and column where they begin.
Every movement leaves at most as many characters as it found.
-/

namespace SyncPlan.Yaml

def isBlank (c : Char) : Bool := c == ' ' || c == '\t'

def isBreak (c : Char) : Bool :=
  c == '\n' || c == '\r' || c == '\u0085' || c == '\u2028' || c == '\u2029'

def isGap (c : Char) : Bool := isBlank c || isBreak c

/-- Nothing, a blank or a break comes next, so that an indicator before it stands alone. -/
def endsWord (cs : List Char) : Bool := cs.head?.all isGap

/-- The characters of directive names, anchors and tag handles. -/
def isNameChar (c : Char) : Bool := c.isAlphanum || c == '_' || c == '-'

structure Cursor where
  rest : List Char
  line : Nat := 0
  column : Nat := 0
  deriving DecidableEq, Repr

namespace Cursor

def size (c : Cursor) : Nat := c.rest.length

/-- Passes characters of one line. -/
def advance (c : Cursor) (n : Nat) : Cursor :=
  { c with rest := c.rest.drop n, column := c.column + n }

def skipWhile (c : Cursor) (p : Char → Bool) : Cursor :=
  c.advance (c.rest.takeWhile p).length

/-- Passes to the next line by a break of some number of characters. -/
def wrap (c : Cursor) (n : Nat) : Cursor :=
  ⟨c.rest.drop n, c.line + 1, 0⟩

/-- The break that comes next, as text keeps it: a line separator or paragraph separator stays, and
every other break is a line feed. -/
def break? (c : Cursor) : Option (Char × Cursor) :=
  match c.rest with
  | '\r' :: '\n' :: _ => some ('\n', c.wrap 2)
  | x :: _ =>
    if x == '\u2028' || x == '\u2029' then some (x, c.wrap 1)
    else if isBreak x then some ('\n', c.wrap 1)
    else none
  | [] => none

/-- Passes the break that comes next, if one does. -/
def skipBreak (c : Cursor) : Cursor := (c.break?.map Prod.snd).getD c

/-- Passes blanks, and after them a comment up to the end of its line. -/
def skipComment (c : Cursor) : Cursor :=
  let c := c.skipWhile isBlank
  if c.rest.head? = some '#' then c.skipWhile (!isBreak ·) else c

/-- A marker of three equal characters, alone at the start of a line. -/
def atMarker (c : Cursor) (x : Char) : Bool :=
  c.column == 0 && c.rest.take 3 == [x, x, x] && endsWord (c.rest.drop 3)

def atDocumentMarker (c : Cursor) : Bool := c.atMarker '-' || c.atMarker '.'

theorem size_advance (c : Cursor) (n : Nat) : (c.advance n).size = c.size - n := by
  simp [size, advance]

theorem size_wrap (c : Cursor) (n : Nat) : (c.wrap n).size = c.size - n := by
  simp [size, wrap]

theorem size_skipWhile_le (c : Cursor) (p : Char → Bool) : (c.skipWhile p).size ≤ c.size := by
  simp [skipWhile, size_advance]

theorem size_lt_of_break? {c d : Cursor} {x : Char} (h : c.break? = some (x, d)) :
    d.size < c.size := by
  unfold break? at h
  split at h
  · rename_i heq
    simp only [Option.some.injEq, Prod.mk.injEq] at h
    rw [← h.2, size_wrap]
    simp only [size, heq, List.length_cons]
    omega
  · rename_i heq
    have hpos : (c.wrap 1).size < c.size := by
      rw [size_wrap]
      simp only [size, heq, List.length_cons]
      omega
    split at h
    · simp only [Option.some.injEq, Prod.mk.injEq] at h
      rw [← h.2]; exact hpos
    · split at h
      · simp only [Option.some.injEq, Prod.mk.injEq] at h
        rw [← h.2]; exact hpos
      · simp at h
  · simp at h

theorem size_skipBreak_le (c : Cursor) : c.skipBreak.size ≤ c.size := by
  unfold skipBreak
  cases h : c.break? with
  | none => simp
  | some p => exact Nat.le_of_lt (size_lt_of_break? (x := p.1) (d := p.2) h)

end Cursor

end SyncPlan.Yaml
