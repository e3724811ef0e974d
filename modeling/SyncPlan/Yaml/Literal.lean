import SyncPlan.Yaml.Cursor

/-!
Block scalars: the text of the lines that are indented at least as far as the first one, with its
line breaks kept or folded and those at its end cut, kept once or all kept.
-/

namespace SyncPlan.Yaml

/-- What becomes of the breaks behind the last line. -/
inductive Chomp
  | strip
  | clip
  | keep
  deriving DecidableEq, Repr

def Chomp.ofChar? : Char → Option Chomp
  | '-' => some .strip
  | '+' => some .keep
  | _ => none

def indentDigit? (c : Char) : Option Nat := if c.isDigit then some (c.toNat - '0'.toNat) else none

/-- The indicators behind the mark of a block scalar, in either order, and their number. An
indentation of zero is refused. -/
def blockIndicators (cs : List Char) : Option (Chomp × Option Nat × Nat) :=
  match cs.head?.bind Chomp.ofChar?, cs.head?.bind indentDigit? with
  | some chomp, _ =>
    match (cs.drop 1).head?.bind indentDigit? with
    | some 0 => none
    | some n => some (chomp, some n, 2)
    | none => some (chomp, none, 1)
  | none, some 0 => none
  | none, some n =>
    match (cs.drop 1).head?.bind Chomp.ofChar? with
    | some chomp => some (chomp, some n, 2)
    | none => some (.clip, some n, 1)
  | none, none => some (.clip, none, 0)

/-- Passes empty lines and the indentation of the next line: the breaks, the widest indentation
seen, and the place. While the indentation is not known all blanks belong to it, and a tab is
refused within it. -/
def blockBreaks (indent : Option Nat) (widest : Nat) (c : Cursor) :
    Option (List Char × Nat × Cursor) :=
  let spaces := (c.rest.takeWhile (· == ' ')).length
  let d := c.advance (indent.elim spaces fun n => min spaces (n - c.column))
  let widest := max widest d.column
  if d.rest.head? == some '\t' && indent.all (d.column < ·) then none
  else match _h : d.break? with
  | none => some ([], widest, d)
  | some (b, e) =>
    (blockBreaks indent widest e).map fun (breaks, widest, f) => (b :: breaks, widest, f)
termination_by c.size
decreasing_by
  have hlt := Cursor.size_lt_of_break? _h
  have hle : d.size ≤ c.size := by
    show (c.advance _).size ≤ c.size
    rw [Cursor.size_advance]; omega
  omega

theorem size_le_of_blockBreaks {indent : Option Nat} {widest wide : Nat} {c d : Cursor}
    {breaks : List Char} (h : blockBreaks indent widest c = some (breaks, wide, d)) :
    d.size ≤ c.size := by
  have advance_le (c : Cursor) (n : Nat) : (c.advance n).size ≤ c.size := by
    rw [Cursor.size_advance]; omega
  fun_induction blockBreaks indent widest c generalizing breaks wide d with
  | case1 => simp at h
  | case2 =>
      simp only [Option.some.injEq, Prod.mk.injEq] at h
      rw [← h.2.2]
      exact advance_le _ _
  | case3 =>
      rename_i c _ _ _ _ b f hb ih
      simp only [Option.map_eq_some_iff, Prod.mk.injEq] at h
      obtain ⟨⟨breaks', wide'', g⟩, hg, -, -, hgd⟩ := h
      have h1 := ih hg
      have h2 := Nat.lt_of_lt_of_le (Cursor.size_lt_of_break? hb) (advance_le c _)
      simp only at hgd
      rw [← hgd]
      omega

/-- The text of the lines of a block scalar, and what stands behind its last line: the break of
that line, the empty lines, and the place. `lead` and `trail` are those behind the line before, and
`blank` says that it starts with a blank. -/
def blockLines (literal : Bool) (indent : Nat) (lead trail : List Char) (blank : Bool)
    (c : Cursor) : Option (List Char × List Char × List Char × Cursor) :=
  let line := c.rest.takeWhile (!isBreak ·)
  if _hl : c.column = indent ∧ line ≠ [] then
    let starts := c.rest.head?.any isBlank
    let folded := !literal && lead == ['\n'] && !blank && !starts
    let before := if folded then (if trail.isEmpty then [' '] else trail) else lead ++ trail
    let d := c.advance line.length
    let lead := (d.break?.map Prod.fst).toList
    match _h : blockBreaks (some indent) 0 d.skipBreak with
    | none => none
    | some (trail, _, e) =>
      (blockLines literal indent lead trail starts e).map fun (text, rest) =>
        (before ++ line ++ text, rest)
  else some ([], lead, trail, c)
termination_by c.size
decreasing_by
  have hle := size_le_of_blockBreaks _h
  have hb := Cursor.size_skipBreak_le d
  have hd : d.size < c.size := by
    show (c.advance line.length).size < c.size
    rw [Cursor.size_advance]
    have h1 : 0 < line.length := List.length_pos_iff.2 _hl.2
    have h2 : line.length ≤ c.size := List.takeWhile_sublist _ |>.length_le
    omega
  omega

/-- A block scalar from behind its mark on, in a block whose content begins at a margin. -/
def blockScalar (literal : Bool) (margin : Nat) (c : Cursor) : Option (List Char × Cursor) := do
  let (chomp, increment, n) ← blockIndicators c.rest
  let d := (c.advance n).skipComment
  guard (d.rest.head?.all isBreak)
  let (trail, widest, e) ← blockBreaks (increment.map (margin - 1 + ·)) 0 d.skipBreak
  let indent := (increment.map (margin - 1 + ·)).getD (max widest (max margin 1))
  let (text, lead, trail, f) ← blockLines literal indent [] trail false e
  match chomp with
  | .strip => pure (text, f)
  | .clip => pure (text ++ lead, f)
  | .keep => pure (text ++ lead ++ trail, f)

end SyncPlan.Yaml
