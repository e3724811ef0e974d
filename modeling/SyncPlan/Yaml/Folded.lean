import SyncPlan.Yaml.Cursor
import SyncPlan.Text.Numeral

/-!
Plain and quoted scalars, whose lines are folded: the blanks between two words of one line are kept,
and the breaks between two lines count one less than they are, a single break being a space.
-/

namespace SyncPlan.Yaml

/-- What stands between two words: the blanks up to the first break, and the breaks. -/
structure Gap where
  blanks : List Char
  breaks : List Char
  deriving Repr

def Gap.text (g : Gap) : List Char :=
  match g.breaks with
  | [] => g.blanks
  | ['\n'] => [' ']
  | '\n' :: more => more
  | breaks => breaks

def Gap.isBroken (g : Gap) : Bool := !g.breaks.isEmpty

/-- Reads a gap. After a break a tab left of the margin is refused. -/
def gapFrom (margin : Nat) (broken : Bool) (c : Cursor) : Option (Gap × Cursor) :=
  match _h : c.rest with
  | [] => some (⟨[], []⟩, c)
  | x :: _ =>
    if isBlank x then
      if broken && c.column < margin && x == '\t' then none
      else match gapFrom margin broken (c.advance 1) with
        | none => none
        | some (g, d) => some (if broken then g else { g with blanks := x :: g.blanks }, d)
    else match _hb : c.break? with
    | none => some (⟨[], []⟩, c)
    | some (b, d) =>
      match gapFrom margin true d with
      | none => none
      | some (g, e) => some ({ g with breaks := b :: g.breaks }, e)
termination_by c.size
decreasing_by
  · rw [Cursor.size_advance]
    simp only [Cursor.size, _h, List.length_cons]
    omega
  · exact Cursor.size_lt_of_break? _hb

theorem size_le_of_gapFrom {margin : Nat} {broken : Bool} {c d : Cursor} {g : Gap}
    (h : gapFrom margin broken c = some (g, d)) : d.size ≤ c.size := by
  fun_induction gapFrom margin broken c generalizing g d with
  | case1 | case3 | case5 | case6 => simp_all
  | case2 => simp at h
  | case4 broken c x _ _ _ _ _ _ hg ih =>
      simp only [Option.some.injEq, Prod.mk.injEq] at h
      have := ih hg
      rw [Cursor.size_advance] at this
      rw [← h.2]; omega
  | case7 broken c x _ _ _ b d' hb g' e he ih =>
      simp only [Option.some.injEq, Prod.mk.injEq] at h
      have := ih he
      have := Cursor.size_lt_of_break? hb
      rw [← h.2]; omega

theorem break?_ne_none {c : Cursor} {x : Char} {r : List Char} (hc : c.rest = x :: r)
    (hx : isBreak x = true) : c.break? ≠ none := by
  unfold Cursor.break?
  split
  · simp
  · rename_i heq
    rw [hc] at heq
    obtain ⟨rfl, -⟩ := List.cons.inj heq
    split <;> simp
  · simp_all

theorem size_lt_of_gapFrom {margin : Nat} {broken : Bool} {c d : Cursor} {g : Gap}
    (hc : c.rest.head?.any isGap = true) (h : gapFrom margin broken c = some (g, d)) :
    d.size < c.size := by
  unfold gapFrom at h
  split at h
  · simp_all
  · rename_i x r heq
    split at h
    · split at h
      · simp at h
      · split at h
        · simp at h
        · rename_i hg
          have hle := size_le_of_gapFrom hg
          simp only [Option.some.injEq, Prod.mk.injEq] at h
          rw [Cursor.size_advance] at hle
          have : 0 < c.size := by simp [Cursor.size, heq]
          rw [← h.2]; omega
    · rename_i hblank
      split at h
      · rename_i hb
        have hx : isBreak x = true := by simpa [heq, isGap, hblank] using hc
        exact absurd hb (break?_ne_none heq hx)
      · rename_i hb
        split at h
        · simp at h
        · rename_i hg
          have hle := size_le_of_gapFrom hg
          have hlt := Cursor.size_lt_of_break? hb
          simp only [Option.some.injEq, Prod.mk.injEq] at h
          rw [← h.2]; omega

def isFlowEnd (c : Char) : Bool :=
  c == ',' || c == '[' || c == ']' || c == '\x7b' || c == '\x7d'

/-- The characters up to a gap or an indicator that ends a plain scalar. Inside brackets a colon
before another indicator is refused. -/
def plainRun (flow : Bool) : List Char → Option (List Char)
  | [] => some []
  | c :: rest =>
    if isGap c then some []
    else if flow && c == ':' && rest.head?.any (fun d => isFlowEnd d || d == '?') then none
    else if c == ':' && endsWord rest then some []
    else if flow && isFlowEnd c then some []
    else (plainRun flow rest).map (c :: ·)

/-- A plain scalar from one of its words on, whether a break stands after its last word, and where
the next token may begin. -/
def plainFrom (flow : Bool) (margin : Nat) (c : Cursor) : Option (List Char × Bool × Cursor) :=
  if c.atDocumentMarker || c.rest.head? == some '#' then some ([], false, c)
  else match plainRun flow c.rest with
  | none => none
  | some run =>
    let d := c.advance run.length
    if _hd : d.rest.head?.any isGap then
      match _hg : gapFrom margin false d with
      | none => none
      | some (g, e) =>
        if !flow && e.column < margin then some (run, g.isBroken, e)
        else match plainFrom flow margin e with
        | none => none
        | some (more, broken, f) =>
          if more.isEmpty then some (run, g.isBroken, f)
          else some (run ++ g.text ++ more, broken, f)
    else some (run, false, d)
termination_by c.size
decreasing_by
  have hlt := size_lt_of_gapFrom _hd _hg
  have hle : d.size ≤ c.size := by
    show (c.advance run.length).size ≤ c.size
    rw [Cursor.size_advance]; omega
  omega

inductive Quote
  | single
  | double
  deriving DecidableEq, Repr

def Quote.mark : Quote → Char
  | .single => '\''
  | .double => '"'

/-- What an escape letter stands for: a character, or a code of some number of hexadecimal
digits. -/
inductive Escape
  | char (c : Char)
  | code (digits : Nat)

def escape? : Char → Option Escape
  | '0' => some (.char '\x00')
  | 'a' => some (.char '\x07')
  | 'b' => some (.char '\x08')
  | 't' => some (.char '\t')
  | '\t' => some (.char '\t')
  | 'n' => some (.char '\n')
  | 'v' => some (.char '\x0b')
  | 'f' => some (.char '\x0c')
  | 'r' => some (.char '\r')
  | 'e' => some (.char '\x1b')
  | ' ' => some (.char ' ')
  | '"' => some (.char '"')
  | '/' => some (.char '/')
  | '\\' => some (.char '\\')
  | 'N' => some (.char '\u0085')
  | '_' => some (.char '\u00a0')
  | 'L' => some (.char '\u2028')
  | 'P' => some (.char '\u2029')
  | 'x' => some (.code 2)
  | 'u' => some (.code 4)
  | 'U' => some (.code 8)
  | _ => none

/-- The character of a code of exactly so many hexadecimal digits. -/
def codePoint? (digits : Nat) (cs : List Char) : Option Char :=
  if cs.length < digits then none
  else match Text.natural? 16 (cs.take digits) with
  | none => none
  | some n => if n.isValidChar then some (Char.ofNat n) else none

/-- The text of a quoted scalar up to a gap, its closing mark or an escaped break, and how many
characters it takes. -/
def quotedRun (q : Quote) (cs : List Char) : Option (List Char × Nat) :=
  match cs with
  | [] => some ([], 0)
  | c :: rest =>
    if isGap c then some ([], 0)
    else match q, c, rest with
    | .single, '\'', '\'' :: rest => (quotedRun q rest).map fun (t, n) => ('\'' :: t, n + 2)
    | .single, '\'', _ => some ([], 0)
    | .double, '"', _ => some ([], 0)
    | .double, '\\', [] => none
    | .double, '\\', e :: rest =>
      if isBreak e then some ([], 0)
      else match escape? e with
      | none => none
      | some (.char x) => (quotedRun q rest).map fun (t, n) => (x :: t, n + 2)
      | some (.code k) =>
        match codePoint? k rest with
        | none => none
        | some x => (quotedRun q (rest.drop k)).map fun (t, n) => (x :: t, n + 2 + k)
    | _, _, rest => (quotedRun q rest).map fun (t, n) => (c :: t, n + 1)
termination_by cs.length
decreasing_by
  all_goals simp only [List.length_cons, List.length_drop]; omega

/-- A quoted scalar from one of its words on, behind the opening mark, and the place behind the
closing one. -/
def quotedFrom (q : Quote) (c : Cursor) : Option (List Char × Cursor) :=
  if c.atDocumentMarker then none
  else match quotedRun q c.rest with
  | none => none
  | some (run, n) =>
    let d := c.advance n
    match _h : d.rest with
    | [] => none
    | x :: _ =>
      if x = q.mark then some (run, d.advance 1)
      else if _hd : d.rest.head?.any isGap then
        match _hg : gapFrom 0 false d with
        | none => none
        | some (g, e) => (quotedFrom q e).map fun (more, f) => (run ++ g.text ++ more, f)
      else
        match _hg : gapFrom 0 true (d.advance 1).skipBreak with
        | none => none
        | some (g, e) => (quotedFrom q e).map fun (more, f) => (run ++ g.breaks ++ more, f)
termination_by c.size
decreasing_by
  · have hlt := size_lt_of_gapFrom _hd _hg
    have hle : d.size ≤ c.size := by
      show (c.advance n).size ≤ c.size
      rw [Cursor.size_advance]; omega
    omega
  · have hle := size_le_of_gapFrom _hg
    have hb := Cursor.size_skipBreak_le (d.advance 1)
    have hd : (d.advance 1).size < d.size := by
      rw [Cursor.size_advance]
      simp only [Cursor.size, _h, List.length_cons]
      omega
    have hc : d.size ≤ c.size := by
      show (c.advance n).size ≤ c.size
      rw [Cursor.size_advance]; omega
    omega

end SyncPlan.Yaml
