import SyncPlan.Text.Numeral

/-!
The texts of a TOML document: blanks, comments and line ends, bare and quoted keys, and the four
forms of strings. Every reader gives what it has read and the characters behind it.
-/

namespace SyncPlan.Toml

def isBlank (c : Char) : Bool := c == ' ' || c == '\t'

def skipBlanks (cs : List Char) : List Char := cs.dropWhile isBlank

/-- Passes one line end, a line feed with or without a carriage return before it. -/
def lineEnd? : List Char → Option (List Char)
  | '\n' :: cs => some cs
  | '\r' :: '\n' :: cs => some cs
  | _ => none

/-- The characters that stand for themselves in a comment or in a string on one line. -/
def isPlainChar (c : Char) : Bool := c == '\t' || (0x20 ≤ c.toNat && c.toNat != 0x7F)

/-- Passes a comment if one begins here. -/
def skipComment : List Char → List Char
  | '#' :: cs => cs.dropWhile isPlainChar
  | cs => cs

/-- Passes the rest of a line, which holds blanks and a comment at most. -/
def restOfLine? (cs : List Char) : Option (List Char) :=
  match skipComment (skipBlanks cs) with
  | [] => some []
  | rest => lineEnd? rest

theorem length_dropWhile_le (p : Char → Bool) (cs : List Char) :
    (cs.dropWhile p).length ≤ cs.length :=
  (List.dropWhile_sublist p).length_le

theorem length_skipComment_le (cs : List Char) : (skipComment cs).length ≤ cs.length := by
  unfold skipComment
  split
  · have := length_dropWhile_le isPlainChar (by assumption)
    simp only [List.length_cons]
    omega
  · exact Nat.le_refl _

theorem length_lt_of_lineEnd? {cs rest : List Char} (h : lineEnd? cs = some rest) :
    rest.length < cs.length := by
  unfold lineEnd? at h
  split at h <;> simp only [Option.some.injEq, reduceCtorEq] at h <;> subst h <;>
    simp only [List.length_cons] <;> omega

/-- Passes blanks, line ends and the comments before line ends. -/
def skipLines (cs : List Char) : List Char :=
  let rest := skipBlanks cs
  match _h : lineEnd? (skipComment rest) with
  | some next => skipLines next
  | none => rest
termination_by cs.length
decreasing_by
  have h1 := length_lt_of_lineEnd? _h
  have h2 := length_skipComment_le rest
  have h3 : rest.length ≤ cs.length := length_dropWhile_le isBlank cs
  omega

/-- What an escape letter stands for, if it is not one of a code. -/
def escape? : Char → Option Char
  | 'b' => some '\x08'
  | 't' => some '\t'
  | 'n' => some '\n'
  | 'f' => some '\x0c'
  | 'r' => some '\r'
  | '"' => some '"'
  | '\\' => some '\\'
  | _ => none

def codePoint? (digits : List Char) : Option Char := do
  let n ← Text.natural? 16 digits
  if n.isValidChar then some (Char.ofNat n) else none

/-- An escape behind its backslash. -/
def escaped? : List Char → Option (Char × List Char)
  | 'u' :: a :: b :: c :: d :: cs => (codePoint? [a, b, c, d]).map (·, cs)
  | 'U' :: a :: b :: c :: d :: e :: f :: g :: h :: cs =>
    (codePoint? [a, b, c, d, e, f, g, h]).map (·, cs)
  | c :: cs => (escape? c).map (·, cs)
  | [] => none

theorem length_lt_of_escaped? {cs rest : List Char} {c : Char}
    (h : escaped? cs = some (c, rest)) : rest.length < cs.length := by
  unfold escaped? at h
  split at h <;> simp only [Option.map_eq_some_iff, Prod.mk.injEq, reduceCtorEq] at h
  all_goals
    obtain ⟨_, _, _, rfl⟩ := h
    simp only [List.length_cons]
    omega

/-- A basic string behind its opening quote. -/
def basic? (cs : List Char) : Option (List Char × List Char) :=
  match cs with
  | [] => none
  | '"' :: rest => some ([], rest)
  | '\\' :: rest =>
    match _h : escaped? rest with
    | none => none
    | some (c, rest) => (basic? rest).map fun (s, rest) => (c :: s, rest)
  | c :: rest =>
    if isPlainChar c then (basic? rest).map fun (s, rest) => (c :: s, rest) else none
termination_by cs.length
decreasing_by
  · have := length_lt_of_escaped? _h
    simp only [List.length_cons]
    omega
  · simp

/-- A literal string behind its opening quote. -/
def literal? : List Char → Option (List Char × List Char)
  | [] => none
  | '\'' :: rest => some ([], rest)
  | c :: rest =>
    if isPlainChar c then (literal? rest).map fun (s, rest) => (c :: s, rest) else none

/-- The quotes before the end of a string of several lines: up to two belong to it and three end
it. -/
def closing? (quote : Char) (cs : List Char) : Option (List Char × List Char) :=
  let n := (cs.takeWhile (· == quote)).length
  if n < 3 then none else some (List.replicate (min (n - 3) 2) quote, cs.drop (min n 5))

/-- Passes blanks and line ends. -/
def skipEmptyLines (cs : List Char) : List Char :=
  let rest := skipBlanks cs
  match _h : lineEnd? rest with
  | some next => skipEmptyLines next
  | none => rest
termination_by cs.length
decreasing_by
  have h1 := length_lt_of_lineEnd? _h
  have h2 : rest.length ≤ cs.length := length_dropWhile_le isBlank cs
  omega

theorem length_skipEmptyLines_le (cs : List Char) : (skipEmptyLines cs).length ≤ cs.length := by
  fun_induction skipEmptyLines cs with
  | case1 cs rest next h ih =>
      have h1 := length_lt_of_lineEnd? h
      have h2 : rest.length ≤ cs.length := length_dropWhile_le isBlank cs
      omega
  | case2 cs rest _ => exact length_dropWhile_le isBlank cs

/-- Passes the blanks and line ends behind a backslash at the end of a line. -/
def folded? (cs : List Char) : Option (List Char) :=
  (lineEnd? (skipBlanks cs)).map skipEmptyLines

theorem length_le_of_folded? {cs rest : List Char} (h : folded? cs = some rest) :
    rest.length ≤ cs.length := by
  unfold folded? at h
  obtain ⟨next, hn, rfl⟩ := Option.map_eq_some_iff.1 h
  have h1 := length_skipEmptyLines_le next
  have h2 := length_lt_of_lineEnd? hn
  have h3 : (skipBlanks cs).length ≤ cs.length := length_dropWhile_le isBlank cs
  omega

/-- A string of several lines behind its opening quotes and the line end after them. -/
def multiline? (quote : Char) (cs : List Char) : Option (List Char × List Char) :=
  match closing? quote cs with
  | some found => some found
  | none =>
    match cs with
    | [] => none
    | '\r' :: '\n' :: rest => (multiline? quote rest).map fun (s, rest) => ('\n' :: s, rest)
    | c :: rest =>
      if c == '\\' && quote == '"' then
        match _h : folded? rest with
        | some rest => multiline? quote rest
        | none =>
          match _h : escaped? rest with
          | none => none
          | some (c, rest) => (multiline? quote rest).map fun (s, rest) => (c :: s, rest)
      else if c == '\n' || isPlainChar c then
        (multiline? quote rest).map fun (s, rest) => (c :: s, rest)
      else none
termination_by cs.length
decreasing_by
  · simp only [List.length_cons]; omega
  · have := length_le_of_folded? _h
    simp only [List.length_cons]; omega
  · have := length_lt_of_escaped? _h
    simp only [List.length_cons]; omega
  · simp

/-- A string of any form. -/
def string? : List Char → Option (List Char × List Char)
  | '"' :: '"' :: '"' :: cs => multiline? '"' ((lineEnd? cs).getD cs)
  | '\'' :: '\'' :: '\'' :: cs => multiline? '\'' ((lineEnd? cs).getD cs)
  | '"' :: cs => basic? cs
  | '\'' :: cs => literal? cs
  | _ => none

def isBareKeyChar (c : Char) : Bool := c.isAlphanum || c == '-' || c == '_'

/-- One part of a key. -/
def keyPart? : List Char → Option (List Char × List Char)
  | '"' :: cs => basic? cs
  | '\'' :: cs => literal? cs
  | cs =>
    let name := cs.takeWhile isBareKeyChar
    if name.isEmpty then none else some (name, cs.dropWhile isBareKeyChar)

/-- The parts of a key from one of them on, with blanks around the points between them. -/
def keyParts? (cs : List Char) : Option (List String × List Char) :=
  match keyPart? (skipBlanks cs) with
  | none => none
  | some (part, rest) =>
    match skipBlanks rest with
    | '.' :: rest =>
      if rest.length < cs.length then
        (keyParts? rest).map fun (parts, rest) => (String.ofList part :: parts, rest)
      else none
    | rest => some ([String.ofList part], rest)
termination_by cs.length

/-- A key of at most seventy-nine parts. -/
def key? (cs : List Char) : Option (List String × List Char) :=
  (keyParts? cs).filter fun k => k.1.length < 80

end SyncPlan.Toml
