import SyncPlan.Yaml.Folded
import SyncPlan.Yaml.Literal
import SyncPlan.Yaml.Token

/-!
The tokens of a YAML stream, read from left to right. A token that may turn out to begin a mapping
key holds back the tokens behind it until a colon settles that it is one or a new line that it is
not; on a failure those still held back are lost.
-/

namespace SyncPlan.Yaml

/-- A token that begins a mapping key if a colon follows on its line. `number` counts the tokens
before it, and a required one must not be left without its colon. -/
structure PendingKey where
  required : Bool
  number : Nat
  place : Cursor
  deriving Repr

/-- The state of reading. `margin` is one more than the column of the innermost block, zero outside
of blocks, and `key` and `outerKeys` are the pending keys, innermost bracket first. Where the stream
is cut off the characters behind those of the place cannot be had. -/
structure Scan where
  place : Cursor
  margin : Nat := 0
  outerMargins : List Nat := []
  keyAllowed : Bool := true
  key : Option PendingKey := none
  outerKeys : List (Option PendingKey) := []
  queue : List Token := [.streamStart]
  taken : Nat := 0
  ended : Bool := false
  cutOff : Bool := false
  deriving Repr

namespace Scan

def inFlow (s : Scan) : Bool := !s.outerKeys.isEmpty

def push (s : Scan) (t : Token) : Scan := { s with queue := s.queue ++ [t] }

/-- Puts a token before the one of some number. -/
def insert (s : Scan) (number : Nat) (t : Token) : Scan :=
  { s with queue := s.queue.insertIdx (number - s.taken) t }

/-- A key can be at most 1024 characters long and never crosses a line. -/
def isStale (c : Cursor) (k : PendingKey) : Bool :=
  k.place.line < c.line || c.size + 1024 < k.place.size

/-- Gives up the keys that are too far back, which is a failure if one of them is required. -/
def dropStale (s : Scan) : Option Scan :=
  let stale := (s.key :: s.outerKeys).filterMap (·.filter (isStale s.place))
  if stale.any (·.required) then none
  else some { s with
    key := s.key.filter (!isStale s.place ·)
    outerKeys := s.outerKeys.map (·.filter (!isStale s.place ·)) }

/-- Gives up the pending key of the innermost bracket. -/
def dropKey (s : Scan) : Option Scan :=
  if s.key.any (·.required) then none else some { s with key := none }

/-- Notes that the next token may begin a key. -/
def saveKey (s : Scan) : Option Scan :=
  if s.keyAllowed then do
    let t ← s.dropKey
    let required := !s.inFlow && s.margin == s.place.column + 1
    some { t with key := some ⟨required, s.taken + s.queue.length, s.place⟩ }
  else some s

/-- Opens a block at a column, unless one is open there, with its token before that of some number
or last. -/
def openBlock (s : Scan) (column : Nat) (number : Option Nat) (t : Token) : Scan :=
  if s.inFlow || column < s.margin then s
  else
    let s := { s with outerMargins := s.margin :: s.outerMargins, margin := column + 1 }
    match number with
    | some n => s.insert n t
    | none => s.push t

/-- Closes the blocks whose content is indented further than a margin. -/
def closeBlocksTo (margin : Nat) (s : Scan) : Scan :=
  if s.inFlow then s
  else
    let closed := (s.margin :: s.outerMargins).takeWhile (margin < ·)
    let queue := s.queue ++ closed.map fun _ => .blockEnd
    match (s.margin :: s.outerMargins).dropWhile (margin < ·) with
    | [] => { s with queue, margin := 0, outerMargins := [] }
    | m :: outer => { s with queue, margin := m, outerMargins := outer }

/-- Passes blanks, comments and breaks. Outside of brackets a break allows a key, and a tab is no
blank where one is allowed. -/
def skipGap (flow : Bool) (allowed : Bool) (c : Cursor) : Bool × Cursor :=
  let c₁ := if c.column == 0 && c.rest.head? == some '\ufeff' then c.advance 1 else c
  let c₂ := c₁.skipWhile fun x => x == ' ' || (x == '\t' && (flow || !allowed))
  let c₃ := if c₂.rest.head? == some '#' then c₂.skipWhile (!isBreak ·) else c₂
  match _h : c₃.break? with
  | none => (allowed, c₃)
  | some (_, d) => skipGap flow (allowed || !flow) d
termination_by c.size
decreasing_by
  have h0 := Cursor.size_lt_of_break? _h
  have h1 : c₁.size ≤ c.size := by
    show (if _ then c.advance 1 else c).size ≤ c.size
    split
    · rw [Cursor.size_advance]; omega
    · exact Nat.le_refl _
  have h2 : c₂.size ≤ c₁.size := Cursor.size_skipWhile_le _ _
  have h3 : c₃.size ≤ c₂.size := by
    show (if _ then c₂.skipWhile _ else c₂).size ≤ c₂.size
    split
    · exact Cursor.size_skipWhile_le _ _
    · exact Nat.le_refl _
  omega

def endStream (s : Scan) : Option Scan := do
  let place := if s.place.column == 0 then s.place else s.place.wrap 0
  let t ← (closeBlocksTo 0 { s with place }).dropKey
  some { t.push .streamEnd with keyAllowed := false, ended := true }

/-- A token of the stream's own: a directive or a document marker. -/
def streamToken (s : Scan) (t : Token) (place : Cursor) : Option Scan := do
  let s ← (closeBlocksTo 0 s).dropKey
  some { s.push t with place, keyAllowed := false }

def openBracket (s : Scan) (t : Token) : Option Scan := do
  let s ← s.saveKey
  some { s.push t with
    place := s.place.advance 1, key := none, outerKeys := s.key :: s.outerKeys, keyAllowed := true }

def closeBracket (s : Scan) (t : Token) : Option Scan := do
  let s ← s.dropKey
  some { s.push t with
    place := s.place.advance 1
    key := s.outerKeys.head?.join
    outerKeys := s.outerKeys.tail
    keyAllowed := false }

def comma (s : Scan) : Option Scan := do
  let s ← s.dropKey
  some { s.push .comma with place := s.place.advance 1, keyAllowed := true }

/-- A dash or question mark that stands alone, or a colon before which no key is pending. -/
def indicator (s : Scan) (block t : Token) (keyAllowed : Bool) : Option Scan :=
  if !s.inFlow && !s.keyAllowed then none
  else do
    let s ← (s.openBlock s.place.column none block).dropKey
    some { s.push t with place := s.place.advance 1, keyAllowed }

def colon (s : Scan) : Option Scan :=
  match s.key with
  | some k =>
    let s := (s.insert k.number .key).openBlock k.place.column (some k.number) .mappingOpen
    some { s.push .value with place := s.place.advance 1, key := none, keyAllowed := false }
  | none => s.indicator .mappingOpen .value (!s.inFlow)

/-- A token that may begin a key, read by a function from the place on. -/
def content (s : Scan) (read : Cursor → Option (Token × Cursor)) : Option Scan := do
  let s ← s.saveKey
  let (t, place) ← read s.place
  some { s.push t with place, keyAllowed := false }

def named (make : String → Token) (c : Cursor) : Option (Token × Cursor) := do
  let (name, d) ← anchorName (c.advance 1)
  some (make name, d)

def quoted (q : Quote) (c : Cursor) : Option (Token × Cursor) := do
  let (text, d) ← quotedFrom q (c.advance 1)
  some (.scalar .quoted (String.ofList text), d)

def plain (s : Scan) : Option Scan := do
  let s ← s.saveKey
  let (text, broken, place) ← plainFrom s.inFlow s.margin s.place
  some { s.push (.scalar .plain (String.ofList text)) with place, keyAllowed := broken }

def block (s : Scan) (style : Style) : Option Scan := do
  let s ← s.dropKey
  let (text, place) ← blockScalar (style == .literal) s.margin (s.place.advance 1)
  some { s.push (.scalar style (String.ofList text)) with place, keyAllowed := true }

/-- The characters that begin no plain scalar, apart from those that do when a word follows. -/
def isIndicator (c : Char) : Bool := "-?:,[]\x7b\x7d#&*!|>'\"%@\x60".toList.contains c

def beginsPlain (flow : Bool) (c : Char) (rest : List Char) : Bool :=
  !(isGap c || isIndicator c) || (c == '-' && !rest.head?.any isBlank) ||
    (!flow && (c == '?' || c == ':') && !endsWord rest)

/-- Reads what comes next behind a gap. -/
def token (s : Scan) : Option Scan :=
  match s.place.rest with
  | [] => s.endStream
  | c :: rest =>
    let flow := s.inFlow
    let alone := endsWord rest
    if c == '%' && s.place.column == 0 then do
      let (t, place) ← directive (s.place.advance 1)
      s.streamToken t place
    else if s.place.atMarker '-' then s.streamToken .documentStart (s.place.advance 3)
    else if s.place.atMarker '.' then s.streamToken .documentEnd (s.place.advance 3)
    else if c == '[' then s.openBracket .bracketOpen
    else if c == '\x7b' then s.openBracket .braceOpen
    else if c == ']' then s.closeBracket .bracketClose
    else if c == '\x7d' then s.closeBracket .braceClose
    else if c == ',' then s.comma
    else if c == '-' && alone then s.indicator .sequenceOpen .entry true
    else if c == '?' && (flow || alone) then s.indicator .mappingOpen .key (!flow)
    else if c == ':' && (flow || alone) then s.colon
    else if c == '*' then s.content (named .alias)
    else if c == '&' then s.content (named .anchor)
    else if c == '!' then s.content (tagFrom flow)
    else if c == '|' && !flow then s.block .literal
    else if c == '>' && !flow then s.block .folded
    else if c == '\'' then s.content (quoted .single)
    else if c == '"' then s.content (quoted .double)
    else if beginsPlain flow c rest then s.plain
    else none

/-- From a place on so many characters can be had, unless the whole stream can. -/
def sees (s : Scan) (n : Nat) (c : Cursor) : Bool := !s.cutOff || n ≤ c.size

/-- Passes a gap and reads the token behind it, for which it looks four characters ahead, and one
behind the token. -/
def next (s : Scan) : Option Scan := do
  let (keyAllowed, place) := skipGap s.inFlow s.keyAllowed s.place
  let s ← { s with place, keyAllowed }.dropStale
  guard (s.sees 4 place)
  let t ← (closeBlocksTo (place.column + 1) s).token
  guard (s.sees 1 t.place)
  some t

/-- The tokens at the head of the queue that no pending key holds back. -/
def release (s : Scan) : List Token × Scan :=
  let numbers := (s.key :: s.outerKeys).filterMap (·.map PendingKey.number)
  let free := numbers.foldl (fun n k => min n (k - s.taken)) s.queue.length
  (s.queue.take free, { s with queue := s.queue.drop free, taken := s.taken + free })

/-- The tokens from a state on, and whether the stream ends without a failure. Each token but the
last takes at least one character. -/
def run (s : Scan) : List Token × Bool :=
  match s.dropStale with
  | none => ([], false)
  | some kept =>
    let (tokens, held) := kept.release
    if s.ended then (tokens, true)
    else match held.next with
    | none => (tokens, false)
    | some t =>
      if t.ended ∨ t.place.size < s.place.size then
        let (more, sound) := run t
        (tokens ++ more, sound)
      else (tokens, false)
termination_by ((if s.ended then 0 else 1), s.place.size)
decreasing_by
  rename_i hs ht
  have hs : s.ended = false := by simpa using hs
  by_cases he : t.ended = true
  · exact Prod.Lex.left _ _ (by simp [he, hs])
  · have hlt := ht.resolve_left he
    simp only [he, hs]
    exact Prod.Lex.right _ hlt

end Scan

/-- A byte order mark may stand before the stream. -/
def Scan.start (cs : List Char) (cutOff : Bool := false) : Scan :=
  { place := { rest := if cs.head? == some '\ufeff' then cs.drop 1 else cs }, cutOff }

/-- The characters that may occur in a stream. -/
def isStreamChar (c : Char) : Bool :=
  let n := c.toNat
  n == 0x09 || n == 0x0A || n == 0x0D || (0x20 ≤ n && n ≤ 0x7E) || n == 0x85 ||
    (0xA0 ≤ n && n ≤ 0xD7FF) || (0xE000 ≤ n && n ≤ 0xFFFD) || 0x10000 ≤ n

/-- The octets of a stream that are decoded at once. -/
def chunkSize : Nat := 16384

/-- The characters of the chunks before the first with a forbidden character. A chunk takes the
characters that its octets hold whole; `room` is left in the present one, and `chunk` is what it has
so far, the last first. -/
def decodable (room : Nat) (chunk : List Char) : List Char → List Char
  | [] => chunk.reverse
  | c :: cs =>
    if c.utf8Size ≤ room then
      if isStreamChar c then decodable (room - c.utf8Size) (c :: chunk) cs else []
    else
      chunk.reverse ++
        if isStreamChar c then decodable (chunkSize - c.utf8Size) [c] cs else []

/-- The tokens of a stream, which a forbidden character cuts off before the chunk that it is in. -/
def tokens (cs : List Char) : List Token × Bool :=
  (Scan.start (decodable chunkSize [] cs) (!cs.all isStreamChar)).run

end SyncPlan.Yaml
