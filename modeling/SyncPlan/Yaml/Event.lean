import SyncPlan.Yaml.Scan

/-!
The first document of a YAML stream as a list of events: scalars, aliases, and the starts and ends
of sequences and mappings. The grammar is a stack of expectations to which the tokens are fed one by
one. Each token is taken by some expectation, and an expectation that passes it on leaves lighter
ones behind.
-/

namespace SyncPlan.Yaml

inductive Event
  | alias (number : Nat)
  | scalar (anchor : Option Nat) (tag : Option Octets) (style : Style) (text : String)
  | sequenceStart (anchor : Option Nat)
  | sequenceEnd
  | mappingStart (anchor : Option Nat)
  | mappingEnd
  deriving DecidableEq, Repr

def Event.anchor : Event → Option Nat
  | .scalar a _ _ _ => a
  | .sequenceStart a => a
  | .mappingStart a => a
  | _ => none

/-- The node that stands where none is written. -/
def Event.empty : Event := .scalar none none .plain ""

/-- What the grammar expects next. -/
inductive Want
  | stream
  | document
  | directives
  | content
  | documentEnd
  | streamEnd
  | node (block indentless : Bool) (anchor : Option String) (tag : Option Octets)
  | entry
  | entryNode
  | indentless
  | indentlessNode
  | key
  | keyNode
  | value
  | valueNode
  | bracketItem
  | bracketNext
  | pairKey
  | pairValue
  | pairValueNode
  | pairEnd
  | braceItem
  | braceNext
  | braceKey
  | braceValue
  | braceEmpty
  | braceValueNode
  deriving DecidableEq, Repr

def Want.weight : Want → Nat
  | .document | .entryNode | .indentlessNode | .keyNode | .valueNode => 6
  | .bracketItem | .pairKey | .pairValueNode | .braceItem | .braceKey | .braceValueNode => 6
  | .content | .pairValue => 3
  | .node .. | .documentEnd | .value | .pairEnd | .braceValue | .braceEmpty => 2
  | _ => 1

/-- The weight of several expectations together. -/
def Want.total : List Want → Nat
  | [] => 0
  | w :: ws => w.weight + total ws

/-- The state of the grammar: what it expects, the handles of tags, and the anchors known so far
with their numbers. -/
structure Grammar where
  wants : List Want := [.stream]
  versioned : Bool := false
  handles : List (String × Octets) := []
  anchors : List (String × Nat) := []
  deriving Repr

namespace Grammar

def weight (g : Grammar) : Nat := Want.total g.wants

/-- The tag of a handle and a suffix, the handles of the stream coming before the usual two. -/
def tag? (g : Grammar) (handle : String) (suffix : Octets) : Option Octets :=
  if handle.isEmpty then some suffix
  else
    let usual := [("!", asciiOctets ['!']), ("!!", asciiOctets "tag:yaml.org,2002:".toList)]
    ((g.handles ++ usual).lookup handle).map (· ++ suffix)

/-- Gives a name the next number, which is how many names are known. -/
def name (g : Grammar) : Option String → Option Nat × Grammar
  | none => (none, g)
  | some s =>
    let n := g.anchors.length
    (some n, { g with anchors := (s, n) :: g.anchors.filter (·.1 != s) })

/-- What becomes of a token: it is taken or passed on, in both cases after some events, or it fits
nowhere. -/
inductive Step
  | take (events : List Event) (g : Grammar)
  | pass (events : List Event) (g : Grammar)
  | fail

/-- The tag that a scalar keeps; the lone mark says only that the text is no number. -/
def scalarTag (tag : Option Octets) : Option Octets := tag.filter (· != asciiOctets ['!'])

/-- A token where a node is expected. -/
def stepNode (g : Grammar) (block indentless : Bool) (anchor : Option String) (tag : Option Octets)
    (rest : List Want) (t : Token) : Step :=
  let bare := anchor.isNone && tag.isNone
  let (number, h) := { g with wants := rest }.name anchor
  match t with
  | .anchor a =>
    if anchor.isNone then .take [] { g with wants := .node block indentless (some a) tag :: rest }
    else .pass [.scalar number (scalarTag tag) .plain ""] h
  | .tag handle suffix =>
    if tag.isNone then
      match g.tag? handle suffix with
      | none => .fail
      | some tag => .take [] { g with wants := .node block indentless anchor (some tag) :: rest }
    else .pass [.scalar number (scalarTag tag) .plain ""] h
  | .alias a =>
    if bare then
      match g.anchors.lookup a with
      | none => .fail
      | some n => .take [.alias n] { g with wants := rest }
    else .pass [.scalar number (scalarTag tag) .plain ""] h
  | .entry =>
    if indentless then .pass [.sequenceStart number] { h with wants := .indentless :: rest }
    else if bare then .fail
    else .pass [.scalar number (scalarTag tag) .plain ""] h
  | .scalar style text => .take [.scalar number (scalarTag tag) style text] h
  | .bracketOpen => .take [.sequenceStart number] { h with wants := .bracketItem :: rest }
  | .braceOpen => .take [.mappingStart number] { h with wants := .braceItem :: rest }
  | .sequenceOpen =>
    if block then .take [.sequenceStart number] { h with wants := .entry :: rest }
    else if bare then .fail
    else .pass [.scalar number (scalarTag tag) .plain ""] h
  | .mappingOpen =>
    if block then .take [.mappingStart number] { h with wants := .key :: rest }
    else if bare then .fail
    else .pass [.scalar number (scalarTag tag) .plain ""] h
  | _ => if bare then .fail else .pass [.scalar number (scalarTag tag) .plain ""] h

/-- A token where a node may be left out: it is, before some tokens, and otherwise expected. -/
def stepOptional (g : Grammar) (block indentless : Bool) (stops : List Token) (rest : List Want)
    (t : Token) : Step :=
  if stops.contains t then .pass [.empty] { g with wants := rest }
  else .pass [] { g with wants := .node block indentless none none :: rest }

def stepDirective (g : Grammar) (rest : List Want) (t : Token) : Step :=
  let next : Grammar := { g with wants := .directives :: rest }
  match t with
  | .version major minor =>
    if g.versioned || major != 1 || !(minor == 1 || minor == 2) then .fail
    else .take [] { next with versioned := true }
  | .tagDirective handle expansion =>
    if (g.handles.lookup handle).isSome then .fail
    else .take [] { next with handles := (handle, expansion) :: g.handles }
  | .documentStart => .take [] { g with wants := .content :: .documentEnd :: rest }
  | _ => .fail

def step (g : Grammar) (want : Want) (rest : List Want) (t : Token) : Step :=
  let become (wants : List Want) : Grammar := { g with wants := wants ++ rest }
  match want with
  | .stream => if t = .streamStart then .take [] (become [.document]) else .fail
  | .document =>
    match t with
    | .streamEnd => .take [] (become [])
    | .version .. | .tagDirective .. | .documentStart => g.stepDirective rest t
    | _ => .pass [] (become [.node true false none none, .documentEnd])
  | .directives => g.stepDirective rest t
  | .content =>
    match t with
    | .version .. | .tagDirective .. | .documentStart | .documentEnd | .streamEnd =>
      .pass [.empty] (become [])
    | _ => .pass [] (become [.node true false none none])
  | .documentEnd =>
    if t = .documentEnd then .take [] (become [.streamEnd]) else .pass [] (become [.streamEnd])
  | .streamEnd =>
    match t with
    | .documentEnd => .take [] (become [.streamEnd])
    | .streamEnd => .take [] (become [])
    | _ => .fail
  | .node block indentless anchor tag => g.stepNode block indentless anchor tag rest t
  | .entry =>
    match t with
    | .entry => .take [] (become [.entryNode])
    | .blockEnd => .take [.sequenceEnd] (become [])
    | _ => .fail
  | .entryNode => g.stepOptional true false [.entry, .blockEnd] (.entry :: rest) t
  | .indentless =>
    if t = .entry then .take [] (become [.indentlessNode]) else .pass [.sequenceEnd] (become [])
  | .indentlessNode =>
    g.stepOptional true false [.entry, .key, .value, .blockEnd] (.indentless :: rest) t
  | .key =>
    match t with
    | .key => .take [] (become [.keyNode])
    | .blockEnd => .take [.mappingEnd] (become [])
    | _ => .fail
  | .keyNode => g.stepOptional true true [.key, .value, .blockEnd] (.value :: rest) t
  | .value =>
    if t = .value then .take [] (become [.valueNode]) else .pass [.empty] (become [.key])
  | .valueNode => g.stepOptional true true [.key, .value, .blockEnd] (.key :: rest) t
  | .bracketItem =>
    match t with
    | .key => .take [.mappingStart none] (become [.pairKey])
    | .bracketClose => .take [.sequenceEnd] (become [])
    | _ => .pass [] (become [.node false false none none, .bracketNext])
  | .bracketNext =>
    match t with
    | .comma => .take [] (become [.bracketItem])
    | .bracketClose => .take [.sequenceEnd] (become [])
    | _ => .fail
  | .pairKey =>
    if t = .value ∨ t = .comma ∨ t = .bracketClose then .take [.empty] (become [.pairValue])
    else .pass [] (become [.node false false none none, .pairValue])
  | .pairValue =>
    if t = .value then .take [] (become [.pairValueNode]) else .pass [.empty] (become [.pairEnd])
  | .pairValueNode => g.stepOptional false false [.comma, .bracketClose] (.pairEnd :: rest) t
  | .pairEnd => .pass [.mappingEnd] (become [.bracketNext])
  | .braceItem =>
    match t with
    | .key => .take [] (become [.braceKey])
    | .braceClose => .take [.mappingEnd] (become [])
    | _ => .pass [] (become [.node false false none none, .braceEmpty])
  | .braceNext =>
    match t with
    | .comma => .take [] (become [.braceItem])
    | .braceClose => .take [.mappingEnd] (become [])
    | _ => .fail
  | .braceKey => g.stepOptional false false [.value, .comma, .braceClose] (.braceValue :: rest) t
  | .braceValue =>
    if t = .value then .take [] (become [.braceValueNode]) else .pass [.empty] (become [.braceNext])
  | .braceEmpty => .pass [.empty] (become [.braceNext])
  | .braceValueNode => g.stepOptional false false [.comma, .braceClose] (.braceNext :: rest) t

theorem weight_name (g : Grammar) (s : Option String) : (g.name s).2.weight = g.weight := by
  cases s <;> rfl

theorem weight_lt_of_stepNode {g h : Grammar} {block indentless : Bool} {anchor : Option String}
    {tag : Option Octets} {rest : List Want} {t : Token} {es : List Event}
    (hs : g.stepNode block indentless anchor tag rest t = .pass es h) :
    h.weight < 2 + Want.total rest := by
  have hw : ({ g with wants := rest }.name anchor).2.weight = Want.total rest :=
    weight_name _ _
  unfold stepNode at hs
  dsimp only at hs
  split at hs <;> (try split at hs) <;> (try split at hs) <;>
    simp only [reduceCtorEq, Step.pass.injEq] at hs
  all_goals first
    | (rw [← hs.2, hw]; omega)
    | (rw [← hs.2]; simp only [weight, Want.total, Want.weight]; omega)

theorem weight_lt_of_stepOptional {g h : Grammar} {block indentless : Bool} {stops : List Token}
    {rest : List Want} {t : Token} {es : List Event}
    (hs : g.stepOptional block indentless stops rest t = .pass es h) :
    h.weight ≤ 2 + Want.total rest := by
  unfold stepOptional at hs
  split at hs <;> simp only [Step.pass.injEq] at hs <;> rw [← hs.2] <;>
    simp only [weight, Want.total, Want.weight] <;> omega

theorem stepDirective_ne_pass {g h : Grammar} {rest : List Want} {t : Token} {es : List Event} :
    g.stepDirective rest t ≠ .pass es h := by
  unfold stepDirective
  dsimp only
  split <;> (try split) <;> simp

theorem weight_lt_of_step {g h : Grammar} {want : Want} {rest : List Want} {t : Token}
    {es : List Event} (hs : g.step want rest t = .pass es h) :
    h.weight < want.weight + Want.total rest := by
  unfold step at hs
  dsimp only at hs
  cases want <;> dsimp only at hs
  all_goals first
    | exact weight_lt_of_stepNode hs
    | exact absurd hs stepDirective_ne_pass
    | (have hle := weight_lt_of_stepOptional hs
       simp only [Want.total, Want.weight] at hle ⊢
       omega)
    | (repeat' split at hs)
  all_goals first
    | exact absurd hs stepDirective_ne_pass
    | (simp only [reduceCtorEq] at hs)
    | (simp only [Step.pass.injEq] at hs
       rw [← hs.2]
       simp only [weight, Want.total, List.cons_append, List.nil_append, Want.weight]
       omega)

/-- The events of a token, and the state behind it unless it fits nowhere. -/
def feed (g : Grammar) (t : Token) : List Event × Option Grammar :=
  match _hw : g.wants with
  | [] => ([], none)
  | want :: rest =>
    match _hs : g.step want rest t with
    | .take es h => (es, some h)
    | .pass es h => let (more, next) := h.feed t; (es ++ more, next)
    | .fail => ([], none)
termination_by g.weight
decreasing_by
  have := weight_lt_of_step _hs
  simpa [weight, Want.total, _hw] using this

/-- The events of tokens, and whether the tokens are all that the grammar expects. -/
def run (g : Grammar) : List Token → List Event × Bool
  | [] => ([], g.wants.isEmpty)
  | t :: ts =>
    match g.feed t with
    | (es, none) => (es, false)
    | (es, some h) => let (more, complete) := run h ts; (es ++ more, complete)

end Grammar

/-- The first document of a stream: its events as far as it can be read, and whether it can be read
to its end and nothing follows it. -/
structure Document where
  events : List Event
  sound : Bool
  deriving Repr

def Document.ofText (cs : List Char) : Document :=
  let (ts, ended) := tokens cs
  let (events, complete) := Grammar.run {} ts
  ⟨events, ended && complete⟩

/-- The events from the last one on whose node has a number. -/
def anchored (n : Nat) : List Event → Option (List Event)
  | [] => none
  | e :: es => (anchored n es).or (if e.anchor == some n then some (e :: es) else none)

end SyncPlan.Yaml
