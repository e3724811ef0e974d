import SyncPlan.Yaml.Typing

/-!
Options from a YAML document. The entries of its mapping are taken in order, each setting the option
of its key, and the first that does not fit is the defect of the document. A document that breaks
off or that another one follows is malformed, but only after its entries.
-/

namespace SyncPlan.Yaml

/-- The failure of a node where something else is wanted. -/
def nodeDefect (e : Event) (wanted : Wanted) : Defect :=
  match e with
  | .scalar _ tag style s => scalarDefect tag style s wanted
  | .sequenceStart _ => .wrongType .sequence wanted
  | .mappingStart _ => .wrongType .mapping wanted
  | _ => .malformed

/-- The node at the head of some events of a document, an alias standing for the node it names. -/
def target (document : List Event) (events : List Event) : List Event :=
  match events with
  | .alias n :: _ => (anchored n document).getD []
  | _ => events

/-- The text of a node, which any scalar has. -/
def textOf (document : List Event) (events : List Event) (wanted : Wanted) :
    Except Defect String :=
  match target document events with
  | .scalar _ _ _ s :: _ => .ok s
  | e :: _ => .error (nodeDefect e wanted)
  | [] => .error .malformed

/-- A scalar whose spelling alone counts: a plain one, or a literal one with a tag. -/
def spelling? (tag : String) : Event → Option String
  | .scalar _ _ .plain s => some s
  | .scalar _ (some t) .literal s => if t == coreTag tag then some s else none
  | _ => none

/-- Whether a node is left out. -/
def isAbsent : Event → Bool
  | .scalar _ _ .plain s => s.isEmpty
  | _ => false

def countOf (e : Event) : Except Defect UInt32 :=
  match (spelling? "int" e).bind fun s => (nonnegative? s.toList).filter (· < Text.boundOfBits 64) with
  | none => .error (nodeDefect e .count)
  | some n =>
    match countOf? n with
    | some v => .ok v
    | none => .error (.wrongValue (.integer n) .count)

def numberOf (e : Event) : Except Defect Int64 :=
  match (spelling? "int" e).bind fun s => (integer? s.toList).bind numberOf? with
  | none => .error (nodeDefect e .number)
  | some v => .ok v

def switchOf (e : Event) : Except Defect Bool :=
  match (spelling? "bool" e).bind boolean? with
  | none => .error (nodeDefect e .switch)
  | some v => .ok v

/-- The texts of a sequence up to its end, and the events behind it. -/
def textsFrom (document : List Event) : List Event → Except Defect (List String × List Event)
  | [] => .error .malformed
  | .sequenceEnd :: rest => .ok ([], rest)
  | e :: rest => do
    let s ← textOf document (e :: rest) .text
    let (more, rest) ← textsFrom document rest
    pure (s :: more, rest)

theorem length_lt_of_textsFrom {document events rest : List Event} {texts : List String}
    (h : textsFrom document events = .ok (texts, rest)) : rest.length < events.length := by
  fun_induction textsFrom document events generalizing texts rest with
  | case1 => simp at h
  | case2 => simp_all
  | case3 e es _ ih =>
      simp only [bind, Except.bind] at h
      split at h
      · simp at h
      · split at h
        · simp at h
        · rename_i he
          simp only [pure, Except.pure, Except.ok.injEq, Prod.mk.injEq] at h
          have := ih he
          simp only [List.length_cons, ← h.2]
          omega

/-- The list that a node gives, whatever follows it. -/
def listOf (document : List Event) (events : List Event) : Except Defect (List String) :=
  match target document events with
  | .sequenceStart _ :: rest => (textsFrom document rest).map Prod.fst
  | e :: _ => if isAbsent e then .ok [] else .error (nodeDefect e .list)
  | [] => .error .malformed

/-- The value of an option at the head of some events, and the events behind it. -/
def settingFrom (document : List Event) (f : Field) (events : List Event) :
    Except Defect (Setting × List Event) :=
  match f, events with
  | .list f, .sequenceStart _ :: rest => do
    let (texts, rest) ← textsFrom document rest
    pure (.list f texts, rest)
  | f, events => do
    let rest := events.drop 1
    match f, target document events with
    | .text f, _ => pure (.text f (← textOf document events .text), rest)
    | .list f, _ => pure (.list f (← listOf document events), rest)
    | .count f, e :: _ => pure (.count f (← countOf e), rest)
    | .number f, e :: _ => pure (.number f (← numberOf e), rest)
    | .switch f, e :: _ => pure (.switch f (← switchOf e), rest)
    | _, [] => .error .malformed

theorem length_le_of_settingFrom {document events rest : List Event} {f : Field} {s : Setting}
    (h : settingFrom document f events = .ok (s, rest)) : rest.length ≤ events.length := by
  unfold settingFrom at h
  split at h
  · simp only [bind, Except.bind] at h
    split at h
    · simp at h
    · rename_i ht
      simp only [pure, Except.pure, Except.ok.injEq, Prod.mk.injEq] at h
      have := length_lt_of_textsFrom ht
      simp only [List.length_cons, ← h.2]
      omega
  · simp only [bind, Except.bind] at h
    repeat' split at h
    all_goals first
      | (simp only [reduceCtorEq] at h)
      | (simp only [pure, Except.pure, Except.ok.injEq, Prod.mk.injEq] at h
         rw [← h.2, List.length_drop]
         omega)

/-- Sets the options of the entries up to the end of a mapping. `seen` are those already set. -/
def entriesFrom (document : List Event) (seen : List Field) (o : Options) (events : List Event) :
    Except Defect Options :=
  match events with
  | [] => .error .malformed
  | .mappingEnd :: _ => .ok o
  | e :: rest => do
    let key ← textOf document (e :: rest) .fieldName
    match Field.ofKey? key with
    | none => .error (.unknownField key)
    | some f =>
      if seen.contains f then .error (.duplicateField f)
      else
        match _h : settingFrom document f rest with
        | .error d => .error d
        | .ok (s, rest') => entriesFrom document (f :: seen) (o.set s) rest'
termination_by events.length
decreasing_by
  have := length_le_of_settingFrom _h
  simp only [List.length_cons]
  omega

/-- The options of the node at the root of a document; where it is left out they are the usual
ones. -/
def rootOptions (document : List Event) : Except Defect Options :=
  match document with
  | .mappingStart _ :: rest => entriesFrom document [] .default rest
  | e :: _ => if isAbsent e then .ok .default else .error (nodeDefect e .options)
  | [] => .error .malformed

end SyncPlan.Yaml

namespace SyncPlan

/-- The options of a YAML text. -/
def Options.ofYaml (cs : List Char) : Except Defect Options :=
  let d := Yaml.Document.ofText cs
  if d.events.isEmpty && d.sound then .ok .default
  else do
    let o ← Yaml.rootOptions d.events
    if d.sound then pure o else .error .malformed

end SyncPlan
