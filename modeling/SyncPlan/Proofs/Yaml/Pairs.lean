import SyncPlan.Proofs.ConfigFile.Pairs
import SyncPlan.Proofs.Yaml.Numerals
import SyncPlan.Yaml.Options

/-!
YAML documents that are flat: one mapping, whose values are scalars and lists of scalars. A text is
given by any scalar, and a number or a switch by the spelling of one: no quotes may stand around it
and a tag makes no difference, unless it is a literal one, which must carry the tag of its type.
-/

namespace SyncPlan.Yaml
open Text

/-- A scalar as it stands in a document. -/
structure Scalar where
  anchor : Option Nat
  tag : Option Octets
  style : Style
  text : String

def Scalar.event (s : Scalar) : Event := .scalar s.anchor s.tag s.style s.text

/-- The value of a pair. -/
inductive Node
  | scalar (s : Scalar)
  | list (anchor : Option Nat) (items : List Scalar)

def Node.events : Node → List Event
  | .scalar s => [s.event]
  | .list anchor items => .sequenceStart anchor :: (items.map Scalar.event ++ [.sequenceEnd])

/-- Whether the spelling of a scalar counts where a type of the core schema is wanted. -/
def IsSpelled (core : String) (s : Scalar) : Prop :=
  s.style = .plain ∨ s.style = .literal ∧ s.tag = some (coreTag core)

def booleanWords (b : Bool) : List String :=
  if b then ["true", "True", "TRUE"] else ["false", "False", "FALSE"]

/-- The setting of a field that a value gives. A list may also be left out. -/
inductive Gives : Node → Setting → Prop
  | text {s : Scalar} {f : TextField} : Gives (.scalar s) (.text f s.text)
  | count {s : Scalar} {f : CountField} {v : UInt32} : IsSpelled "int" s →
      IsUnsigned s.text.toList v.toNat → Gives (.scalar s) (.count f v)
  | number {s : Scalar} {f : NumberField} {v : Int64} : IsSpelled "int" s →
      IsInteger s.text.toList v.toInt → Gives (.scalar s) (.number f v)
  | switch {s : Scalar} {f : SwitchField} {v : Bool} : IsSpelled "bool" s →
      s.text ∈ booleanWords v → Gives (.scalar s) (.switch f v)
  | list {anchor : Option Nat} {items : List Scalar} {f : ListField} :
      Gives (.list anchor items) (.list f (items.map Scalar.text))
  | absent {s : Scalar} {f : ListField} : s.style = .plain → s.text = "" →
      Gives (.scalar s) (.list f [])

/-- What is wrong with a value for a field. A count may be too big and still be one, as long as it
has no more than sixty-four bits. -/
inductive Blames : Field → Node → Defect → Prop
  | big {s : Scalar} {f : CountField} {n : Nat} : IsSpelled "int" s → IsUnsigned s.text.toList n →
      boundOfBits 32 ≤ n → n < boundOfBits 64 →
      Blames (.count f) (.scalar s) (.wrongValue (.integer n) .count)
  | count {s : Scalar} {f : CountField} :
      (∀ n, IsSpelled "int" s → IsUnsigned s.text.toList n → boundOfBits 64 ≤ n) →
      Blames (.count f) (.scalar s) (scalarDefect s.tag s.style s.text .count)
  | number {s : Scalar} {f : NumberField} :
      (∀ n, IsSpelled "int" s → IsInteger s.text.toList n →
        ¬(-boundOfBits 63 ≤ n ∧ n < boundOfBits 63)) →
      Blames (.number f) (.scalar s) (scalarDefect s.tag s.style s.text .number)
  | switch {s : Scalar} {f : SwitchField} :
      (∀ v, IsSpelled "bool" s → s.text ∉ booleanWords v) →
      Blames (.switch f) (.scalar s) (scalarDefect s.tag s.style s.text .switch)
  | list {s : Scalar} {f : ListField} : (s.style = .plain → s.text ≠ "") →
      Blames (.list f) (.scalar s) (scalarDefect s.tag s.style s.text .list)
  | sequence {f : Field} {anchor : Option Nat} {items : List Scalar} : (∀ g, f ≠ .list g) →
      Blames f (.list anchor items) (.wrongType .sequence f.wanted)

/-- What is read of a value for a field. -/
def take : Field → Node → Except Defect Setting
  | .text f, .scalar s => .ok (.text f s.text)
  | .count f, .scalar s => (countOf s.event).map (.count f)
  | .number f, .scalar s => (numberOf s.event).map (.number f)
  | .switch f, .scalar s => (switchOf s.event).map (.switch f)
  | .list f, .scalar s =>
    if isAbsent s.event then .ok (.list f []) else .error (nodeDefect s.event .list)
  | .list f, .list _ items => .ok (.list f (items.map Scalar.text))
  | f, .list .. => .error (.wrongType .sequence f.wanted)

section Scalars

variable {s : Scalar}

theorem spelling?_of_isSpelled {core : String} (h : IsSpelled core s) :
    spelling? core s.event = some s.text := by
  obtain ⟨anchor, tag, style, text⟩ := s
  cases h with
  | inl hplain =>
      obtain rfl : style = .plain := hplain
      rfl
  | inr hliteral =>
      obtain ⟨rfl, rfl⟩ : style = .literal ∧ tag = some (coreTag core) := hliteral
      simp [Scalar.event, spelling?]

theorem spelling?_of_not_isSpelled {core : String} (h : ¬IsSpelled core s) :
    spelling? core s.event = none := by
  obtain ⟨anchor, tag, style, text⟩ := s
  rw [IsSpelled, not_or] at h
  cases style with
  | plain => simp at h
  | literal =>
      cases tag with
      | none => rfl
      | some t => simpa [Scalar.event, spelling?] using h
  | quoted | folded => rfl

theorem boolean?_eq_some_iff {text : String} {v : Bool} :
    boolean? text = some v ↔ text ∈ booleanWords v := by
  constructor
  · intro h
    rw [boolean?] at h
    split at h
    · next htrue =>
        obtain rfl : true = v := Option.some.inj h
        exact List.contains_iff_mem.1 htrue
    · split at h
      · next hfalse =>
          obtain rfl : false = v := Option.some.inj h
          exact List.contains_iff_mem.1 hfalse
      · simp at h
  · intro h
    cases v <;> simp only [booleanWords, List.mem_cons, List.not_mem_nil, or_false, if_true,
      Bool.false_eq_true, if_false] at h <;> obtain rfl | rfl | rfl := h <;> rfl

theorem className_scalarDefect (tag : Option Octets) (style : Style) (text : String)
    (wanted : Wanted) :
    (scalarDefect tag style text wanted).className = "invalid_type" ∨
      (scalarDefect tag style text wanted).className = "invalid_value" := by
  rw [scalarDefect.eq_def]
  dsimp only
  split
  · exact .inl rfl
  · repeat' split
    all_goals first | exact .inl rfl | exact .inr rfl

theorem toNat_lt_boundOfBits (v : UInt32) : v.toNat < boundOfBits 64 :=
  Nat.lt_of_lt_of_le v.toNat_lt (by decide)

/-- A count is read as one of sixty-four bits first. -/
theorem countOf_of_isUnsigned {n : Nat} (hspelled : IsSpelled "int" s)
    (h : IsUnsigned s.text.toList n) (hwide : n < boundOfBits 64) : countOf s.event =
      match countOf? n with
      | none => .error (.wrongValue (.integer n) .count)
      | some v => .ok v := by
  -- The bound of thirty-two bits is hidden, as a match on it would count down from it.
  obtain ⟨count, hcount⟩ : ∃ count, countOf? = count := ⟨_, rfl⟩
  rw [countOf, hcount, spelling?_of_isSpelled hspelled, Option.bind_some,
    nonnegative?_eq_some_iff.2 h]
  cases hn : count n <;> simp [Option.filter, hwide, hn]

theorem countOf_of_not_isUnsigned
    (h : ∀ n, IsSpelled "int" s → IsUnsigned s.text.toList n → boundOfBits 64 ≤ n) :
    countOf s.event = .error (scalarDefect s.tag s.style s.text .count) := by
  have hnone : ((spelling? "int" s.event).bind fun t =>
      (nonnegative? t.toList).filter (· < boundOfBits 64)) = none := by
    by_cases hspelled : IsSpelled "int" s
    · rw [spelling?_of_isSpelled hspelled, Option.bind_some, Option.filter_eq_none_iff]
      intro n hn
      simpa using h n hspelled (nonnegative?_eq_some_iff.1 hn)
    · rw [spelling?_of_not_isSpelled hspelled, Option.bind_none]
  rw [countOf, hnone]
  rfl

theorem numberOf_of_isInteger {v : Int64} (hspelled : IsSpelled "int" s)
    (h : IsInteger s.text.toList v.toInt) : numberOf s.event = .ok v := by
  rw [numberOf, spelling?_of_isSpelled hspelled, Option.bind_some, integer?_eq_some_iff.2 h,
    Option.bind_some, numberOf?_toInt]

theorem numberOf_of_not_isInteger (h : ∀ n, IsSpelled "int" s → IsInteger s.text.toList n →
    ¬(-boundOfBits 63 ≤ n ∧ n < boundOfBits 63)) :
    numberOf s.event = .error (scalarDefect s.tag s.style s.text .number) := by
  have hnone : ((spelling? "int" s.event).bind fun t =>
      (integer? t.toList).bind numberOf?) = none := by
    by_cases hspelled : IsSpelled "int" s
    · rw [spelling?_of_isSpelled hspelled, Option.bind_some, Option.bind_eq_none_iff]
      intro n hn
      exact numberOf?_eq_none_iff.2 (h n hspelled (integer?_eq_some_iff.1 hn))
    · rw [spelling?_of_not_isSpelled hspelled, Option.bind_none]
  rw [numberOf, hnone]
  rfl

theorem switchOf_of_mem {v : Bool} (hspelled : IsSpelled "bool" s)
    (h : s.text ∈ booleanWords v) : switchOf s.event = .ok v := by
  rw [switchOf, spelling?_of_isSpelled hspelled, Option.bind_some, boolean?_eq_some_iff.2 h]

theorem switchOf_of_notMem (h : ∀ v, IsSpelled "bool" s → s.text ∉ booleanWords v) :
    switchOf s.event = .error (scalarDefect s.tag s.style s.text .switch) := by
  have hnone : (spelling? "bool" s.event).bind boolean? = none := by
    by_cases hspelled : IsSpelled "bool" s
    · rw [spelling?_of_isSpelled hspelled, Option.bind_some, Option.eq_none_iff_forall_ne_some]
      intro v hv
      exact h v hspelled (boolean?_eq_some_iff.1 hv)
    · rw [spelling?_of_not_isSpelled hspelled, Option.bind_none]
  rw [switchOf, hnone]
  rfl

theorem isAbsent_iff : isAbsent s.event = true ↔ s.style = .plain ∧ s.text = "" := by
  obtain ⟨anchor, tag, style, text⟩ := s
  cases style <;> simp [Scalar.event, isAbsent]

end Scalars

section Settings

variable {document rest : List Event}

theorem textsFrom_items (items : List Scalar) :
    textsFrom document (items.map Scalar.event ++ .sequenceEnd :: rest) =
      .ok (items.map Scalar.text, rest) := by
  induction items with
  | nil => rfl
  | cons s items ih =>
      rw [List.map_cons, List.cons_append, textsFrom, ih]
      · rfl
      · simp [Scalar.event]

/-- What a value gives does not depend on the other nodes of a document, and no event of it is
left. -/
theorem settingFrom_events_append (f : Field) (v : Node) :
    settingFrom document f (v.events ++ rest) = (take f v).map fun s => (s, rest) := by
  cases v with
  | scalar s =>
      cases f with
      | text g => rfl
      | count g =>
          change (do pure (Setting.count g (← countOf s.event), rest) : Except Defect _) = _
          rw [take]
          cases countOf s.event <;> rfl
      | number g =>
          change (do pure (Setting.number g (← numberOf s.event), rest) : Except Defect _) = _
          rw [take]
          cases numberOf s.event <;> rfl
      | switch g =>
          change (do pure (Setting.switch g (← switchOf s.event), rest) : Except Defect _) = _
          rw [take]
          cases switchOf s.event <;> rfl
      | list g =>
          have hlist : listOf document (s.event :: rest) =
            if isAbsent s.event then .ok [] else .error (nodeDefect s.event .list) := rfl
          change (do pure (Setting.list g (← listOf document (s.event :: rest)), rest) :
            Except Defect _) = _
          rw [take, hlist]
          cases isAbsent s.event <;> rfl
  | list anchor items =>
      cases f with
      | list g =>
          simp only [Node.events, List.cons_append, List.append_assoc, List.nil_append,
            settingFrom, textsFrom_items]
          rfl
      | text g | count g | number g | switch g => rfl

theorem count_or_blames (f : CountField) (s : Scalar) :
    (∃ v, Gives (.scalar s) (.count f v)) ∨ ∃ d, Blames (.count f) (.scalar s) d := by
  by_cases h : ∃ n, IsSpelled "int" s ∧ IsUnsigned s.text.toList n ∧ n < boundOfBits 64
  · obtain ⟨n, hspelled, hn, hwide⟩ := h
    cases hcount : countOf? n with
    | some v =>
        obtain rfl : n = v.toNat := Int.ofNat.inj (countOf?_eq_some_iff.1 hcount)
        exact .inl ⟨v, .count hspelled hn⟩
    | none =>
        have hbig : boundOfBits 32 ≤ n := by
          have hrange := countOf?_eq_none_iff.1 hcount
          omega
        exact .inr ⟨_, .big hspelled hn hbig hwide⟩
  · refine .inr ⟨_, .count ?_⟩
    intro n hspelled hn
    exact Nat.le_of_not_lt fun hwide => h ⟨n, hspelled, hn, hwide⟩

theorem number_or_blames (f : NumberField) (s : Scalar) :
    (∃ v, Gives (.scalar s) (.number f v)) ∨ ∃ d, Blames (.number f) (.scalar s) d := by
  by_cases h : ∃ n : Int, IsSpelled "int" s ∧ IsInteger s.text.toList n ∧
      -boundOfBits 63 ≤ n ∧ n < boundOfBits 63
  · obtain ⟨n, hspelled, hn, hrange⟩ := h
    cases hnumber : numberOf? n with
    | some v =>
        obtain rfl := numberOf?_eq_some_iff.1 hnumber
        exact .inl ⟨v, .number hspelled hn⟩
    | none => exact absurd hrange (numberOf?_eq_none_iff.1 hnumber)
  · refine .inr ⟨_, .number ?_⟩
    exact fun n hspelled hn hrange => h ⟨n, hspelled, hn, hrange⟩

theorem gives_or_blames (f : Field) (v : Node) :
    (∃ s : Setting, s.field = f ∧ Gives v s) ∨ ∃ d, Blames f v d := by
  cases v with
  | scalar s =>
      cases f with
      | text g => exact .inl ⟨.text g s.text, rfl, .text⟩
      | count g => exact (count_or_blames g s).imp_left fun ⟨v, h⟩ => ⟨.count g v, rfl, h⟩
      | number g => exact (number_or_blames g s).imp_left fun ⟨v, h⟩ => ⟨.number g v, rfl, h⟩
      | switch g =>
          by_cases h : ∃ v, IsSpelled "bool" s ∧ s.text ∈ booleanWords v
          · obtain ⟨v, hspelled, hv⟩ := h
            exact .inl ⟨.switch g v, rfl, .switch hspelled hv⟩
          · exact .inr ⟨_, .switch fun v hspelled hv => h ⟨v, hspelled, hv⟩⟩
      | list g =>
          by_cases h : s.style = .plain ∧ s.text = ""
          · exact .inl ⟨.list g [], rfl, .absent h.1 h.2⟩
          · exact .inr ⟨_, .list fun hplain hempty => h ⟨hplain, hempty⟩⟩
  | list anchor items =>
      cases f with
      | list g => exact .inl ⟨.list g _, rfl, .list⟩
      | text g | count g | number g | switch g => exact .inr ⟨_, .sequence (by simp)⟩

theorem take_of_gives {v : Node} {s : Setting} (h : Gives v s) : take s.field v = .ok s := by
  cases h with
  | text | list => rfl
  | count hspelled hv =>
      next s f v =>
      have hcount : countOf s.event = .ok v := by
        rw [countOf_of_isUnsigned hspelled hv (toNat_lt_boundOfBits v), countOf?_toNat]
      rw [Setting.field, take, hcount]
      rfl
  | number hspelled hv =>
      rw [Setting.field, take, numberOf_of_isInteger hspelled hv]
      rfl
  | switch hspelled hv =>
      rw [Setting.field, take, switchOf_of_mem hspelled hv]
      rfl
  | absent hplain hempty => rw [Setting.field, take, if_pos (isAbsent_iff.2 ⟨hplain, hempty⟩)]

theorem take_of_blames {f : Field} {v : Node} {d : Defect} (h : Blames f v d) :
    take f v = .error d := by
  cases h with
  | big hspelled hn hbig hwide =>
      next s f n =>
      have hnone : countOf? n = none := by
        rw [countOf?_eq_none_iff]
        omega
      rw [take, countOf_of_isUnsigned hspelled hn hwide, hnone]
      rfl
  | count hcount =>
      rw [take, countOf_of_not_isUnsigned hcount]
      rfl
  | number hnumber =>
      rw [take, numberOf_of_not_isInteger hnumber]
      rfl
  | switch hswitch =>
      rw [take, switchOf_of_notMem hswitch]
      rfl
  | list hpresent =>
      next s f =>
      have habsent : ¬isAbsent s.event = true := fun h =>
        hpresent (isAbsent_iff.1 h).1 (isAbsent_iff.1 h).2
      rw [take, if_neg habsent]
      rfl
  | sequence hfield =>
      cases f with
      | list g => exact absurd rfl (hfield g)
      | text g | count g | number g | switch g => rfl

theorem decides_take : Decides take Gives Blames where
  gives := take_of_gives
  blames := take_of_blames
  total := gives_or_blames
  className := by
    intro f v d h
    cases h with
    | big _ _ _ _ => exact .inr rfl
    | count _ | number _ | switch _ | list _ => exact className_scalarDefect _ _ _ _
    | sequence _ => exact .inl rfl

end Settings

section Entries

variable {document rest : List Event}

/-- A key, which any scalar can be, and its value. -/
structure Entry where
  key : Scalar
  value : Node

def Entry.events (e : Entry) : List Event := e.key.event :: e.value.events

def Entry.pair (e : Entry) : String × Node := (e.key.text, e.value)

theorem entriesFrom_cons (seen : List Field) (o : Options) (e : Entry) :
    entriesFrom document seen o (e.events ++ rest) =
      match Field.ofKey? e.key.text with
      | none => .error (.unknownField e.key.text)
      | some f =>
        if seen.contains f then .error (.duplicateField f)
        else
          match take f e.value with
          | .error d => .error d
          | .ok s => entriesFrom document (f :: seen) (o.set s) rest := by
  have hkey : textOf document (e.key.event :: (e.value.events ++ rest)) .fieldName =
      .ok e.key.text := rfl
  rw [Entry.events, List.cons_append, entriesFrom]
  · rw [hkey]
    simp only [bind, Except.bind]
    cases Field.ofKey? e.key.text with
    | none => rfl
    | some f =>
        simp only
        split
        · rfl
        · have hsetting := @settingFrom_events_append document rest f e.value
          cases htake : take f e.value with
          | error d =>
              have hd : settingFrom document f (e.value.events ++ rest) = .error d := by
                rw [hsetting, htake]
                rfl
              split
              · next heq => exact congrArg _ (Except.error.inj (heq.symm.trans hd))
              · next heq => simp [hd] at heq
          | ok s =>
              have hs : settingFrom document f (e.value.events ++ rest) = .ok (s, rest) := by
                rw [hsetting, htake]
                rfl
              split
              · next heq => simp [hs] at heq
              · next heq =>
                  obtain ⟨rfl, rfl⟩ := Prod.mk.inj (Except.ok.inj (heq.symm.trans hs))
                  rfl
  · simp [Scalar.event]

theorem entriesFrom_eq_settle (seen : List Field) (o : Options) (entries : List Entry) :
    entriesFrom document seen o (entries.flatMap Entry.events ++ [.mappingEnd]) =
      settle take seen o (entries.map Entry.pair) := by
  induction entries generalizing seen o with
  | nil => rw [List.flatMap_nil, List.nil_append, entriesFrom, List.map_nil, settle]
  | cons e entries ih =>
      rw [List.flatMap_cons, List.append_assoc, entriesFrom_cons, List.map_cons, Entry.pair, settle]
      cases Field.ofKey? e.key.text with
      | none => rfl
      | some f =>
          by_cases hseen : seen.contains f = true
          · simp only [if_pos hseen]
          · simp only [if_neg hseen]
            cases take f e.value with
            | error d => rfl
            | ok s => exact ih (f :: seen) (o.set s)

end Entries

/-- A text that is one mapping of these pairs and nothing else, or nothing at all. -/
inductive IsFlat (cs : List Char) : List (String × Node) → Prop
  | mapping {anchor : Option Nat} {entries : List Entry} :
      Document.ofText cs =
        ⟨.mappingStart anchor :: (entries.flatMap Entry.events ++ [.mappingEnd]), true⟩ →
      IsFlat cs (entries.map Entry.pair)
  | blank : Document.ofText cs = ⟨[], true⟩ → IsFlat cs []

/-- A flat text comes to what its pairs are settled to. -/
theorem ofYaml_of_isFlat {cs : List Char} {pairs : List (String × Node)} (h : IsFlat cs pairs) :
    Options.ofYaml cs = settle take [] .default pairs := by
  cases h with
  | blank hdocument =>
      rw [Options.ofYaml, hdocument]
      rfl
  | mapping hdocument =>
      next anchor entries =>
      have hroot : rootOptions
          (.mappingStart anchor :: (entries.flatMap Entry.events ++ [.mappingEnd])) = _ :=
        entriesFrom_eq_settle [] .default entries
      rw [Options.ofYaml, hdocument]
      simp only [hroot]
      cases settle take [] .default (entries.map Entry.pair) <;> rfl

end SyncPlan.Yaml
