import SyncPlan.Proofs.CommandLine.Spelling
import SyncPlan.Proofs.Numerals
import SyncPlan.Proofs.Settings

/-!
What the items of a command line give. Each argument shows exactly the values that stand with it
among the items, a switch is on exactly when it is among them, and nothing that takes one value is
given twice. Taking an item changes what its own argument shows and nothing else.
-/

namespace SyncPlan.CommandLine
open Text

/-- A count is denoted by the integers in its range. -/
def DenotesCount (v : String) (k : UInt32) : Prop := IsInteger 10 v.toList k.toNat

def DenotesNumber (v : String) (k : Int64) : Prop := IsInteger 10 v.toList k.toInt

theorem integer_eq_ok_iff {a : Argument} {v : String} {n : Int} :
    readInteger a v = .ok n ↔
      IsInteger 10 v.toList n ∧ -(boundOfBits 63 : Int) ≤ n ∧ n < boundOfBits 63 := by
  have hread : readInteger a v = .ok n ↔
      Text.readInteger 10 (boundOfBits 63) (boundOfBits 63 - 1) v.toList = .ok n := by
    rw [readInteger]
    cases Text.readInteger 10 (boundOfBits 63) (boundOfBits 63 - 1) v.toList <;> simp
  have hlimit : ((boundOfBits 63 - 1 : Nat) : Int) = (boundOfBits 63 : Int) - 1 := rfl
  rw [hread, Text.readInteger_eq_ok_iff (by decide), hlimit, Int.le_sub_one_iff]

/-- What giving a value to an argument comes to, where this can be done. -/
def Gives (c : CommandLine) : Argument → String → CommandLine → Prop
  | .config, v, c' => v ≠ "" ∧ { c with config := some v } = c'
  | .configDirectory, v, c' => v ≠ "" ∧ { c with configDirectory := some v } = c'
  | .format, v, c' => ∃ f : Format, f.name = v ∧ { c with format := some f } = c'
  | .field (.text f), v, c' => c.setText f v = c'
  | .field (.count f), v, c' => ∃ k, DenotesCount v k ∧ c.setCount f k = c'
  | .field (.number f), v, c' => ∃ k, DenotesNumber v k ∧ c.setNumber f k = c'
  | .field (.list f), v, c' => c.append f v = c'
  | _, _, _ => False

theorem ofName?_eq_some_iff {v : String} {f : Format} : Format.ofName? v = some f ↔ f.name = v := by
  constructor
  · intro h
    have hname := List.find?_some h
    simpa using hname
  · intro h
    subst h
    cases f <;> decide

theorem readInteger_of_denotesCount {a : Argument} {v : String} {k : UInt32}
    (h : DenotesCount v k) : readInteger a v = .ok (k.toNat : Int) := by
  have hlow : -(boundOfBits 63 : Int) ≤ k.toNat := by omega
  have hhigh : (k.toNat : Int) < boundOfBits 63 := by
    have hbound : boundOfBits 32 ≤ boundOfBits 63 := Nat.pow_le_pow_right (by decide) (by decide)
    have hlt : k.toNat < boundOfBits 32 := k.toNat_lt
    omega
  exact integer_eq_ok_iff.2 ⟨h, hlow, hhigh⟩

theorem count_eq_ok_iff {c c' : CommandLine} {a : Argument} {v : String} {f : CountField} :
    (match readInteger a v with
      | .error fault => .error fault
      | .ok n =>
        match countOf? n with
        | some k => .ok (c.setCount f k)
        | none => .error (.outOfRange a v n)) = Except.ok c' ↔
      ∃ k, DenotesCount v k ∧ c.setCount f k = c' := by
  constructor
  · intro h
    split at h
    · simp at h
    · next n hn =>
        split at h
        · next k hk =>
            rw [countOf?_eq_some_iff] at hk
            subst hk
            exact ⟨k, (integer_eq_ok_iff.1 hn).1, Except.ok.inj h⟩
        · simp at h
  · intro h
    obtain ⟨k, hk, rfl⟩ := h
    have hread := readInteger_of_denotesCount (a := a) hk
    split
    · next hfault => simp [hread] at hfault
    · next n hn =>
        have hcount : countOf? n = some k :=
          countOf?_eq_some_iff.2 (Except.ok.inj (hn.symm.trans hread))
        split
        · next j hj => rw [Option.some.inj (hj.symm.trans hcount)]
        · next hnone => simp [hnone] at hcount

theorem number_eq_ok_iff {c c' : CommandLine} {a : Argument} {v : String} {f : NumberField} :
    (match readInteger a v with
      | .error fault => .error fault
      | .ok n => .ok (c.setNumber f (Int64.ofInt n))) = Except.ok c' ↔
      ∃ k, DenotesNumber v k ∧ c.setNumber f k = c' := by
  have hbound : (boundOfBits 63 : Int) = 2 ^ 63 := rfl
  constructor
  · intro h
    split at h
    · simp at h
    · next n hn =>
        obtain ⟨hinteger, hlow, hhigh⟩ := integer_eq_ok_iff.1 hn
        refine ⟨Int64.ofInt n, ?_, Except.ok.inj h⟩
        rw [DenotesNumber, Int64.toInt_ofInt_of_le (hbound ▸ hlow) (hbound ▸ hhigh)]
        exact hinteger
  · intro h
    obtain ⟨k, hk, rfl⟩ := h
    have hread : readInteger a v = .ok k.toInt :=
      integer_eq_ok_iff.2 ⟨hk, hbound ▸ k.le_toInt, hbound ▸ k.toInt_lt⟩
    simp [hread]

theorem give_eq_ok_iff {c c' : CommandLine} {a : Argument} {v : String} :
    c.give a v = .ok c' ↔ c.has a = false ∧ c.Gives a v c' := by
  rw [give.eq_def]
  cases hhas : c.has a with
  | true => simp
  | false =>
      simp only [Bool.false_eq_true, if_false, true_and]
      cases a with
      | config => by_cases hempty : v = "" <;> simp [Gives, hempty]
      | configDirectory => by_cases hempty : v = "" <;> simp [Gives, hempty]
      | format =>
          simp only [Gives, ← ofName?_eq_some_iff]
          by_cases hempty : v = ""
          · simp [hempty, Format.ofName?, Format.name]
          · cases hname : Format.ofName? v with
            | none => simp [hempty]
            | some f => simp [hempty]
      | help => simp [Gives]
      | version => simp [Gives]
      | field f =>
          cases f with
          | text f => simp [Gives]
          | count f => exact count_eq_ok_iff
          | number f => exact number_eq_ok_iff
          | switch f => simp [Gives]
          | list f => simp [Gives]

/-- The values of an argument set what it shows: nothing where there are none, and what the value
denotes where there is one. -/
def IsSetBy {α : Type} (denotes : String → α → Prop) (vs : List String) (x : Option α) : Prop :=
  (vs = [] ∧ x = none) ∨ ∃ v a, vs = [v] ∧ x = some a ∧ denotes v a

/-- What a command line shows of an argument that has been given some values. -/
def Shows (c : CommandLine) : Argument → List String → Prop
  | .config, vs => IsSetBy (· = ·) vs c.config
  | .configDirectory, vs => IsSetBy (· = ·) vs c.configDirectory
  | .format, vs => IsSetBy (fun v f => f.name = v) vs c.format
  | .field (.text f), vs => IsSetBy (· = ·) vs (c.text f)
  | .field (.count f), vs => IsSetBy DenotesCount vs (c.count f)
  | .field (.number f), vs => IsSetBy DenotesNumber vs (c.number f)
  | .field (.list f), vs => c.list f = vs
  | _, vs => vs = []

theorem IsSetBy.append {α : Type} {denotes : String → α → Prop} {vs : List String} {x : Option α}
    {v : String} {a : α} (h : IsSetBy denotes vs x) (hno : x.isSome = false) (ha : denotes v a) :
    IsSetBy denotes (vs ++ [v]) (some a) := by
  cases h with
  | inl hnone =>
      obtain ⟨rfl, -⟩ := hnone
      exact .inr ⟨v, a, rfl, rfl, ha⟩
  | inr hsome =>
      obtain ⟨w, b, -, rfl, -⟩ := hsome
      simp at hno

theorem IsSetBy.eq_head? {vs : List String} {x : Option String} (h : IsSetBy (· = ·) vs x) :
    x = vs.head? := by
  cases h with
  | inl hnone =>
      obtain ⟨rfl, rfl⟩ := hnone
      rfl
  | inr hsome =>
      obtain ⟨v, a, rfl, rfl, rfl⟩ := hsome
      rfl

theorem IsSetBy.isSome_of_nil {α : Type} {denotes : String → α → Prop} {x : Option α}
    (h : IsSetBy denotes [] x) : x.isSome = false := by
  cases h with
  | inl hnone => rw [hnone.2, Option.isSome_none]
  | inr hsome =>
      obtain ⟨v, a, hv, -⟩ := hsome
      simp at hv

theorem IsSetBy.denotes_of_mem {α : Type} {denotes : String → α → Prop}
    {vs : List String} {x : Option α} {v : String} (h : IsSetBy denotes vs x) (hv : v ∈ vs) :
    ∃ a, x = some a ∧ denotes v a := by
  cases h with
  | inl hnone =>
      rw [hnone.1] at hv
      exact absurd hv List.not_mem_nil
  | inr hsome =>
      obtain ⟨w, a, rfl, rfl, ha⟩ := hsome
      exact ⟨a, rfl, List.mem_singleton.1 hv ▸ ha⟩

/-- An argument shows the value that it is given behind those it had. -/
theorem shows_of_give {c c' : CommandLine} {a : Argument} {v : String} {vs : List String}
    (h : c.give a v = .ok c') (hshows : c.Shows a vs) : c'.Shows a (vs ++ [v]) := by
  obtain ⟨hno, hgives⟩ := give_eq_ok_iff.1 h
  cases a with
  | config =>
      obtain ⟨-, rfl⟩ := hgives
      exact hshows.append hno rfl
  | configDirectory =>
      obtain ⟨-, rfl⟩ := hgives
      exact hshows.append hno rfl
  | format =>
      obtain ⟨f, hname, rfl⟩ := hgives
      exact hshows.append hno hname
  | help | version => exact hgives.elim
  | field f =>
      cases f with
      | text f =>
          subst hgives
          simpa [Shows, setText] using hshows.append hno rfl
      | count f =>
          obtain ⟨k, hk, rfl⟩ := hgives
          simpa [Shows, setCount] using hshows.append hno hk
      | number f =>
          obtain ⟨k, hk, rfl⟩ := hgives
          simpa [Shows, setNumber] using hshows.append hno hk
      | switch f => exact hgives.elim
      | list f =>
          subst hgives
          rw [Shows] at hshows
          simp [Shows, append, hshows]

section Frame

variable {c c' : CommandLine} {a b : Argument} {v : String} {vs : List String}

theorem shows_setText {f : TextField} (h : b ≠ .field (.text f)) :
    (c.setText f v).Shows b vs ↔ c.Shows b vs := by
  cases b with
  | field g =>
      cases g with
      | text g =>
          have hne : g ≠ f := fun heq => h (heq ▸ rfl)
          simp [Shows, setText, hne]
      | _ => rfl
  | _ => rfl

theorem shows_setCount {f : CountField} {k : UInt32} (h : b ≠ .field (.count f)) :
    (c.setCount f k).Shows b vs ↔ c.Shows b vs := by
  cases b with
  | field g =>
      cases g with
      | count g =>
          have hne : g ≠ f := fun heq => h (heq ▸ rfl)
          simp [Shows, setCount, hne]
      | _ => rfl
  | _ => rfl

theorem shows_setNumber {f : NumberField} {k : Int64} (h : b ≠ .field (.number f)) :
    (c.setNumber f k).Shows b vs ↔ c.Shows b vs := by
  cases b with
  | field g =>
      cases g with
      | number g =>
          have hne : g ≠ f := fun heq => h (heq ▸ rfl)
          simp [Shows, setNumber, hne]
      | _ => rfl
  | _ => rfl

theorem shows_append {f : ListField} (h : b ≠ .field (.list f)) :
    (c.append f v).Shows b vs ↔ c.Shows b vs := by
  cases b with
  | field g =>
      cases g with
      | list g =>
          have hne : g ≠ f := fun heq => h (heq ▸ rfl)
          simp [Shows, append, hne]
      | _ => rfl
  | _ => rfl

theorem shows_turnOn {f : SwitchField} : (c.turnOn f).Shows b vs ↔ c.Shows b vs := by
  cases b with
  | field g => cases g <;> rfl
  | _ => rfl

/-- Giving a value to an argument leaves what the others show. -/
theorem shows_of_give_ne (h : c.give a v = .ok c') (hne : b ≠ a) :
    c'.Shows b vs ↔ c.Shows b vs := by
  obtain ⟨-, hgives⟩ := give_eq_ok_iff.1 h
  cases a with
  | config | configDirectory =>
      obtain ⟨-, rfl⟩ := hgives
      cases b with
      | field g => cases g <;> rfl
      | _ => first | rfl | exact absurd rfl hne
  | format =>
      obtain ⟨f, -, rfl⟩ := hgives
      cases b with
      | format => exact absurd rfl hne
      | field g => cases g <;> rfl
      | _ => rfl
  | help | version => exact hgives.elim
  | field f =>
      cases f with
      | text f => exact hgives ▸ shows_setText hne
      | count f =>
          obtain ⟨k, -, rfl⟩ := hgives
          exact shows_setCount hne
      | number f =>
          obtain ⟨k, -, rfl⟩ := hgives
          exact shows_setNumber hne
      | switch f => exact hgives.elim
      | list f => exact hgives ▸ shows_append hne

theorem switch_of_give (h : c.give a v = .ok c') : c'.switch = c.switch := by
  obtain ⟨-, hgives⟩ := give_eq_ok_iff.1 h
  cases a with
  | config | configDirectory =>
      obtain ⟨-, rfl⟩ := hgives
      rfl
  | format =>
      obtain ⟨f, -, rfl⟩ := hgives
      rfl
  | help | version => exact hgives.elim
  | field f =>
      cases f with
      | text f | list f =>
          subst hgives
          rfl
      | count f | number f =>
          obtain ⟨k, -, rfl⟩ := hgives
          rfl
      | switch f => exact hgives.elim

end Frame

namespace Item

/-- The value that an item gives to an argument by name. -/
def valueFor? (a : Argument) : Item → Option String
  | .valued b v => if b = a then some v else none
  | _ => none

def placed? : Item → Option String
  | .place v => some v
  | _ => none

/-- An item whose argument, if it has a value, is one of those with names. -/
def IsNamed : Item → Prop
  | .valued a _ => a ∈ Argument.named
  | _ => True

end Item

/-- The values without a name, in their order. -/
def places (items : List Item) : List String := items.filterMap Item.placed?

/-- The values that the items of a command line give to an argument. The first value without a name
is the source and the next one is the target. -/
def given (items : List Item) : Argument → List String
  | .field (.text .source) => (places items).take 1
  | .field (.text .target) => (places items).drop 1
  | a => items.filterMap (Item.valueFor? a)

section Items

variable {items : List Item} {a b : Argument} {v : String}

theorem places_concat_place : places (items ++ [.place v]) = places items ++ [v] := by
  simp [places, Item.placed?]

theorem places_concat_of_placed? {item : Item} (h : item.placed? = none) :
    places (items ++ [item]) = places items := by
  simp [places, h]

theorem given_of_ne (hsource : a ≠ .field (.text .source)) (htarget : a ≠ .field (.text .target)) :
    given items a = items.filterMap (Item.valueFor? a) := by
  rw [given.eq_def]
  split
  · exact absurd rfl hsource
  · exact absurd rfl htarget
  · rfl

theorem given_concat_valued (h : b ∈ Argument.named) :
    given (items ++ [.valued b v]) a = given items a ++ if b = a then [v] else [] := by
  have hsource : b ≠ .field (.text .source) := by
    intro heq
    exact absurd (heq ▸ h) (by decide)
  have htarget : b ≠ .field (.text .target) := by
    intro heq
    exact absurd (heq ▸ h) (by decide)
  by_cases hs : a = .field (.text .source)
  · subst hs
    rw [given, given, places_concat_of_placed? rfl, if_neg hsource, List.append_nil]
  · by_cases ht : a = .field (.text .target)
    · subst ht
      rw [given, given, places_concat_of_placed? rfl, if_neg htarget, List.append_nil]
    · rw [given_of_ne hs ht, given_of_ne hs ht, List.filterMap_append]
      by_cases heq : b = a <;> simp [Item.valueFor?, heq]

theorem given_concat_flag : given (items ++ [.flag b]) a = given items a := by
  by_cases hs : a = .field (.text .source)
  · subst hs
    rw [given, given, places_concat_of_placed? rfl]
  · by_cases ht : a = .field (.text .target)
    · subst ht
      rw [given, given, places_concat_of_placed? rfl]
    · simp [given_of_ne hs ht, Item.valueFor?]

theorem fieldAt?_eq_some_iff {n : Nat} {f : TextField} :
    Reading.fieldAt? n = some f ↔ n = 0 ∧ f = .source ∨ n = 1 ∧ f = .target := by
  rw [Reading.fieldAt?.eq_def]
  split
  · simp [eq_comm]
  · simp [eq_comm]
  · next hzero hone =>
      have hne : n ≠ 0 ∧ n ≠ 1 := ⟨hzero, hone⟩
      simp [hne.1, hne.2]

theorem given_concat_place {f : TextField} (h : Reading.fieldAt? (places items).length = some f) :
    given items (.field (.text f)) = [] ∧
      given (items ++ [.place v]) a =
        given items a ++ if .field (.text f) = a then [v] else [] := by
  have hother (hs : a ≠ .field (.text .source)) (ht : a ≠ .field (.text .target)) :
      given (items ++ [.place v]) a = given items a := by
    simp [given_of_ne hs ht, Item.valueFor?]
  cases fieldAt?_eq_some_iff.1 h with
  | inl hfirst =>
      obtain ⟨hlength, rfl⟩ := hfirst
      have hnil : places items = [] := List.eq_nil_of_length_eq_zero hlength
      refine ⟨by simp [given, hnil], ?_⟩
      by_cases hs : a = .field (.text .source)
      · subst hs
        simp [given, places_concat_place, hnil]
      · by_cases ht : a = .field (.text .target)
        · subst ht
          simp [given, places_concat_place, hnil]
        · rw [hother hs ht, if_neg (Ne.symm hs), List.append_nil]
  | inr hsecond =>
      obtain ⟨hlength, rfl⟩ := hsecond
      obtain ⟨w, hw⟩ := List.length_eq_one_iff.1 hlength
      refine ⟨by simp [given, hw], ?_⟩
      by_cases hs : a = .field (.text .source)
      · subst hs
        simp [given, places_concat_place, hw]
      · by_cases ht : a = .field (.text .target)
        · subst ht
          simp [given, places_concat_place, hw]
        · rw [hother hs ht, if_neg (Ne.symm ht), List.append_nil]

end Items

/-- What a reading has come to says all that its items say. -/
structure Says (items : List Item) (r : Reading) : Prop where
  positions : r.positions = (places items).length
  length_le : (places items).length ≤ 2
  shows : ∀ a, r.given.Shows a (given items a)
  switches : ∀ f, items.count (.flag (.field (.switch f))) = (r.given.switch f).toNat

theorem says_nil : Says [] {} where
  positions := rfl
  length_le := by decide
  shows a := by
    cases a with
    | field f =>
        cases f with
        | text f => cases f <;> exact .inl ⟨rfl, rfl⟩
        | switch f | list f => rfl
        | _ => exact .inl ⟨rfl, rfl⟩
    | help | version => rfl
    | _ => exact .inl ⟨rfl, rfl⟩
  switches f := rfl

section Step

variable {items : List Item} {r r' : Reading} (h : Says items r)
include h

theorem Says.concat_valued {b : Argument} {v : String} (hnamed : b ∈ Argument.named)
    (heffect : r.Effect (.valued b v) r') : Says (items ++ [.valued b v]) r' := by
  obtain ⟨c, hgive, rfl⟩ := heffect
  have hplaces : places (items ++ [.valued b v]) = places items := places_concat_of_placed? rfl
  refine ⟨hplaces ▸ h.positions, hplaces ▸ h.length_le, ?_, ?_⟩
  · intro a
    rw [given_concat_valued hnamed]
    by_cases heq : b = a
    · subst heq
      rw [if_pos rfl]
      exact shows_of_give hgive (h.shows b)
    · rw [if_neg heq, List.append_nil]
      exact (shows_of_give_ne hgive (Ne.symm heq)).2 (h.shows a)
  · intro f
    rw [switch_of_give hgive]
    simpa using h.switches f

theorem Says.concat_flag {b : Argument} (heffect : r.Effect (.flag b) r') :
    Says (items ++ [.flag b]) r' := by
  obtain ⟨f, rfl, hoff, rfl⟩ := heffect
  have hplaces : places (items ++ [.flag (.field (.switch f))]) = places items :=
    places_concat_of_placed? rfl
  refine ⟨hplaces ▸ h.positions, hplaces ▸ h.length_le, ?_, ?_⟩
  · intro a
    rw [given_concat_flag]
    exact shows_turnOn.2 (h.shows a)
  · intro g
    have hswitch := h.switches g
    by_cases heq : g = f
    · subst heq
      rw [hoff] at hswitch
      simp [turnOn, hswitch]
    · have hne : ¬(f = g) := fun hfg => heq hfg.symm
      simp [turnOn, hswitch, beq_eq_false_iff_ne.2 heq, hne]

theorem Says.concat_place {v : String} (heffect : r.Effect (.place v) r') :
    Says (items ++ [.place v]) r' := by
  obtain ⟨f, hfield, rfl⟩ := heffect
  rw [h.positions] at hfield
  have hlength : (places (items ++ [.place v])).length = (places items).length + 1 := by
    rw [places_concat_place, List.length_append, List.length_singleton]
  refine ⟨hlength ▸ congrArg (· + 1) h.positions, ?_, ?_, ?_⟩
  · have hplace := fieldAt?_eq_some_iff.1 hfield
    omega
  · intro a
    obtain ⟨hnil, hgiven⟩ := @given_concat_place items a v f hfield
    rw [hgiven]
    by_cases heq : .field (.text f) = a
    · subst heq
      have hbefore : IsSetBy (· = ·) [] (r.given.text f) := hnil ▸ h.shows (.field (.text f))
      rw [if_pos rfl, hnil]
      simpa [Shows, setText] using hbefore.append hbefore.isSome_of_nil rfl
    · rw [if_neg heq, List.append_nil]
      exact (shows_setText (Ne.symm heq)).2 (h.shows a)
  · intro g
    simpa [setText] using h.switches g

/-- Taking an item keeps a reading true to its items. -/
theorem Says.concat {item : Item} (hnamed : item.IsNamed) (heffect : r.Effect item r') :
    Says (items ++ [item]) r' := by
  cases item with
  | valued b v => exact h.concat_valued hnamed heffect
  | flag b => exact h.concat_flag heffect
  | place v => exact h.concat_place heffect

end Step

theorem Says.append {before items : List Item} {r r' : Reading} (h : Says before r)
    (hnamed : ∀ item ∈ items, item.IsNamed) (hrun : Reading.Run r items r') :
    Says (before ++ items) r' := by
  induction hrun generalizing before with
  | nil => exact (List.append_nil before).symm ▸ h
  | @cons r item r₁ items r' heffect _ ih =>
      have hstep := h.concat (hnamed item List.mem_cons_self) heffect
      rw [← List.singleton_append, ← List.append_assoc]
      exact ih hstep fun other hother => hnamed other (List.mem_cons_of_mem item hother)

theorem mem_named_of_short? {a : Argument} {c : Char} (h : a.short? = some c) :
    a ∈ Argument.named :=
  List.mem_of_find?_eq_some (ofShort?_eq_some_iff.2 h)

theorem Cluster.isNamed {cs : List Char} {items : List Item} {next : Option Argument}
    (h : Cluster cs items next) :
    (∀ item ∈ items, item.IsNamed) ∧ ∀ a ∈ next, a ∈ Argument.named := by
  induction h with
  | nil => simp
  | flag _ _ _ ih => simpa [Item.IsNamed] using ih
  | value hshort _ _ => simpa [Item.IsNamed] using mem_named_of_short? hshort
  | last hshort _ => simpa using mem_named_of_short? hshort

theorem Spells.isNamed {cs : List Char} {items : List Item} {next : Option Argument}
    (h : Spells cs items next) :
    (∀ item ∈ items, item.IsNamed) ∧ ∀ a ∈ next, a ∈ Argument.named := by
  cases h with
  | longValue v hnamed _ => simpa [Item.IsNamed] using hnamed
  | longLast hnamed _ => simpa using hnamed
  | longFlag hnamed _ => simp [Item.IsNamed]
  | short _ hcluster => exact hcluster.isNamed

theorem Accounted.isNamed {ts : List String} {items : List Item} (h : Accounted ts items) :
    ∀ item ∈ items, item.IsNamed := by
  induction h with
  | nil => simp
  | rest vs =>
      intro item hitem
      obtain ⟨v, -, rfl⟩ := List.mem_map.1 hitem
      trivial
  | named hspells _ ih =>
      intro item hitem
      cases List.mem_append.1 hitem with
      | inl hmem => exact hspells.isNamed.1 item hmem
      | inr hmem => exact ih item hmem
  | followed hspells _ _ ih =>
      intro item hitem
      cases List.mem_append.1 hitem with
      | inl hmem => exact hspells.isNamed.1 item hmem
      | inr hmem =>
          cases List.mem_cons.1 hmem with
          | inl heq => exact heq ▸ hspells.isNamed.2 _ rfl
          | inr hmem => exact ih item hmem
  | place _ _ ih =>
      intro item hitem
      cases List.mem_cons.1 hitem with
      | inl heq => exact heq ▸ trivial
      | inr hmem => exact ih item hmem

/-- What is read of a command line says all that its items say. -/
theorem says_of_read {arguments : List String} {items : List Item} {c : CommandLine}
    (h : read arguments = .ok c) (haccounted : Accounted arguments items) :
    ∃ r, r.given = c ∧ Says items r := by
  obtain ⟨r, hrun, hgiven⟩ := (read_eq_ok_iff haccounted).1 h
  exact ⟨r, hgiven, says_nil.append haccounted.isNamed hrun⟩

end SyncPlan.CommandLine
