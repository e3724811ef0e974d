import SyncPlan.CommandLine
import SyncPlan.Proofs.Numerals

/-!
The items of a command line, and which tokens spell them. A command line that can be read splits
from left to right into the tokens of its items, and reading it comes to the same as taking the
items one by one, however each of them is spelled.
-/

namespace SyncPlan.CommandLine

/-- An argument with its value, an argument that takes none, or a value that belongs to no name. -/
inductive Item
  | valued (a : Argument) (value : String)
  | flag (a : Argument)
  | place (value : String)
  deriving DecidableEq, Repr

/-- A token that can stand for a value: it does not begin with a dash, or is a dash alone. -/
def IsPlain (t : String) : Prop := ∀ cs, t.toList = '-' :: cs → cs = []

/-- A value that stands in the token of a short name, without the sign between the two. -/
def withoutSign : List Char → List Char
  | '=' :: v => v
  | v => v

/-- The characters behind a single dash: short names of flags, and at the end perhaps one of an
argument whose value is the rest of the token or has yet to come. -/
inductive Cluster : List Char → List Item → Option Argument → Prop
  | nil : Cluster [] [] none
  | flag {c cs a items next} : a.short? = some c → a.takesValue = false → Cluster cs items next →
      Cluster (c :: cs) (.flag a :: items) next
  | value {c v a} : a.short? = some c → a.takesValue = true → v ≠ [] →
      Cluster (c :: v) [.valued a (String.ofList (withoutSign v))] none
  | last {c a} : a.short? = some c → a.takesValue = true → Cluster [c] [] (some a)

/-- The items that a token with a name spells, and the argument whose value the next token is. -/
inductive Spells : List Char → List Item → Option Argument → Prop
  | longValue {a} (v : String) : a ∈ Argument.named → a.takesValue = true →
      Spells ('-' :: '-' :: (a.long.toList ++ '=' :: v.toList)) [.valued a v] none
  | longLast {a} : a ∈ Argument.named → a.takesValue = true →
      Spells ('-' :: '-' :: a.long.toList) [] (some a)
  | longFlag {a} : a ∈ Argument.named → a.takesValue = false →
      Spells ('-' :: '-' :: a.long.toList) [.flag a] none
  | short {cs items next} : cs ≠ [] → Cluster cs items next → Spells ('-' :: cs) items next

/-- Tokens and the items that account for them, each token for its part and in this order. -/
inductive Accounted : List String → List Item → Prop
  | nil : Accounted [] []
  | rest (vs : List String) : Accounted ("--" :: vs) (vs.map .place)
  | named {t ts items more} : Spells t.toList items none → Accounted ts more →
      Accounted (t :: ts) (items ++ more)
  | followed {t v ts items a more} : Spells t.toList items (some a) → IsPlain v →
      Accounted ts more → Accounted (t :: v :: ts) (items ++ .valued a v :: more)
  | place {v ts more} : IsPlain v → Accounted ts more → Accounted (v :: ts) (.place v :: more)

/-- Tokens behind others that do not end the names are accounted for by themselves. -/
theorem Accounted.append {front back : List String} {before after : List Item}
    (h : Accounted front before) (hdashes : "--" ∉ front) (h' : Accounted back after) :
    Accounted (front ++ back) (before ++ after) := by
  induction h with
  | nil => exact h'
  | rest vs => exact absurd List.mem_cons_self hdashes
  | named hspells _ ih =>
      rw [List.mem_cons, not_or] at hdashes
      rw [List.append_assoc]
      exact .named hspells (ih hdashes.2)
  | followed hspells hplain _ ih =>
      rw [List.mem_cons, List.mem_cons, not_or, not_or] at hdashes
      rw [List.append_assoc]
      exact .followed hspells hplain (ih hdashes.2.2)
  | place hplain _ ih =>
      rw [List.mem_cons, not_or] at hdashes
      exact .place hplain (ih hdashes.2)

namespace Reading

/-- The field that a value without a name goes to after so many of them. -/
def fieldAt? : Nat → Option TextField
  | 0 => some .source
  | 1 => some .target
  | _ => none

/-- What an item does to a reading in which nothing is pending. -/
def Effect (r : Reading) : Item → Reading → Prop
  | .valued a v, r' => ∃ c, r.given.give a v = .ok c ∧ r' = { r with given := c }
  | .flag a, r' => ∃ f, a = .field (.switch f) ∧ r.given.switch f = false ∧
      r' = { r with given := r.given.turnOn f }
  | .place v, r' => ∃ f, fieldAt? r.positions = some f ∧
      r' = { r with given := r.given.setText f v, positions := r.positions + 1 }

/-- The effects of items, one after the other. -/
inductive Run : Reading → List Item → Reading → Prop
  | nil {r} : Run r [] r
  | cons {r item r₁ items r'} : r.Effect item r₁ → Run r₁ items r' → Run r (item :: items) r'

/-- Settling what is pending and then taking items leads from one reading to another. -/
def Takes (r : Reading) (items : List Item) (r' : Reading) : Prop :=
  ∃ r₀, r.settle = .ok r₀ ∧ Run r₀ items r'

/-- A reading with an argument whose value has to follow. -/
def opened (r : Reading) : Option Argument → Reading
  | none => r
  | some a => { r with pending := some (a, none) }

def IsOpen (r : Reading) : Prop := ∃ a, r.pending = some (a, none)

theorem settle_eq_ok {r r' : Reading} (h : r.settle = .ok r') :
    r'.pending = none ∧ r'.positions = r.positions := by
  rw [settle] at h
  split at h
  · next hnone =>
      rw [← Except.ok.inj h]
      exact ⟨hnone, rfl⟩
  · simp at h
  · obtain ⟨c, -, rfl⟩ := map_eq_ok_iff.1 h
    exact ⟨rfl, rfl⟩

theorem settle_of_pending {r : Reading} (h : r.pending = none) : r.settle = .ok r := by
  rw [settle, h]

theorem settle_ne_ok_of_isOpen {r r' : Reading} (h : r.IsOpen) : r.settle ≠ .ok r' := by
  obtain ⟨a, ha⟩ := h
  simp [settle, ha]

theorem Effect.pending {r r' : Reading} {item : Item} (h : r.Effect item r') :
    r'.pending = r.pending := by
  cases item with
  | valued a v =>
      obtain ⟨c, -, rfl⟩ := h
      rfl
  | flag a =>
      obtain ⟨f, -, -, rfl⟩ := h
      rfl
  | place v =>
      obtain ⟨f, -, rfl⟩ := h
      rfl

theorem Run.pending {r r' : Reading} {items : List Item} (h : Run r items r') :
    r'.pending = r.pending := by
  induction h with
  | nil => rfl
  | cons heffect _ ih => exact ih.trans heffect.pending

theorem run_nil_iff {r r' : Reading} : Run r [] r' ↔ r' = r := by
  constructor
  · intro h
    cases h
    rfl
  · intro h
    exact h ▸ .nil

theorem run_cons_iff {r r' : Reading} {item : Item} {items : List Item} :
    Run r (item :: items) r' ↔ ∃ r₁, r.Effect item r₁ ∧ Run r₁ items r' := by
  constructor
  · intro h
    cases h with
    | cons heffect hrun => exact ⟨_, heffect, hrun⟩
  · intro h
    obtain ⟨r₁, heffect, hrun⟩ := h
    exact .cons heffect hrun

theorem run_append_iff {r r' : Reading} {items more : List Item} :
    Run r (items ++ more) r' ↔ ∃ r₁, Run r items r₁ ∧ Run r₁ more r' := by
  induction items generalizing r with
  | nil => simp [run_nil_iff]
  | cons item items ih =>
      simp only [List.cons_append, run_cons_iff, ih]
      constructor
      · intro h
        obtain ⟨r₁, heffect, r₂, hrun, hmore⟩ := h
        exact ⟨r₂, ⟨r₁, heffect, hrun⟩, hmore⟩
      · intro h
        obtain ⟨r₂, ⟨r₁, heffect, hrun⟩, hmore⟩ := h
        exact ⟨r₁, heffect, r₂, hrun, hmore⟩

theorem run_singleton_iff {r r' : Reading} {item : Item} : Run r [item] r' ↔ r.Effect item r' := by
  simp [run_cons_iff, run_nil_iff]

theorem Takes.pending {r r' : Reading} {items : List Item} (h : r.Takes items r') :
    r'.pending = none := by
  obtain ⟨r₀, hsettle, hrun⟩ := h
  rw [hrun.pending, (settle_eq_ok hsettle).1]

theorem takes_nil_iff {r r' : Reading} : r.Takes [] r' ↔ r.settle = .ok r' := by
  simp [Takes, run_nil_iff]

theorem takes_iff_run {r r' : Reading} {items : List Item} (h : r.pending = none) :
    r.Takes items r' ↔ Run r items r' := by
  simp [Takes, settle_of_pending h]

theorem takes_append_iff {r r' : Reading} {items more : List Item} :
    r.Takes (items ++ more) r' ↔ ∃ r₁, r.Takes items r₁ ∧ r₁.Takes more r' := by
  simp only [Takes, run_append_iff]
  constructor
  · intro h
    obtain ⟨r₀, hsettle, r₁, hrun, hmore⟩ := h
    have hnone : r₁.pending = none := hrun.pending.trans (settle_eq_ok hsettle).1
    exact ⟨r₁, ⟨r₀, hsettle, hrun⟩, r₁, settle_of_pending hnone, hmore⟩
  · intro h
    obtain ⟨r₁, ⟨r₀, hsettle, hrun⟩, r₂, hagain, hmore⟩ := h
    have hnone : r₁.pending = none := hrun.pending.trans (settle_eq_ok hsettle).1
    rw [settle_of_pending hnone, Except.ok.injEq] at hagain
    exact ⟨r₀, hsettle, r₁, hrun, hagain ▸ hmore⟩

theorem takes_cons_iff {r r' : Reading} {item : Item} {items : List Item} :
    r.Takes (item :: items) r' ↔ ∃ r₁, r.Takes [item] r₁ ∧ r₁.Takes items r' :=
  @takes_append_iff r r' [item] items

theorem attach_eq_ok_iff {r r' : Reading} {a : Argument} {v : String} :
    r.attach a v = .ok r' ↔ r.Takes [.valued a v] r' := by
  simp only [attach, bind_eq_ok_iff, pure_eq_ok_iff, Takes, run_singleton_iff, Effect]

theorem flag_eq_ok_iff {r r' : Reading} {a : Argument} {long : Bool} :
    r.flag long a = .ok r' ↔ r.Takes [.flag a] r' := by
  simp only [flag, bind_eq_ok_iff, pure_eq_ok_iff, raise, Takes, run_singleton_iff, Effect]
  constructor
  · intro h
    obtain ⟨r₀, hsettle, c, hraise, rfl⟩ := h
    split at hraise
    · simp at hraise
    · next hno =>
        split at hraise <;> simp only [Except.ok.injEq, reduceCtorEq] at hraise
        subst hraise
        exact ⟨r₀, hsettle, _, rfl, by simpa [has] using hno, rfl⟩
  · intro h
    obtain ⟨r₀, hsettle, f, rfl, hno, rfl⟩ := h
    exact ⟨r₀, hsettle, _, by simp [has, hno], rfl⟩

theorem positional_eq_ok_iff {r r' : Reading} {v : String} :
    r.positional v = .ok r' ↔ r.Takes [.place v] r' := by
  have hplace (f : TextField) : (r.settle >>= fun r₀ =>
      pure { r₀ with given := r₀.given.setText f v, positions := r₀.positions + 1 }) = .ok r' ↔
      ∃ r₀, r.settle = .ok r₀ ∧
        r' = { r₀ with given := r₀.given.setText f v, positions := r₀.positions + 1 } := by
    simp only [bind_eq_ok_iff, pure_eq_ok_iff]
  have hpositions : r.Takes [.place v] r' ↔
      ∃ f, fieldAt? r.positions = some f ∧ ∃ r₀, r.settle = .ok r₀ ∧
        r' = { r₀ with given := r₀.given.setText f v, positions := r₀.positions + 1 } := by
    simp only [Takes, run_singleton_iff, Effect]
    constructor
    · intro h
      obtain ⟨r₀, hsettle, f, hfield, heq⟩ := h
      exact ⟨f, (settle_eq_ok hsettle).2 ▸ hfield, r₀, hsettle, heq⟩
    · intro h
      obtain ⟨f, hfield, r₀, hsettle, heq⟩ := h
      exact ⟨r₀, hsettle, f, (settle_eq_ok hsettle).2.symm ▸ hfield, heq⟩
  rw [hpositions, positional]
  split
  · next hzero =>
      rw [hzero]
      refine (hplace .source).trans ?_
      simp [fieldAt?]
  · next hone =>
      rw [hone]
      refine (hplace .target).trans ?_
      simp [fieldAt?]
  · next hzero hone =>
      have hnone : fieldAt? r.positions = none := by
        rw [fieldAt?.eq_def]
        split <;> first | contradiction | rfl
      simp [hnone]

theorem await_eq_ok_iff {r r' : Reading} {a : Argument} :
    r.await a = .ok r' ↔ ∃ r₀, r.settle = .ok r₀ ∧ r' = r₀.opened (some a) := by
  simp only [await, bind_eq_ok_iff, pure_eq_ok_iff, opened]

end Reading

end SyncPlan.CommandLine
