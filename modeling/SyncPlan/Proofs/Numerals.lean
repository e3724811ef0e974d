import Mathlib.Data.List.Induction
import Mathlib.Data.Nat.Digits.Defs
import SyncPlan.Text.Numeral

/-!
Readers that may fail: a computation succeeds when each of its parts does. Then the value of a
numeral by the positions of its digits, and the readers of numerals against it: each of them accepts
the numerals whose value is in range, gives this value, and accepts nothing else. Leading zeros and
the place where a limit is passed make no difference to the value.
-/

namespace SyncPlan

theorem map_eq_ok_iff {ε α β : Type} {x : Except ε α} {f : α → β} {b : β} :
    x.map f = .ok b ↔ ∃ a, x = .ok a ∧ f a = b := by
  cases x <;> simp [Except.map]

theorem bind_eq_ok_iff {ε α β : Type} {x : Except ε α} {f : α → Except ε β} {b : β} :
    x >>= f = .ok b ↔ ∃ a, x = .ok a ∧ f a = .ok b := by
  cases x <;> simp [bind, Except.bind]

theorem pure_eq_ok_iff {ε α : Type} {a b : α} : (pure a : Except ε α) = .ok b ↔ b = a := by
  simp [pure, Except.pure, eq_comm]

theorem bind_congr_of_ok {ε α β : Type} {x : Except ε α} {f g : α → Except ε β}
    (h : ∀ a, x = .ok a → f a = g a) : x >>= f = x >>= g := by
  cases x with
  | error e => rfl
  | ok a => exact h a rfl

/-- The error that a computation ends with, if it fails. -/
def errorOf? {ε α : Type} : Except ε α → Option ε
  | .ok _ => none
  | .error e => some e

theorem errorOf?_eq_none_iff {ε α : Type} {x : Except ε α} :
    errorOf? x = none ↔ ∃ a, x = .ok a := by
  cases x <;> simp [errorOf?]

theorem errorOf?_eq_some_iff {ε α : Type} {x : Except ε α} {e : ε} :
    errorOf? x = some e ↔ x = .error e := by
  cases x <;> simp [errorOf?]

namespace Text

/-- The value of a run of digits, of which the last counts once and each other one `base` times as
much as the next. -/
def valueOf (base : Nat) (digits : List Char) : Nat :=
  Nat.ofDigits base (digits.reverse.map fun c => c.toNat - '0'.toNat)

/-- A character between the digit zero and the greatest digit of a base up to ten. -/
def IsDigit (base : Nat) (c : Char) : Prop := '0'.toNat ≤ c.toNat ∧ c.toNat < '0'.toNat + base

instance (base : Nat) : DecidablePred (IsDigit base) := fun c =>
  inferInstanceAs (Decidable ('0'.toNat ≤ c.toNat ∧ c.toNat < '0'.toNat + base))

/-- A run of digits, at least one. -/
def IsRun (base : Nat) (digits : List Char) : Prop := digits ≠ [] ∧ ∀ c ∈ digits, IsDigit base c

/-- A run of digits, with at most a plus sign before it, and its value. -/
def IsNatural (base : Nat) (cs : List Char) (n : Nat) : Prop :=
  ∃ digits, (cs = digits ∨ cs = '+' :: digits) ∧ IsRun base digits ∧ valueOf base digits = n

/-- A run of digits, with at most one sign before it, and its value. -/
def IsInteger (base : Nat) (cs : List Char) (n : Int) : Prop :=
  (∃ k : Nat, IsNatural base cs k ∧ n = k) ∨
    ∃ digits, cs = '-' :: digits ∧ IsRun base digits ∧ n = -(valueOf base digits : Int)

theorem not_isDigit_of_lt {base : Nat} {c : Char} (h : c.toNat < '0'.toNat) :
    ¬IsDigit base c := by
  intro hdigit
  have hle := hdigit.1
  omega

theorem isDigit_iff {c : Char} : c.isDigit = true ↔ IsDigit 10 c := by
  have hmin : '0'.val.toNat = 48 := rfl
  have hmax : '9'.val.toNat = 57 := rfl
  simp only [Char.isDigit, IsDigit, Char.toNat, Bool.and_eq_true, decide_eq_true_eq, ge_iff_le,
    UInt32.le_iff_toNat_le, hmin, hmax]
  omega

theorem valueOf_concat (base : Nat) (digits : List Char) (c : Char) :
    valueOf base (digits ++ [c]) = valueOf base digits * base + (c.toNat - '0'.toNat) := by
  simp [valueOf, Nat.ofDigits_cons, Nat.mul_comm, Nat.add_comm]

theorem valueOf_le_append {base : Nat} (hpos : 0 < base) (front digits : List Char) :
    valueOf base front ≤ valueOf base (front ++ digits) := by
  induction digits using List.reverseRecOn with
  | nil => simp
  | append_singleton digits c ih =>
      rw [← List.append_assoc, valueOf_concat]
      calc valueOf base front ≤ valueOf base (front ++ digits) := ih
        _ ≤ valueOf base (front ++ digits) * base := Nat.le_mul_of_pos_right _ hpos
        _ ≤ _ := Nat.le_add_right _ _

section Sign

variable {base : Nat} {cs digits : List Char}

theorem isNatural_plus_iff {n : Nat} :
    IsNatural base ('+' :: digits) n ↔ IsRun base digits ∧ valueOf base digits = n := by
  constructor
  · intro hnatural
    obtain ⟨digits', rfl | h, hrun, hvalue⟩ := hnatural
    · exact absurd (hrun.2 '+' (by simp)) (not_isDigit_of_lt (by decide))
    · rw [(List.cons.inj h).2]
      exact ⟨hrun, hvalue⟩
  · exact fun h => ⟨digits, .inr rfl, h⟩

theorem isNatural_iff_of_ne_plus {n : Nat} (h : ∀ digits, cs ≠ '+' :: digits) :
    IsNatural base cs n ↔ IsRun base cs ∧ valueOf base cs = n := by
  constructor
  · intro hnatural
    obtain ⟨digits, rfl | hplus, hrun⟩ := hnatural
    · exact hrun
    · exact absurd hplus (h digits)
  · exact fun hrun => ⟨cs, .inl rfl, hrun⟩

theorem isInteger_minus_iff {n : Int} :
    IsInteger base ('-' :: digits) n ↔ IsRun base digits ∧ n = -(valueOf base digits : Int) := by
  constructor
  · intro hinteger
    obtain ⟨k, ⟨digits', rfl | h, hrun, -⟩, -⟩ | ⟨digits', h, hrun⟩ := hinteger
    · exact absurd (hrun.2 '-' (by simp)) (not_isDigit_of_lt (by decide))
    · simp at h
    · rw [(List.cons.inj h).2]
      exact hrun
  · exact fun h => .inr ⟨digits, rfl, h⟩

theorem isInteger_iff_of_ne_minus {n : Int} (h : ∀ digits, cs ≠ '-' :: digits) :
    IsInteger base cs n ↔ ∃ k : Nat, IsNatural base cs k ∧ n = k := by
  constructor
  · intro hinteger
    cases hinteger with
    | inl hk => exact hk
    | inr hminus =>
        obtain ⟨digits, hminus, -⟩ := hminus
        exact absurd hminus (h digits)
  · exact .inl

theorem readInteger_minus (negative positive : Nat) :
    readInteger base negative positive ('-' :: digits) =
      Except.map (fun k : Nat => -(k : Int)) (readDigits1 base negative .tooSmall digits) := by
  rw [readInteger]
  cases readDigits1 base negative .tooSmall digits <;> rfl

theorem readInteger_of_ne_minus (negative positive : Nat) (h : ∀ digits, cs ≠ '-' :: digits) :
    readInteger base negative positive cs = (readNatural base positive cs).map Int.ofNat := by
  rw [readInteger.eq_def, readNatural.eq_def]
  split
  · rfl
  · next digits => exact absurd rfl (h digits)
  · rfl
  · next hplus => split <;> simp_all

end Sign

section Base

variable {base : Nat} (hb : base ≤ 10)
include hb

theorem digitIn_eq_some_iff {c : Char} {d : Nat} :
    digitIn base c = some d ↔ IsDigit base c ∧ d = c.toNat - '0'.toNat := by
  have h0 : '0'.toNat = 48 := rfl
  have ha : 'a'.toNat = 97 := rfl
  have hA : 'A'.toNat = 65 := rfl
  simp only [digitIn, digitValue, IsDigit, Bool.and_eq_true, decide_eq_true_eq, Char.le_def,
    UInt32.le_iff_toNat_le]
  change Option.filter _ (if 48 ≤ c.toNat ∧ c.toNat ≤ 57 then _
    else if 97 ≤ c.toNat ∧ c.toNat ≤ 122 then _
    else if 65 ≤ c.toNat ∧ c.toNat ≤ 90 then _ else none) = some d ↔ _
  rw [h0, ha, hA]
  repeat' split
  all_goals simp only [Option.filter_some, Option.filter_none, decide_eq_true_eq, reduceCtorEq,
    Option.ite_none_right_eq_some, Option.some.injEq, false_iff, not_and]
  all_goals omega

theorem digitIn_of_isDigit {c : Char} (h : IsDigit base c) :
    digitIn base c = some (c.toNat - '0'.toNat) :=
  (digitIn_eq_some_iff hb).2 ⟨h, rfl⟩

theorem isDigitIn_iff {c : Char} : isDigitIn base c = true ↔ IsDigit base c := by
  rw [isDigitIn, Option.isSome_iff_exists]
  simp [digitIn_eq_some_iff hb]

theorem digitsValue_eq_valueOf {digits : List Char} (h : ∀ c ∈ digits, IsDigit base c) :
    digitsValue base digits = valueOf base digits := by
  induction digits using List.reverseRecOn with
  | nil => rfl
  | append_singleton digits c ih =>
      have hc := digitIn_of_isDigit hb (h c (by simp))
      rw [valueOf_concat, ← ih fun d hd => h d (by simp [hd])]
      simp [digitsValue, hc]

theorem natural?_eq_some_iff {digits : List Char} {n : Nat} :
    natural? base digits = some n ↔
      IsRun base digits ∧ valueOf base digits = n := by
  have hall : digits.all (isDigitIn base) = true ↔ ∀ c ∈ digits, IsDigit base c := by
    simp [List.all_eq_true, isDigitIn_iff hb]
  rw [natural?, IsRun, and_assoc]
  split
  · next h =>
      refine iff_of_false (by simp) fun ⟨hne, hd, _⟩ => ?_
      simp [hne, hall.2 hd] at h
  · next h =>
      simp only [Bool.or_eq_true, List.isEmpty_iff, Bool.not_eq_true', not_or,
        Bool.not_eq_false, hall] at h
      simp only [Option.some.injEq, digitsValue_eq_valueOf hb h.2]
      exact ⟨fun hn => ⟨h.1, h.2, hn⟩, fun hn => hn.2.2⟩

theorem readDigits_eq_ok_iff {limit n : Nat} {excess : NumeralFault} {front digits : List Char}
    (hstart : valueOf base front ≤ limit) :
    readDigits base limit excess (valueOf base front) digits = .ok n ↔
      (∀ c ∈ digits, IsDigit base c) ∧ valueOf base (front ++ digits) = n ∧ n ≤ limit := by
  induction digits generalizing front with
  | nil =>
      simp only [readDigits, Except.ok.injEq, List.append_nil]
      constructor
      · intro heq
        subst heq
        exact ⟨by simp, rfl, hstart⟩
      · exact fun h => h.2.1
  | cons c digits ih =>
      rw [readDigits]
      cases hc : digitIn base c with
      | none =>
          have hnot : ¬IsDigit base c := by
            intro h
            rw [digitIn_of_isDigit hb h] at hc
            simp at hc
          simp [hnot]
      | some d =>
          obtain ⟨hdigit, rfl⟩ := (digitIn_eq_some_iff hb).1 hc
          simp only [← valueOf_concat]
          split
          · next hle =>
              rw [ih hle]
              simp [hdigit]
          · next hgt =>
              simp only [reduceCtorEq, false_iff, not_and]
              intro hdigits hvalue hle
              subst hvalue
              have hpos : 0 < base := by
                have := hdigits c (by simp)
                simp only [IsDigit] at this
                omega
              have hmono := valueOf_le_append hpos (front ++ [c]) digits
              rw [List.append_assoc, List.singleton_append] at hmono
              exact hgt (hmono.trans hle)

theorem readDigits1_eq_ok_iff {limit n : Nat} {excess : NumeralFault} {digits : List Char} :
    readDigits1 base limit excess digits = .ok n ↔
      IsRun base digits ∧ valueOf base digits = n ∧ n ≤ limit := by
  rw [readDigits1, IsRun, and_assoc]
  split
  · next h => simp [List.isEmpty_iff.1 h]
  · next h =>
      have hread : readDigits base limit excess (valueOf base []) digits = .ok n ↔ _ :=
        readDigits_eq_ok_iff hb (Nat.zero_le _)
      rw [and_iff_right (by simpa using h)]
      exact hread

theorem readNatural_eq_ok_iff {limit n : Nat} {cs : List Char} :
    readNatural base limit cs = .ok n ↔ IsNatural base cs n ∧ n ≤ limit := by
  rw [readNatural.eq_def]
  split
  · simp [IsNatural, IsRun]
  · rw [readDigits1_eq_ok_iff hb, isNatural_plus_iff, and_assoc]
  · next hplus =>
      rw [readDigits1_eq_ok_iff hb, isNatural_iff_of_ne_plus fun digits h => hplus digits h,
        and_assoc]

/-- Of the integer numerals those between the limits are read, and nothing else. -/
theorem readInteger_eq_ok_iff {negative positive : Nat} {n : Int} {cs : List Char} :
    readInteger base negative positive cs = .ok n ↔
      IsInteger base cs n ∧ -(negative : Int) ≤ n ∧ n ≤ positive := by
  by_cases hminus : ∃ digits, cs = '-' :: digits
  · obtain ⟨digits, rfl⟩ := hminus
    rw [readInteger_minus, map_eq_ok_iff, isInteger_minus_iff]
    simp only [readDigits1_eq_ok_iff hb]
    constructor
    · intro h
      obtain ⟨k, ⟨hrun, rfl, hle⟩, rfl⟩ := h
      exact ⟨⟨hrun, rfl⟩, by omega, by omega⟩
    · intro h
      obtain ⟨⟨hrun, rfl⟩, hlow, -⟩ := h
      exact ⟨_, ⟨hrun, rfl, by omega⟩, rfl⟩
  · have hne : ∀ digits, cs ≠ '-' :: digits := fun digits h => hminus ⟨digits, h⟩
    rw [readInteger_of_ne_minus negative positive hne, map_eq_ok_iff,
      isInteger_iff_of_ne_minus hne]
    simp only [readNatural_eq_ok_iff hb, Int.ofNat_eq_natCast]
    constructor
    · intro h
      obtain ⟨k, ⟨hk, hle⟩, rfl⟩ := h
      exact ⟨⟨k, hk, rfl⟩, by omega, by omega⟩
    · intro h
      obtain ⟨⟨k, hk, rfl⟩, -, hle⟩ := h
      exact ⟨k, ⟨hk, by omega⟩, rfl⟩

/-- A numeral is that of one integer. -/
theorem IsInteger.unique {cs : List Char} {n m : Int}
    (h : IsInteger base cs n) (h' : IsInteger base cs m) : n = m := by
  -- The limits are so wide that the reader meets neither of them.
  have hread {k : Int} (hk : IsInteger base cs k) (hle : k.natAbs ≤ n.natAbs + m.natAbs) :
      readInteger base (n.natAbs + m.natAbs) (n.natAbs + m.natAbs) cs = .ok k :=
    (readInteger_eq_ok_iff hb).2 ⟨hk, by omega, by omega⟩
  exact Except.ok.inj ((hread h (by omega)).symm.trans (hread h' (by omega)))

end Base

end Text

end SyncPlan
