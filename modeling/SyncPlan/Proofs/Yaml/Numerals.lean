import SyncPlan.Proofs.Numerals
import SyncPlan.Yaml.Typing

/-!
The integers of YAML by their spelling: in base ten without zeros in front, or behind the mark of
another base, and in each case with at most one sign.
-/

namespace SyncPlan.Yaml
open Text

/-- An integer without a sign. -/
inductive IsWhole : List Char → Nat → Prop
  | marked {mark : Char} {base n : Nat} {digits : List Char} : baseOfMark? mark = some base →
      natural? base digits = some n → IsWhole ('0' :: mark :: digits) n
  | decimal {digits : List Char} : IsRun 10 digits → (digits = ['0'] ∨ digits.head? ≠ some '0') →
      IsWhole digits (valueOf 10 digits)

/-- An integer without a minus sign. -/
inductive IsUnsigned : List Char → Nat → Prop
  | bare {cs : List Char} {n : Nat} : IsWhole cs n → IsUnsigned cs n
  | plus {cs : List Char} {n : Nat} : IsWhole cs n → IsUnsigned ('+' :: cs) n

inductive IsInteger : List Char → Int → Prop
  | unsigned {cs : List Char} {n : Nat} : IsUnsigned cs n → IsInteger cs n
  | minus {cs : List Char} {n : Nat} : IsWhole cs n → IsInteger ('-' :: cs) (-(n : Int))

/-- Digits with a zero in front of others. -/
def isPadded (cs : List Char) : Bool :=
  cs.length > 1 && cs.head? == some '0' && cs.all Char.isDigit

/-- What is read of digits that stand behind a sign or without one. -/
def whole? (cs : List Char) : Option Nat :=
  match marked? cs with
  | some n => some n
  | none => if isPadded cs then none else natural? 10 cs

theorem isPadded_eq_false_iff {cs : List Char} (h : IsRun 10 cs) :
    isPadded cs = false ↔ cs = ['0'] ∨ cs.head? ≠ some '0' := by
  have hall : cs.all Char.isDigit = true :=
    List.all_eq_true.2 fun c hc => isDigit_iff.2 (h.2 c hc)
  obtain ⟨c, more, rfl⟩ := List.exists_cons_of_ne_nil h.1
  rw [isPadded, hall]
  cases more with
  | nil => simp [Classical.em]
  | cons d more => simp

theorem baseOfMark?_of_isDigit {c : Char} (h : c.isDigit = true) : baseOfMark? c = none := by
  rw [baseOfMark?.eq_def]
  split <;> first | rfl | exact absurd h (by decide)

theorem marked?_eq_some_iff {cs : List Char} {n : Nat} : marked? cs = some n ↔
    ∃ mark base digits, cs = '0' :: mark :: digits ∧ baseOfMark? mark = some base ∧
      natural? base digits = some n := by
  constructor
  · intro h
    rw [marked?.eq_def] at h
    split at h
    · next mark digits =>
        simp only [bind, Option.bind_eq_some_iff] at h
        obtain ⟨base, hbase, hn⟩ := h
        exact ⟨mark, base, digits, rfl, hbase, hn⟩
    · simp at h
  · intro h
    obtain ⟨mark, base, digits, rfl, hbase, hn⟩ := h
    simp [marked?, hbase, hn]

/-- A run of digits carries no mark. -/
theorem marked?_of_isRun {cs : List Char} (h : IsRun 10 cs) : marked? cs = none := by
  cases hm : marked? cs with
  | none => rfl
  | some n =>
      obtain ⟨mark, base, digits, rfl, hbase, -⟩ := marked?_eq_some_iff.1 hm
      have hmark := isDigit_iff.2 (h.2 mark (by simp))
      rw [baseOfMark?_of_isDigit hmark] at hbase
      simp at hbase

theorem whole?_eq_some_iff {cs : List Char} {n : Nat} : whole? cs = some n ↔ IsWhole cs n := by
  constructor
  · intro h
    rw [whole?] at h
    split at h
    · next hm =>
        obtain ⟨mark, base, digits, rfl, hbase, hn⟩ := marked?_eq_some_iff.1 hm
        exact .marked hbase (hn.trans h)
    · split at h
      · simp at h
      · next hzero =>
          obtain ⟨hrun, rfl⟩ := (natural?_eq_some_iff (by decide)).1 h
          exact .decimal hrun ((isPadded_eq_false_iff hrun).1 (by simpa using hzero))
  · intro h
    cases h with
    | marked hbase hn =>
        have hm := marked?_eq_some_iff.2 ⟨_, _, _, rfl, hbase, hn⟩
        simp [whole?, hm]
    | decimal hrun hzero =>
        have hnatural := (natural?_eq_some_iff (by decide)).2 ⟨hrun, rfl⟩
        have hpadded := (isPadded_eq_false_iff hrun).2 hzero
        simp [whole?, marked?_of_isRun hrun, hpadded, hnatural]

theorem ne_sign_of_isWhole {cs : List Char} {n : Nat} (h : IsWhole cs n) :
    ∃ c more, cs = c :: more ∧ isSign c = false := by
  cases h with
  | marked _ _ => exact ⟨'0', _, rfl, by decide⟩
  | decimal hrun _ =>
      obtain ⟨c, more, rfl⟩ := List.exists_cons_of_ne_nil hrun.1
      refine ⟨c, more, rfl, ?_⟩
      have hdigit := isDigit_iff.2 (hrun.2 c List.mem_cons_self)
      rw [isSign, Bool.or_eq_false_iff, beq_eq_false_iff_ne, beq_eq_false_iff_ne]
      refine ⟨?_, ?_⟩ <;> rintro rfl <;> exact absurd hdigit (by decide)

theorem hasLeadingZero_sign {c : Char} (h : isSign c = true) (cs : List Char) :
    hasLeadingZero (c :: cs) = isPadded cs := by
  simp [hasLeadingZero, isPadded, h]

theorem hasLeadingZero_of_ne_sign {c : Char} (h : isSign c = false) (cs : List Char) :
    hasLeadingZero (c :: cs) = isPadded (c :: cs) := by
  simp [hasLeadingZero, isPadded, h]

theorem nonnegative?_plus (cs : List Char) : nonnegative? ('+' :: cs) = whole? cs := by
  rw [nonnegative?, whole?, hasLeadingZero_sign (by decide)]
  rfl

theorem nonnegative?_of_ne_sign {c : Char} (h : isSign c = false) (cs : List Char) :
    nonnegative? (c :: cs) = whole? (c :: cs) := by
  have hplus : ((c :: cs).head? == some '+') = false := by
    rw [isSign, Bool.or_eq_false_iff] at h
    simpa using h.1
  rw [nonnegative?, whole?, hasLeadingZero_of_ne_sign h, hplus]
  rfl

theorem nonnegative?_minus (cs : List Char) : nonnegative? ('-' :: cs) = none := by
  have hnatural : natural? 10 ('-' :: cs) = none := by
    cases hn : natural? 10 ('-' :: cs) with
    | none => rfl
    | some n =>
        have hrun := ((natural?_eq_some_iff (by decide)).1 hn).1
        exact absurd (hrun.2 '-' List.mem_cons_self) (by decide)
  have hmarked : marked? ('-' :: cs) = none := rfl
  simp [nonnegative?, hmarked, hnatural]

theorem nonnegative?_eq_some_iff {cs : List Char} {n : Nat} :
    nonnegative? cs = some n ↔ IsUnsigned cs n := by
  constructor
  · intro h
    cases cs with
    | nil => simp [nonnegative?, marked?, hasLeadingZero, natural?] at h
    | cons c cs =>
        cases hc : isSign c with
        | false =>
            rw [nonnegative?_of_ne_sign hc, whole?_eq_some_iff] at h
            exact .bare h
        | true =>
            rw [isSign, Bool.or_eq_true, beq_iff_eq, beq_iff_eq] at hc
            cases hc with
            | inl hplus =>
                subst hplus
                rw [nonnegative?_plus, whole?_eq_some_iff] at h
                exact .plus h
            | inr hminus =>
                subst hminus
                simp [nonnegative?_minus] at h
  · intro h
    cases h with
    | bare hwhole =>
        obtain ⟨c, more, rfl, hc⟩ := ne_sign_of_isWhole hwhole
        rw [nonnegative?_of_ne_sign hc, whole?_eq_some_iff]
        exact hwhole
    | plus hwhole =>
        rw [nonnegative?_plus, whole?_eq_some_iff]
        exact hwhole

theorem negative?_minus (cs : List Char) :
    negative? ('-' :: cs) = (whole? cs).map fun n : Nat => -(n : Int) := by
  have hhead : (('-' :: cs).head? == some '-') = true := by simp
  rw [negative?, whole?, hasLeadingZero_sign (by decide), hhead, if_pos rfl, List.drop_one,
    List.tail_cons]
  cases marked? cs with
  | some n => rfl
  | none => cases isPadded cs <;> rfl

theorem negative?_eq_some_iff {cs : List Char} {n : Int} :
    negative? cs = some n ↔ ∃ digits k, cs = '-' :: digits ∧ IsWhole digits k ∧ n = -(k : Int) := by
  constructor
  · intro h
    cases hhead : cs.head? == some '-' with
    | false => simp [negative?, hhead] at h
    | true =>
        obtain ⟨digits, rfl⟩ := List.head?_eq_some_iff.1 (beq_iff_eq.1 hhead)
        rw [negative?_minus, Option.map_eq_some_iff] at h
        obtain ⟨k, hk, rfl⟩ := h
        exact ⟨digits, k, rfl, whole?_eq_some_iff.1 hk, rfl⟩
  · intro h
    obtain ⟨digits, k, rfl, hwhole, rfl⟩ := h
    rw [negative?_minus, whole?_eq_some_iff.2 hwhole, Option.map_some]

theorem integer?_eq_some_iff {cs : List Char} {n : Int} :
    integer? cs = some n ↔ IsInteger cs n := by
  rw [integer?]
  constructor
  · intro h
    cases hk : nonnegative? cs with
    | some k =>
        obtain rfl : (k : Int) = n := by simpa [hk] using h
        exact .unsigned (nonnegative?_eq_some_iff.1 hk)
    | none =>
        rw [hk] at h
        obtain ⟨digits, k, rfl, hwhole, rfl⟩ := negative?_eq_some_iff.1 h
        exact .minus hwhole
  · intro h
    cases h with
    | unsigned hunsigned => rw [nonnegative?_eq_some_iff.2 hunsigned]
    | minus hwhole =>
        rw [nonnegative?_minus]
        exact negative?_eq_some_iff.2 ⟨_, _, rfl, hwhole, rfl⟩

end SyncPlan.Yaml
