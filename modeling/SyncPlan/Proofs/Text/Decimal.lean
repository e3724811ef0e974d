import SyncPlan.Proofs.Numerals
import SyncPlan.Proofs.Text.Escapes

/-!
Integers written in base ten: the fewest digits, and a minus sign before those of a negative one.
Their digits have the value of the number, and none but zero itself begins with a zero.
-/

namespace SyncPlan.Text

/-- An integer in base ten. -/
def decimal (n : Int) : List Char := (toString n).toList

/-- The digits of a natural number in base ten. -/
def digits (n : Nat) : List Char := Nat.toDigits 10 n

theorem toList_repr (n : Nat) : n.repr.toList = digits n := by
  rw [Nat.repr_eq_ofList_toDigits, String.toList_ofList, digits]

theorem decimal_natCast (n : Nat) : decimal n = digits n := toList_repr n

theorem decimal_neg {n : Nat} (h : 0 < n) : decimal (-(n : Int)) = '-' :: digits n := by
  cases n with
  | zero => simp at h
  | succ k =>
      rw [← toList_repr]
      exact String.toList_append

theorem decimal_cases (n : Int) : (∃ k : Nat, n = k ∧ decimal n = digits k) ∨
    ∃ k : Nat, 0 < k ∧ n = -(k : Int) ∧ decimal n = '-' :: digits k := by
  by_cases h : 0 ≤ n
  · obtain ⟨k, rfl⟩ := Int.eq_ofNat_of_zero_le h
    exact .inl ⟨k, rfl, decimal_natCast k⟩
  · obtain ⟨k, hk⟩ := Int.eq_ofNat_of_zero_le (show 0 ≤ -n by omega)
    obtain rfl : n = -(k : Int) := by omega
    have hpos : 0 < k := by omega
    exact .inr ⟨k, hpos, rfl, decimal_neg hpos⟩

theorem digits_of_lt {n : Nat} (h : n < 10) : digits n = [n.digitChar] :=
  Nat.toDigits_of_lt_base h

theorem digits_of_le {n : Nat} (h : 10 ≤ n) :
    digits n = digits (n / 10) ++ [(n % 10).digitChar] :=
  Nat.toDigits_of_base_le (by decide) h

theorem isRun_digits (n : Nat) : IsRun 10 (digits n) :=
  ⟨Nat.toDigits_ne_nil, fun _ hc =>
    isDigit_iff.1 (Nat.isDigit_of_mem_toDigits (by decide) (by decide) hc)⟩

theorem mem_decimal {n : Int} {c : Char} (h : c ∈ decimal n) : c = '-' ∨ IsDigit 10 c := by
  cases decimal_cases n with
  | inl hnatural =>
      obtain ⟨k, -, hk⟩ := hnatural
      exact .inr ((isRun_digits k).2 c (hk ▸ h))
  | inr hnegative =>
      obtain ⟨k, -, -, hk⟩ := hnegative
      rw [hk, List.mem_cons] at h
      exact h.imp id fun hmem => (isRun_digits k).2 c hmem

theorem decimal_ne_nil (n : Int) : decimal n ≠ [] := by
  cases decimal_cases n with
  | inl hnatural =>
      obtain ⟨k, -, hk⟩ := hnatural
      exact hk ▸ (isRun_digits k).1
  | inr hnegative =>
      obtain ⟨k, -, -, hk⟩ := hnegative
      exact hk ▸ List.cons_ne_nil _ _

theorem toNat_digitChar {n : Nat} (h : n < 10) : n.digitChar.toNat - '0'.toNat = n := by
  have hall : ∀ k < 10, k.digitChar.toNat - '0'.toNat = k := by decide
  exact hall n h

/-- The digits in a base up to ten are those of the base, and have the value of the number. -/
theorem isDigit_and_valueOf_toDigits {base : Nat} (hone : 1 < base) (hten : base ≤ 10) (n : Nat) :
    (∀ c ∈ Nat.toDigits base n, IsDigit base c) ∧ valueOf base (Nat.toDigits base n) = n := by
  have hdigit : ∀ k < 10, '0'.toNat ≤ k.digitChar.toNat := by decide
  have hlast (k : Nat) (hk : k < base) : IsDigit base k.digitChar := by
    have hvalue := toNat_digitChar (Nat.lt_of_lt_of_le hk hten)
    have hlow := hdigit k (Nat.lt_of_lt_of_le hk hten)
    exact ⟨hlow, by omega⟩
  induction n using Nat.strongRecOn with
  | ind n ih =>
      by_cases h : n < base
      · rw [Nat.toDigits_of_lt_base h]
        refine ⟨by simpa using hlast n h, ?_⟩
        rw [← List.nil_append [_], valueOf_concat, toNat_digitChar (Nat.lt_of_lt_of_le h hten)]
        simp [valueOf]
      · have hpos : 0 < n := by omega
        have hmod := Nat.mod_lt n (show 0 < base by omega)
        obtain ⟨hall, hvalue⟩ := ih (n / base) (Nat.div_lt_self hpos hone)
        rw [Nat.toDigits_of_base_le hone (Nat.le_of_not_lt h)]
        refine ⟨?_, ?_⟩
        · intro c hc
          cases List.mem_append.1 hc with
          | inl hfront => exact hall c hfront
          | inr hback => exact List.mem_singleton.1 hback ▸ hlast _ hmod
        · rw [valueOf_concat, hvalue, toNat_digitChar (Nat.lt_of_lt_of_le hmod hten),
            Nat.mul_comm, Nat.div_add_mod]

theorem valueOf_digits (n : Nat) : valueOf 10 (digits n) = n :=
  (isDigit_and_valueOf_toDigits (by decide) (by decide) n).2

theorem isInteger_decimal (n : Int) : IsInteger 10 (decimal n) n := by
  cases decimal_cases n with
  | inl hnatural =>
      obtain ⟨k, rfl, hk⟩ := hnatural
      exact hk ▸ .inl ⟨k, ⟨digits k, .inl rfl, isRun_digits k, valueOf_digits k⟩, rfl⟩
  | inr hnegative =>
      obtain ⟨k, -, rfl, hk⟩ := hnegative
      exact hk ▸ .inr ⟨digits k, rfl, isRun_digits k, by rw [valueOf_digits]⟩

theorem valueOf_zeros (base k : Nat) (cs : List Char) :
    valueOf base (List.replicate k '0' ++ cs) = valueOf base cs := by
  rw [valueOf, valueOf, List.reverse_append, List.reverse_replicate, List.map_append,
    List.map_replicate]
  exact Nat.ofDigits_append_replicate_zero _

/-- Only zero begins with the digit zero. -/
theorem head?_digits {n : Nat} (h : 0 < n) : (digits n).head? ≠ some '0' := by
  induction n using Nat.strongRecOn with
  | ind n ih =>
      by_cases hlt : n < 10
      · rw [digits_of_lt hlt]
        have hall : ∀ k < 10, 0 < k → [k.digitChar].head? ≠ some '0' := by decide
        exact hall n hlt h
      · obtain ⟨c, cs, hcs⟩ := List.exists_cons_of_ne_nil (isRun_digits (n / 10)).1
        have hhead := ih (n / 10) (by omega) (by omega)
        rw [digits_of_le (by omega), hcs]
        rwa [hcs] at hhead

theorem isDigitIn_of_mem_digits {n : Nat} {c : Char} (h : c ∈ digits n) : isDigitIn 10 c = true :=
  (isDigitIn_iff (by decide)).2 ((isRun_digits n).2 c h)

theorem digitsValue_digits (n : Nat) : digitsValue 10 (digits n) = n := by
  rw [digitsValue_eq_valueOf (by decide) (isRun_digits n).2, valueOf_digits]

/-- Zero is a digit of its own, and every other number begins with another one. -/
theorem digits_cases (n : Nat) : digits n = ['0'] ∨
    ∃ c cs, digits n = c :: cs ∧ c ≠ '0' ∧ isDigitIn 10 c = true := by
  cases n with
  | zero => exact .inl rfl
  | succ k =>
      obtain ⟨c, cs, hcs⟩ := List.exists_cons_of_ne_nil (isRun_digits (k + 1)).1
      have hne := head?_digits (Nat.succ_pos k)
      rw [hcs] at hne
      exact .inr ⟨c, cs, hcs, fun heq => hne (heq ▸ rfl),
        isDigitIn_of_mem_digits (hcs ▸ List.mem_cons_self)⟩

theorem ne_of_isDigitIn {c d : Char} (h : isDigitIn 10 c = true) (hd : isDigitIn 10 d = false) :
    c ≠ d := by
  intro heq
  rw [heq, hd] at h
  simp at h

theorem isPrintable_of_isDigit {c : Char} (h : IsDigit 10 c) : isPrintable c = true := by
  have h0 : '0'.toNat = 48 := rfl
  simp only [IsDigit, h0] at h
  simp only [isPrintable, Bool.and_eq_true, decide_eq_true_eq]
  omega

theorem isAlphanum_iff {c : Char} :
    c.isAlphanum = true ↔ c.isUpper = true ∨ c.isLower = true ∨ c.isDigit = true := by
  change (c.isUpper || c.isLower || c.isDigit) = true ↔ _
  rw [Bool.or_eq_true, Bool.or_eq_true, or_assoc]

theorem isPrintable_of_isAlphanum {c : Char} (h : c.isAlphanum = true) : isPrintable c = true := by
  simp only [isPrintable, Bool.and_eq_true, decide_eq_true_eq]
  rcases isAlphanum_iff.1 h with hupper | hlower | hdigit
  · have hbounds : 'A'.val ≤ c.val ∧ c.val ≤ 'Z'.val := of_decide_eq_true hupper
    have hlow : 65 ≤ c.toNat := UInt32.le_iff_toNat_le.1 hbounds.1
    have hhigh : c.toNat ≤ 90 := UInt32.le_iff_toNat_le.1 hbounds.2
    omega
  · have hbounds := Bool.and_eq_true_iff.1 hlower
    have hlow : 97 ≤ c.toNat := UInt32.le_iff_toNat_le.1 (of_decide_eq_true hbounds.1)
    have hhigh : c.toNat ≤ 122 := UInt32.le_iff_toNat_le.1 (of_decide_eq_true hbounds.2)
    omega
  · simpa [isPrintable] using isPrintable_of_isDigit (isDigit_iff.1 hdigit)

end SyncPlan.Text
