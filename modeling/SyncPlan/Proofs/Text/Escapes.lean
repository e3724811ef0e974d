import SyncPlan.Text.Numeral

/-!
Texts between quotes, with a backslash before a quote or a backslash and with a code of four or
eight hexadecimal digits for every character that is no printable ASCII. What stands between the
quotes is printable ASCII, and each code has the value of its character.
-/

namespace SyncPlan.Text

/-- A hexadecimal digit, with capital letters or small ones. -/
def hexDigit (capital : Bool) (n : Nat) : Char :=
  if n < 10 then Char.ofNat ('0'.toNat + n)
  else Char.ofNat ((if capital then 'A' else 'a').toNat + (n - 10))

/-- The last so many hexadecimal digits of a number. -/
def hexDigits (capital : Bool) : Nat → Nat → List Char
  | 0, _ => []
  | width + 1, n => hexDigits capital width (n / 16) ++ [hexDigit capital (n % 16)]

def isPrintable (c : Char) : Bool := 0x20 ≤ c.toNat && c.toNat ≤ 0x7E

/-- A character of a line, or the end of one. -/
def IsLineChar (c : Char) : Prop := c = '\n' ∨ isPrintable c = true

/-- A character as it is written between quotes. -/
def escape (capital : Bool) (c : Char) : List Char :=
  if c = '"' ∨ c = '\\' then ['\\', c]
  else if isPrintable c then [c]
  else if c.toNat < 0x10000 then '\\' :: 'u' :: hexDigits capital 4 c.toNat
  else '\\' :: 'U' :: hexDigits capital 8 c.toNat

/-- A text with its characters escaped. -/
def escaped (capital : Bool) (cs : List Char) : List Char := cs.flatMap (escape capital)

/-- A text between quotes. -/
def between (capital : Bool) (s : String) : List Char := '"' :: escaped capital s.toList ++ ['"']

/-- The texts of a list between brackets. -/
def arrayText (capital : Bool) : List String → List Char
  | [] => ['[', ']']
  | v :: vs =>
    '[' :: between capital v ++ vs.flatMap (fun w => ',' :: ' ' :: between capital w) ++ [']']

variable {capital : Bool}

theorem digitIn_hexDigit {n : Nat} (h : n < 16) : digitIn 16 (hexDigit capital n) = some n := by
  have hall : ∀ k < 16, digitIn 16 (hexDigit capital k) = some k := by
    cases capital <;> decide
  exact hall n h

theorem isPrintable_hexDigit {n : Nat} (h : n < 16) : isPrintable (hexDigit capital n) = true := by
  have hall : ∀ k < 16, isPrintable (hexDigit capital k) = true := by
    cases capital <;> decide
  exact hall n h

theorem length_hexDigits (width n : Nat) : (hexDigits capital width n).length = width := by
  induction width generalizing n with
  | zero => rfl
  | succ width ih => rw [hexDigits, List.length_append, ih, List.length_singleton]

theorem mem_hexDigits {width n : Nat} {c : Char} (h : c ∈ hexDigits capital width n) :
    ∃ k < 16, c = hexDigit capital k := by
  induction width generalizing n with
  | zero => simp [hexDigits] at h
  | succ width ih =>
      cases List.mem_append.1 h with
      | inl hmem => exact ih hmem
      | inr hlast => exact ⟨n % 16, Nat.mod_lt n (by decide), List.mem_singleton.1 hlast⟩

theorem digitsValue_hexDigits {width n : Nat} (h : n < Nat.pow 16 width) :
    digitsValue 16 (hexDigits capital width n) = n := by
  induction width generalizing n with
  | zero =>
      obtain rfl : n = 0 := Nat.lt_one_iff.1 h
      rfl
  | succ width ih =>
      have hdiv : n / 16 < Nat.pow 16 width := Nat.div_lt_of_lt_mul (by rwa [Nat.mul_comm])
      have hlast : digitsValue 16 (hexDigits capital width (n / 16) ++
          [hexDigit capital (n % 16)]) =
            digitsValue 16 (hexDigits capital width (n / 16)) * 16 + n % 16 := by
        simp [digitsValue, digitIn_hexDigit (Nat.mod_lt n (by decide))]
      rw [hexDigits, hlast, ih hdiv]
      omega

/-- A code is read as the number that it is made of. -/
theorem natural?_hexDigits {width n : Nat} (hwidth : 0 < width) (h : n < Nat.pow 16 width) :
    natural? 16 (hexDigits capital width n) = some n := by
  have hne : (hexDigits capital width n).isEmpty = false := by
    rw [List.isEmpty_eq_false_iff_exists_mem, ← List.length_pos_iff_exists_mem, length_hexDigits]
    exact hwidth
  have hall : (hexDigits capital width n).all (isDigitIn 16) = true := by
    rw [List.all_eq_true]
    intro c hc
    obtain ⟨k, hk, rfl⟩ := mem_hexDigits hc
    rw [isDigitIn, digitIn_hexDigit hk, Option.isSome_some]
  rw [natural?, if_neg (by simp [hne, hall]), digitsValue_hexDigits h]

theorem toNat_lt_pow (c : Char) : c.toNat < Nat.pow 16 8 := by
  have hvalid := c.valid
  have hpow : Nat.pow 16 8 = 4294967296 := rfl
  have hval : c.val.toNat = c.toNat := rfl
  rw [UInt32.isValidChar, hval, Nat.isValidChar] at hvalid
  omega

/-- A character is escaped by a backslash, stands for itself, or is told by its code. -/
theorem escape_cases (capital : Bool) (c : Char) :
    (c = '"' ∨ c = '\\') ∧ escape capital c = ['\\', c] ∨
    (c ≠ '"' ∧ c ≠ '\\' ∧ isPrintable c = true ∧ escape capital c = [c]) ∨
    ∃ mark width, (mark = 'u' ∧ width = 4 ∨ mark = 'U' ∧ width = 8) ∧
      c.toNat < Nat.pow 16 width ∧
      escape capital c = '\\' :: mark :: hexDigits capital width c.toNat := by
  rw [escape]
  by_cases hspecial : c = '"' ∨ c = '\\'
  · rw [if_pos hspecial]
    exact .inl ⟨hspecial, rfl⟩
  · rw [if_neg hspecial]
    rw [not_or] at hspecial
    by_cases hprintable : isPrintable c = true
    · rw [if_pos hprintable]
      exact .inr (.inl ⟨hspecial.1, hspecial.2, hprintable, rfl⟩)
    · rw [if_neg hprintable]
      by_cases hshort : c.toNat < 0x10000
      · rw [if_pos hshort]
        exact .inr (.inr ⟨'u', 4, .inl ⟨rfl, rfl⟩, hshort, rfl⟩)
      · rw [if_neg hshort]
        exact .inr (.inr ⟨'U', 8, .inr ⟨rfl, rfl⟩, toNat_lt_pow c, rfl⟩)

/-- No character is written with a quote first. -/
theorem exists_escape_eq (capital : Bool) (c : Char) :
    ∃ d ds, escape capital c = d :: ds ∧ d ≠ '"' := by
  cases escape_cases capital c with
  | inl hspecial => exact ⟨'\\', [c], hspecial.2, by decide⟩
  | inr hother =>
      cases hother with
      | inl hself => exact ⟨c, [], hself.2.2.2, hself.1⟩
      | inr hcode =>
          obtain ⟨mark, width, -, -, heq⟩ := hcode
          exact ⟨'\\', _, heq, by decide⟩

theorem isPrintable_of_mem_escape {c d : Char} (h : d ∈ escape capital c) :
    isPrintable d = true := by
  cases escape_cases capital c with
  | inl hspecial =>
      rw [hspecial.2] at h
      rw [List.mem_cons, List.mem_singleton] at h
      rcases h with rfl | rfl
      · decide
      · rcases hspecial.1 with rfl | rfl <;> decide
  | inr hother =>
      cases hother with
      | inl hself =>
          obtain ⟨-, -, hprintable, heq⟩ := hself
          rw [heq, List.mem_singleton] at h
          exact h ▸ hprintable
      | inr hcode =>
          obtain ⟨mark, width, hmark, -, heq⟩ := hcode
          rw [heq, List.mem_cons, List.mem_cons] at h
          rcases h with rfl | rfl | hdigit
          · decide
          · rcases hmark with ⟨rfl, -⟩ | ⟨rfl, -⟩ <;> decide
          · obtain ⟨k, hk, rfl⟩ := mem_hexDigits hdigit
            exact isPrintable_hexDigit hk

theorem isPrintable_of_mem_between {s : String} {d : Char} (h : d ∈ between capital s) :
    isPrintable d = true := by
  rw [between, List.mem_append, List.mem_cons] at h
  rcases h with (rfl | hmem) | hlast
  · decide
  · obtain ⟨c, -, hd⟩ := List.mem_flatMap.1 hmem
    exact isPrintable_of_mem_escape hd
  · rw [List.mem_singleton.1 hlast]
    decide

theorem isPrintable_of_mem_arrayText {vs : List String} {c : Char} (h : c ∈ arrayText capital vs) :
    isPrintable c = true := by
  cases vs with
  | nil =>
      have hall : ∀ d ∈ ['[', ']'], isPrintable d = true := List.all_eq_true.1 (by decide)
      exact hall c h
  | cons v vs =>
      rw [arrayText, List.mem_append, List.mem_append, List.mem_cons, List.mem_flatMap] at h
      rcases h with ((rfl | hv) | ⟨w, -, hw⟩) | hlast
      · decide
      · exact isPrintable_of_mem_between hv
      · rw [List.mem_cons, List.mem_cons] at hw
        rcases hw with rfl | rfl | hmem
        · decide
        · decide
        · exact isPrintable_of_mem_between hmem
      · rw [List.mem_singleton.1 hlast]
        decide

theorem between_append (s : String) (rest : List Char) :
    between capital s ++ rest = '"' :: (escaped capital s.toList ++ '"' :: rest) := by
  simp [between]

theorem escaped_cons (c : Char) (cs : List Char) :
    escaped capital (c :: cs) = escape capital c ++ escaped capital cs := rfl

end SyncPlan.Text
