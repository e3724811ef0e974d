import Mathlib.Data.List.TakeWhile
import SyncPlan.Proofs.Toml.Pairs

/-!
Integers on the lines of a TOML document. One of up to sixty-four bits is the value of its line. The
digits of any other are no float and no date either, and the document is malformed by its line,
wherever this stands.
-/

namespace SyncPlan.Toml
open Text

section Numerals

variable {n : Int}

theorem notMem_decimal {c : Char} (hminus : c ≠ '-') (hdigit : ¬IsDigit 10 c) :
    c ∉ decimal n := by
  intro hmem
  cases mem_decimal hmem with
  | inl heq => exact hminus heq
  | inr h => exact hdigit h

/-- A minus sign stands nowhere but in front. -/
theorem notMem_drop_decimal (k : Nat) : '-' ∉ (decimal n).drop (k + 1) := by
  have hdigits (m : Nat) : '-' ∉ digits m := fun hmem =>
    absurd ((isRun_digits m).2 '-' hmem) (by decide)
  cases decimal_cases n with
  | inl hnatural =>
      obtain ⟨m, -, hm⟩ := hnatural
      exact fun hmem => hdigits m (hm ▸ List.mem_of_mem_drop hmem)
  | inr hnegative =>
      obtain ⟨m, -, -, hm⟩ := hnegative
      rw [hm, List.drop_succ_cons]
      exact fun hmem => hdigits m (List.mem_of_mem_drop hmem)

theorem exists_splitSign_decimal (n : Int) :
    ∃ negative k, splitSign (decimal n) = (negative, digits k) := by
  cases decimal_cases n with
  | inl hnatural =>
      obtain ⟨k, -, hk⟩ := hnatural
      exact ⟨false, k, by rw [hk, splitSign_digits]⟩
  | inr hnegative =>
      obtain ⟨k, -, -, hk⟩ := hnegative
      exact ⟨true, k, by rw [hk, splitSign]⟩

/-- Digits alone have neither a fraction nor a power of ten. -/
theorem decimal?_decimal (n : Int) : decimal? (decimal n) = none := by
  obtain ⟨negative, k, hsplit⟩ := exists_splitSign_decimal n
  have hmark : ∀ c ∈ digits k, (!isPowerMark c) = true := by
    intro c hc
    have hdigit := isDigitIn_of_mem_digits hc
    simp [isPowerMark, ne_of_isDigitIn hdigit (show isDigitIn 10 'e' = false by decide),
      ne_of_isDigitIn hdigit (show isDigitIn 10 'E' = false by decide)]
  have hpoint : ∀ c ∈ digits k, (c != '.') = true := by
    intro c hc
    have hdigit := isDigitIn_of_mem_digits hc
    simpa using ne_of_isDigitIn hdigit (show isDigitIn 10 '.' = false by decide)
  simp [decimal?, hsplit, List.takeWhile_eq_self_iff.2 hmark, List.dropWhile_eq_nil_iff.2 hmark,
    List.takeWhile_eq_self_iff.2 hpoint, List.dropWhile_eq_nil_iff.2 hpoint]

theorem float?_decimal (n : Int) : float? (decimal n) = none := by
  obtain ⟨negative, k, hsplit⟩ := exists_splitSign_decimal n
  have hword : ∀ word : List Char, 'n' ∈ word → digits k ≠ word := by
    rintro word hmem rfl
    exact absurd (isDigitIn_of_mem_digits hmem) (by decide)
  rw [float?, hsplit]
  simp [hword _ (show 'n' ∈ ['i', 'n', 'f'] by decide),
    hword _ (show 'n' ∈ ['n', 'a', 'n'] by decide), decimal?_decimal]

theorem pass?_of_notMem {c : Char} {cs : List Char} (h : c ∉ cs) : pass? c cs = none := by
  cases cs with
  | nil => rfl
  | cons d cs =>
      have hne : (c == d) = false := beq_eq_false_iff_ne.2 fun heq => h (heq ▸ List.mem_cons_self)
      rw [pass?, hne]
      rfl

theorem rest_of_twoDigits? {low high m : Nat} {cs rest : List Char}
    (h : twoDigits? low high cs = some (m, rest)) : rest = cs.drop 2 := by
  cases cs with
  | nil => simp [twoDigits?] at h
  | cons a cs =>
      cases cs with
      | nil => simp [twoDigits?] at h
      | cons b cs =>
          simp only [twoDigits?, Option.bind_eq_bind, Option.bind_eq_some_iff,
            Option.ite_none_right_eq_some, Option.some.injEq, Prod.mk.injEq] at h
          obtain ⟨-, -, -, -, rfl⟩ := h
          rfl

theorem date?_decimal (n : Int) : date? (decimal n) = none := by
  have hpass : pass? '-' ((decimal n).drop 4) = none := pass?_of_notMem (notMem_drop_decimal 3)
  simp [date?, hpass]

theorem time?_decimal (n : Int) : time? (decimal n) = none := by
  rw [time?]
  cases hhour : twoDigits? 0 23 (decimal n) with
  | none => rfl
  | some read =>
      obtain ⟨hour, rest⟩ := read
      have hcolon : ':' ∉ decimal n := notMem_decimal (by decide) (by decide)
      have hpass : pass? ':' rest = none := by
        rw [rest_of_twoDigits? hhour]
        exact pass?_of_notMem fun hmem => hcolon (List.mem_of_mem_drop hmem)
      simp [hpass]

variable (h : inRange n = false)
include h

/-- Out of range there is no other reading of the digits. -/
theorem numeral?_excess {rest : List Char} (hrest : ∀ c ∈ rest.head?, isNumeralChar c = false) :
    numeral? (decimal n ++ rest) = none := by
  obtain ⟨htake, -⟩ := @takeWhile_numeral (decimal n) rest isNumeralChar_of_mem_decimal hrest
  have hinteger : integer? (decimal n) = none := by
    rw [integer?_decimal, Option.filter_some, if_neg (by simp [h])]
  have hword : ∀ word : List Char, 'e' ∈ word → decimal n ≠ word := by
    rintro word hmem rfl
    exact notMem_decimal (by decide) (by decide) hmem
  rw [numeral?, htake]
  simp [hword _ (show 'e' ∈ ['t', 'r', 'u', 'e'] by decide),
    hword _ (show 'e' ∈ ['f', 'a', 'l', 's', 'e'] by decide), hinteger, float?_decimal, isDatetime,
    date?_decimal, time?_decimal]

theorem value?_excess (depth : Nat) {rest : List Char}
    (hrest : ∀ c ∈ rest.head?, isNumeralChar c = false) :
    value? depth (decimal n ++ rest) = none := by
  have hnumeral := numeral?_excess h hrest
  have hfirst := @isNumeralChar_of_mem_decimal n
  obtain ⟨c, cs, hdecimal⟩ := List.exists_cons_of_ne_nil (decimal_ne_nil n)
  rw [hdecimal] at hnumeral hfirst ⊢
  exact (value?_numeral (hfirst c List.mem_cons_self)).trans hnumeral

end Numerals

section Lines

/-- A line with an integer, in or out of range. -/
def integerLine (key : List Char) (n : Int) : List Char :=
  key ++ [' ', '=', ' '] ++ decimal n ++ ['\n']

/-- The row of an integer in range. -/
def integerRow (f : Field) (n : Int) (h : inRange n = true) : Row where
  key := f.key.toList
  text := decimal n
  value := .integer n
  isBareKey := isBareKey_key f
  starts := exists_decimal_eq n
  reads rest := value?_decimal deepest h (notNumeral_newline rest)

theorem pair?_excess {key : List Char} (hkey : IsBareKey key) {n : Int} (h : inRange n = false)
    (rest : List Char) : pair? (value? deepest) (integerLine key n ++ rest) = none := by
  have hline : integerLine key n ++ rest =
      key ++ ' ' :: '=' :: ' ' :: (decimal n ++ '\n' :: rest) := by
    simp [integerLine]
  have hvalue : value? deepest (skipBlanks (' ' :: (decimal n ++ '\n' :: rest))) = none := by
    obtain ⟨c, cs, hcs, hc⟩ := exists_decimal_eq n
    rw [← value?_excess h deepest (notNumeral_newline rest), hcs]
    exact congrArg _ (@skipBlanks_append [' '] (by simp [isBlank]) _ hc _)
  rw [hline, pair?, key?_bare hkey]
  simp [hvalue]

theorem lines?_of_pair?_none {c : Char} {cs : List Char} (hc : isBareKeyChar c = true)
    (h : pair? (value? deepest) (c :: cs) = none) : lines? (c :: cs) = none := by
  rw [lines?, skipLines_cons (isVisible_of_isBareKeyChar hc)]
  split
  · next heq => simp at heq
  · next heq => exact absurd (List.cons.inj heq).1 (ne_of_isBareKeyChar hc (by decide))
  · next heq => exact absurd (List.cons.inj heq).1 (ne_of_isBareKeyChar hc (by decide))
  · simp [h]

/-- A document is malformed by one line with an integer out of range. -/
theorem ofToml_excess {key : List Char} (hkey : IsBareKey key) {n : Int} (h : inRange n = false)
    (rows : List Row) (rest : List Char) :
    Options.ofToml (rows.flatMap Row.line ++ (integerLine key n ++ rest)) = .error .malformed := by
  have hpair := pair?_excess hkey h rest
  obtain ⟨c, cs, rfl, hc⟩ := hkey.exists_cons
  have hfirst : (integerLine (c :: cs) n ++ rest).head? ≠ some '\ufeff' := by
    simpa [integerLine] using ne_of_isBareKeyChar hc (show isBareKeyChar '\ufeff' = false by decide)
  have hmark := beq_eq_false_iff_ne.2 (head?_rows_append rows hfirst)
  have hlines := lines?_rows_append rows (integerLine (c :: cs) n ++ rest)
  have hnone : lines? (integerLine (c :: cs) n ++ rest) = none := lines?_of_pair?_none hc hpair
  rw [hnone, Option.map_none] at hlines
  rw [Options.ofToml, read, hmark]
  simp [hlines]

end Lines

end SyncPlan.Toml
