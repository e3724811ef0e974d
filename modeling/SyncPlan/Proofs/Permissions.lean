import SyncPlan.Proofs.Resolution

/-!
Permission bits by their spelling, and what is to blame where a text spells none. Digits are read
from the left, so that two positions compete: the first of a character that is no digit, and the
first at which the digits so far are worth too much. The one that comes first is blamed, and the
character if they are the same.
-/

namespace SyncPlan
namespace Text

/-- What stands behind a plus sign, or the text itself where it has none. -/
def behindPlus : List Char → List Char
  | '+' :: cs => cs
  | cs => cs

/-- The first position of a character that is no digit of a base. -/
def ForeignAt (base : Nat) (cs : List Char) (k : Nat) : Prop :=
  ∃ front c back, cs = front ++ c :: back ∧ front.length = k ∧
    (∀ d ∈ front, IsDigit base d) ∧ ¬IsDigit base c

/-- The first position at which the digits that a text begins with are worth a bound. -/
def ReachesAt (base bound : Nat) (cs : List Char) (p : Nat) : Prop :=
  ∃ front c back, cs = front ++ c :: back ∧ front.length = p ∧
    (∀ d ∈ front ++ [c], IsDigit base d) ∧ valueOf base front < bound ∧
    bound ≤ valueOf base (front ++ [c])

/-- What is to blame for characters that are no run of digits worth less than a bound. -/
inductive IsDigitFault (base bound : Nat) (cs : List Char) : NumeralFault → Prop
  | foreign {k : Nat} : ForeignAt base cs k → (∀ p, ReachesAt base bound cs p → k ≤ p) →
      IsDigitFault base bound cs .badDigit
  | excess {p : Nat} : ReachesAt base bound cs p → (∀ k, ForeignAt base cs k → p < k) →
      IsDigitFault base bound cs .tooLarge

/-- What is to blame for a text that spells no number below a bound. -/
inductive IsFault (base bound : Nat) (cs : List Char) : NumeralFault → Prop
  | empty : cs = [] → IsFault base bound cs .empty
  | signAlone : cs ≠ [] → behindPlus cs = [] → IsFault base bound cs .badDigit
  | digits {fault : NumeralFault} : IsDigitFault base bound (behindPlus cs) fault →
      IsFault base bound cs fault

section Positions

variable {base bound k p : Nat} {cs : List Char}

/-- Digits that are worth a bound have no other character among them. -/
theorem ReachesAt.lt_of_foreignAt (h : ReachesAt base bound cs p) (hk : ForeignAt base cs k) :
    p < k := by
  obtain ⟨front, c, back, rfl, rfl, hdigits, -⟩ := h
  obtain ⟨front', d, back', hcs, rfl, -, hd⟩ := hk
  by_contra hle
  have hinitial : front' ++ [d] <+: front ++ [c] := by
    have hbad : front' ++ [d] <+: front ++ c :: back := ⟨back', by simp [hcs]⟩
    have hgood : front ++ [c] <+: front ++ c :: back := ⟨back, by simp⟩
    refine List.prefix_of_prefix_length_le hbad hgood ?_
    rw [List.length_append, List.length_append, List.length_singleton, List.length_singleton]
    omega
  exact hd (hdigits d (hinitial.subset (by simp)))

/-- A text is a run of digits worth less than a bound, or it stops to be one at a character that is
no digit, or at one that takes the value to the bound. -/
theorem small_or_foreign_or_reachesAt (base : Nat) (hpos : 0 < bound) (cs : List Char) :
    ((∀ c ∈ cs, IsDigit base c) ∧ valueOf base cs < bound) ∨
      (∃ front c back, cs = front ++ c :: back ∧ (∀ d ∈ front, IsDigit base d) ∧
        ¬IsDigit base c ∧ valueOf base front < bound) ∨
      ∃ p, ReachesAt base bound cs p := by
  induction cs using List.reverseRecOn with
  | nil => exact .inl ⟨List.forall_mem_nil _, hpos⟩
  | append_singleton cs c ih =>
      obtain ⟨hdigits, hvalue⟩ | ⟨front, d, back, rfl, hforeign⟩ | ⟨p, hreaches⟩ := ih
      · by_cases hc : IsDigit base c
        · have hall : ∀ d ∈ cs ++ [c], IsDigit base d :=
            List.forall_mem_append.2 ⟨hdigits, List.forall_mem_singleton.2 hc⟩
          by_cases hreach : bound ≤ valueOf base (cs ++ [c])
          · exact .inr (.inr ⟨_, cs, c, [], rfl, rfl, hall, hvalue, hreach⟩)
          · exact .inl ⟨hall, Nat.lt_of_not_le hreach⟩
        · exact .inr (.inl ⟨cs, c, [], rfl, hdigits, hc, hvalue⟩)
      · exact .inr (.inl ⟨front, d, back ++ [c], by simp, hforeign⟩)
      · obtain ⟨front, d, back, rfl, hreach⟩ := hreaches
        exact .inr (.inr ⟨p, front, d, back ++ [c], by simp, hreach⟩)

end Positions

section Reading

variable {base limit : Nat} {excess : NumeralFault} {front digits rest cs : List Char} {c : Char}

/-- Reading goes on behind digits that do not pass the limit. -/
theorem readDigits_append (hb : base ≤ 10) (hdigits : ∀ d ∈ digits, IsDigit base d)
    (hle : valueOf base (front ++ digits) ≤ limit) :
    readDigits base limit excess (valueOf base front) (digits ++ rest) =
      readDigits base limit excess (valueOf base (front ++ digits)) rest := by
  induction digits generalizing front with
  | nil => rw [List.nil_append, List.append_nil]
  | cons d digits ih =>
      rw [List.forall_mem_cons] at hdigits
      have hpos : 0 < base := by
        have hdigit := hdigits.1
        simp only [IsDigit] at hdigit
        omega
      rw [← List.singleton_append, ← List.append_assoc] at hle
      have hfirst := (valueOf_le_append hpos (front ++ [d]) digits).trans hle
      rw [List.cons_append, readDigits, digitIn_of_isDigit hb hdigits.1]
      simp only [← valueOf_concat, if_pos hfirst]
      rw [ih hdigits.2 hle, List.append_assoc, List.singleton_append]

theorem readDigits_run (hb : base ≤ 10) (hdigits : ∀ d ∈ digits, IsDigit base d)
    (hle : valueOf base digits ≤ limit) :
    readDigits base limit excess 0 (digits ++ rest) =
      readDigits base limit excess (valueOf base digits) rest :=
  @readDigits_append base limit excess [] digits rest hb hdigits hle

theorem readDigits_of_foreign (hb : base ≤ 10) (hdigits : ∀ d ∈ digits, IsDigit base d)
    (hle : valueOf base digits ≤ limit) (hc : ¬IsDigit base c) :
    readDigits base limit excess 0 (digits ++ c :: rest) = .error .badDigit := by
  have hnone : digitIn base c = none := by
    rw [Option.eq_none_iff_forall_ne_some]
    exact fun d hd => hc ((digitIn_eq_some_iff hb).1 hd).1
  rw [readDigits_run hb hdigits hle, readDigits, hnone]

theorem readDigits_of_reachesAt (hb : base ≤ 10) {p : Nat}
    (h : ReachesAt base (limit + 1) cs p) : readDigits base limit excess 0 cs = .error excess := by
  obtain ⟨digits, c, rest, rfl, -, hdigits, hbelow, hreach⟩ := h
  obtain ⟨hfront, hc⟩ := List.forall_mem_append.1 hdigits
  rw [readDigits_run hb hfront (Nat.le_of_lt_succ hbelow), readDigits,
    digitIn_of_isDigit hb (List.forall_mem_singleton.1 hc)]
  simp only [← valueOf_concat, if_neg (Nat.not_le.2 hreach)]

/-- The reader of digits blames the position that comes first. -/
theorem readDigits_eq_error_iff (hb : base ≤ 10) {fault : NumeralFault} :
    readDigits base limit .tooLarge 0 cs = .error fault ↔
      IsDigitFault base (limit + 1) cs fault := by
  constructor
  · intro h
    obtain ⟨hdigits, hvalue⟩ | ⟨front, c, back, rfl, hdigits, hc, hvalue⟩ | ⟨p, hreaches⟩ :=
      small_or_foreign_or_reachesAt base (Nat.succ_pos limit) cs
    · have hok := @readDigits_run base limit .tooLarge cs [] hb hdigits (Nat.le_of_lt_succ hvalue)
      rw [List.append_nil, h] at hok
      simp [readDigits] at hok
    · rw [readDigits_of_foreign hb hdigits (Nat.le_of_lt_succ hvalue) hc] at h
      obtain rfl := Except.error.inj h
      refine .foreign ⟨front, c, back, rfl, rfl, hdigits, hc⟩ ?_
      -- Reading stops once only, and it has stopped at the character.
      intro p hp
      have hforeign := @readDigits_of_foreign base limit .tooLarge front back c hb hdigits
        (Nat.le_of_lt_succ hvalue) hc
      rw [readDigits_of_reachesAt hb hp] at hforeign
      simp at hforeign
    · rw [readDigits_of_reachesAt hb hreaches] at h
      obtain rfl := Except.error.inj h
      exact .excess hreaches fun k hk => hreaches.lt_of_foreignAt hk
  · intro h
    cases h with
    | foreign hk hfirst =>
        obtain ⟨hdigits, -⟩ | ⟨front, c, back, rfl, hdigits, hc, hvalue⟩ | ⟨p, hreaches⟩ :=
          small_or_foreign_or_reachesAt base (Nat.succ_pos limit) cs
        · obtain ⟨front, c, back, rfl, -, -, hc⟩ := hk
          exact absurd (hdigits c (by simp)) hc
        · exact readDigits_of_foreign hb hdigits (Nat.le_of_lt_succ hvalue) hc
        · exact absurd (hfirst p hreaches) (Nat.not_le.2 (hreaches.lt_of_foreignAt hk))
    | excess hp _ => exact readDigits_of_reachesAt hb hp

theorem readNatural_of_ne_nil (h : cs ≠ []) :
    readNatural base limit cs = readDigits1 base limit .tooLarge (behindPlus cs) := by
  rw [readNatural.eq_def, behindPlus.eq_def]
  split
  · exact absurd rfl h
  · rfl
  · next hplus => split <;> simp_all

/-- The reader of natural numbers fails just where its text spells none below the limit. -/
theorem readNatural_eq_error_iff (hb : base ≤ 10) {fault : NumeralFault} :
    readNatural base limit cs = .error fault ↔ IsFault base (limit + 1) cs fault := by
  constructor
  · intro h
    by_cases hnil : cs = []
    · subst hnil
      obtain rfl := Except.error.inj h
      exact .empty rfl
    · rw [readNatural_of_ne_nil hnil, readDigits1] at h
      split at h
      · next hempty =>
          obtain rfl := Except.error.inj h
          exact .signAlone hnil (List.isEmpty_iff.1 hempty)
      · exact .digits ((readDigits_eq_error_iff hb).1 h)
  · intro h
    cases h with
    | empty hnil =>
        subst hnil
        rfl
    | signAlone hne hnil =>
        rw [readNatural_of_ne_nil hne, hnil]
        rfl
    | digits hfault =>
        have hread := (readDigits_eq_error_iff hb).2 hfault
        have hbehind : behindPlus cs ≠ [] := by
          intro hnil
          rw [hnil] at hread
          simp [readDigits] at hread
        have hne : cs ≠ [] := by
          rintro rfl
          exact hbehind rfl
        rw [readNatural_of_ne_nil hne, readDigits1, if_neg (by simpa using hbehind), hread]

end Reading

end Text

open Text

theorem FileMode.read_eq_error_iff {s : String} {fault : NumeralFault} :
    FileMode.read s = .error fault ↔ IsFault 8 UInt32.size s.toList fault := by
  have hlimit : boundOfBits 32 - 1 + 1 = UInt32.size := by decide
  rw [← hlimit, ← readNatural_eq_error_iff (show 8 ≤ 10 by decide), FileMode.read]
  cases readNatural 8 (boundOfBits 32 - 1) s.toList <;> simp [Except.map]

theorem mode_eq_error_iff {option : ModeOption} {s : String} {r : Refusal} :
    readMode option s = .error r ↔
      ∃ fault, IsFault 8 UInt32.size s.toList fault ∧ r = .mode option s fault := by
  simp only [← FileMode.read_eq_error_iff]
  rw [readMode]
  cases FileMode.read s <;> simp [eq_comm]

/-- A text gives the permission bits that its octal digits are worth, behind a plus sign or not and
with any number of zeros before them, if they are worth no more than thirty-two bits. Every other
text is refused, with the option and the text as they are and one of three causes: the text is
empty, or a character that is no octal digit comes no later than the digit that takes the value past
the limit, or it comes later or not at all. -/
theorem readMode_by_positions (option : ModeOption) (s : String) :
    (∀ n : Nat, (∃ m, readMode option s = .ok m ∧ m.bits.toNat = n) ↔
      IsNatural 8 s.toList n ∧ n < UInt32.size) ∧
    (∀ r, readMode option s = .error r ↔ ∃ fault, IsFault 8 UInt32.size s.toList fault ∧
      r = .mode option s fault ∧
      (fault, r.cause) ∈ [(NumeralFault.empty, some "cannot parse integer from empty string"),
        (.badDigit, some "invalid digit found in string"),
        (.tooLarge, some "number too large to fit in target type")]) := by
  constructor
  · intro n
    simp only [mode_eq_ok_iff]
    constructor
    · intro h
      obtain ⟨m, hnatural, rfl⟩ := h
      exact ⟨hnatural, m.bits.toNat_lt⟩
    · intro h
      obtain ⟨hnatural, hlt⟩ := h
      obtain ⟨m, hm⟩ := (@exists_mode_iff (· = n)).2 ⟨n, rfl, hlt⟩
      exact ⟨m, hm ▸ hnatural, hm⟩
  · intro r
    rw [mode_eq_error_iff]
    constructor
    · intro h
      obtain ⟨fault, hfault, rfl⟩ := h
      refine ⟨fault, hfault, rfl, ?_⟩
      cases hfault with
      | empty _ | signAlone _ _ => simp [Refusal.cause, NumeralFault.message]
      | digits hdigits => cases hdigits <;> simp [Refusal.cause, NumeralFault.message]
    · intro h
      obtain ⟨fault, hfault, hr, -⟩ := h
      exact ⟨fault, hfault, hr⟩

example : ["400000000008", "40000000008", "00040000000", "+-1"].map (readMode .file) =
    [.error (.mode .file "400000000008" .tooLarge), .error (.mode .file "40000000008" .badDigit),
      .ok ⟨0o40000000⟩, .error (.mode .file "+-1" .badDigit)] := by decide

end SyncPlan
