import Mathlib.Data.List.TakeWhile
import SyncPlan.Proofs.Numerals
import SyncPlan.Vocabulary

/-!
The texts that are byte rates, and the rate of each. A text is a rate by its grammar alone: where
its white space, its digits and its unit stand, whatever the reader cuts off first.
-/

namespace SyncPlan.Rate
open Text

def IsBlank (cs : List Char) : Prop := ∀ c ∈ cs, isSpace c = true

/-- The letters of the units and how many bytes each of them counts. -/
def units : List (List Char × Nat) :=
  [([], 1), (['k'], 2 ^ 10), (['K'], 2 ^ 10), (['m'], 2 ^ 20), (['M'], 2 ^ 20), (['g'], 2 ^ 30),
    (['G'], 2 ^ 30)]

/-- White space alone is no rate at all; otherwise digits and a unit stand between white space. -/
def IsRate (cs : List Char) (n : Nat) : Prop :=
  IsBlank cs ∧ n = 0 ∨
    ∃ before digits between unit after count, cs = before ++ digits ++ between ++ unit ++ after ∧
      IsBlank before ∧ IsBlank between ∧ IsBlank after ∧ IsRun 10 digits ∧
      (unit, count) ∈ units ∧ n = valueOf 10 digits * count

section Trim

variable {cs blank : List Char}

theorem trim_append_left (h : IsBlank blank) : trim (blank ++ cs) = trim cs := by
  rw [trim, trim, trimBy, trimBy, List.dropWhile_append_of_pos h]

theorem trim_append_right (h : IsBlank blank) : trim (cs ++ blank) = trim cs := by
  rw [trim, trim, trimBy, trimBy, List.dropWhile_append]
  split
  · next hnil =>
      rw [List.dropWhile_eq_nil_iff.2 h, List.isEmpty_iff.1 hnil]
  · rw [List.reverse_append, List.dropWhile_append_of_pos]
    intro c hc
    exact h c (List.mem_reverse.1 hc)

theorem trim_eq_nil_iff : trim cs = [] ↔ IsBlank cs := by
  constructor
  · intro h
    have hdrop : cs.dropWhile isSpace = [] := by
      by_contra hne
      have hhead := List.head_dropWhile_not isSpace hne
      rw [trim, trimBy, List.reverse_eq_nil_iff, List.dropWhile_eq_nil_iff] at h
      rw [h _ (List.mem_reverse.2 (List.head_mem hne))] at hhead
      exact absurd hhead (by decide)
    exact List.dropWhile_eq_nil_iff.1 hdrop
  · intro h
    have hnil := @trim_append_left [] cs h
    rwa [List.append_nil] at hnil

theorem trim_of_ends (hfirst : ∀ c ∈ cs.head?, isSpace c = false)
    (hlast : ∀ c ∈ cs.getLast?, isSpace c = false) : trim cs = cs := by
  have hfront : cs.dropWhile isSpace = cs := by
    cases cs with
    | nil => rfl
    | cons c more => simp [hfirst c rfl]
  have hback : cs.reverse.dropWhile isSpace = cs.reverse := by
    rw [← List.head?_reverse] at hlast
    cases hreverse : cs.reverse with
    | nil => rfl
    | cons c more => simp [hlast c (hreverse ▸ rfl)]
  rw [trim, trimBy, hfront, hback, List.reverse_reverse]

theorem exists_blank_trim (cs : List Char) :
    ∃ before after, cs = before ++ trim cs ++ after ∧ IsBlank before ∧ IsBlank after := by
  have hfront := List.takeWhile_append_dropWhile (p := isSpace) (l := cs)
  have hback := List.takeWhile_append_dropWhile (p := isSpace) (l := (cs.dropWhile isSpace).reverse)
  refine ⟨cs.takeWhile isSpace, ((cs.dropWhile isSpace).reverse.takeWhile isSpace).reverse, ?_,
    fun c hc => List.mem_takeWhile_imp hc,
    fun c hc => List.mem_takeWhile_imp (List.mem_reverse.1 hc)⟩
  rw [trim, trimBy, List.append_assoc, ← List.reverse_append, hback, List.reverse_reverse, hfront]

end Trim

theorem unit?_eq_some_iff {unit : List Char} {count : Nat} :
    unit? unit = some count ↔ (unit, count) ∈ units := by
  constructor
  · intro h
    rw [unit?.eq_def] at h
    split at h <;> simp at h <;> subst h <;> decide
  · intro h
    have hall : ∀ u ∈ units, unit? u.1 = some u.2 := by decide
    exact hall _ h

theorem isSpace_of_isDigit {c : Char} (h : c.isDigit = true) : isSpace c = false := by
  rw [isDigit_iff] at h
  have h0 : '0'.toNat = 48 := rfl
  simp only [IsDigit, h0] at h
  simp only [isSpace, Bool.or_eq_false_iff, Bool.and_eq_false_iff, decide_eq_false_iff_not,
    beq_eq_false_iff_ne]
  omega

theorem unit_cases {unit : List Char} {count : Nat} (h : (unit, count) ∈ units) :
    unit = [] ∨ ∃ c, unit = [c] ∧ c.isDigit = false ∧ isSpace c = false := by
  have hall : ∀ u ∈ units, u.1 = [] ∨
      u.1 = [u.1.headD ' '] ∧ (u.1.headD ' ').isDigit = false ∧
        isSpace (u.1.headD ' ') = false := by decide
  cases hall _ h with
  | inl hnil => exact .inl hnil
  | inr hsingle => exact .inr ⟨_, hsingle⟩

/-- Digits and a unit with nothing around them, but perhaps white space between them. -/
structure IsCore (digits between unit : List Char) (count : Nat) : Prop where
  isRun : IsRun 10 digits
  isBlank : IsBlank between
  mem_units : (unit, count) ∈ units
  tight : unit = [] → between = []

section Core

variable {digits between unit : List Char} {count : Nat} (h : IsCore digits between unit count)
include h

theorem IsCore.isDigit : ∀ c ∈ digits, c.isDigit = true :=
  fun c hc => isDigit_iff.2 (h.isRun.2 c hc)

theorem IsCore.trim : trim (digits ++ between ++ unit) = digits ++ between ++ unit := by
  obtain ⟨d, more, hdigits⟩ := List.exists_cons_of_ne_nil h.isRun.1
  have hspace : ∀ c ∈ digits, isSpace c = false := fun c hc => isSpace_of_isDigit (h.isDigit c hc)
  apply trim_of_ends
  · intro c hc
    rw [hdigits, List.cons_append, List.cons_append, List.head?_cons] at hc
    obtain rfl := Option.some.inj hc
    exact hspace _ (hdigits ▸ List.mem_cons_self)
  · intro c hc
    cases unit_cases h.mem_units with
    | inl hnil =>
        rw [hnil, h.tight hnil, List.append_nil, List.append_nil] at hc
        exact hspace c (List.mem_of_mem_getLast? hc)
    | inr hletter =>
        obtain ⟨d, hunit, -, hd⟩ := hletter
        rw [hunit, List.getLast?_concat] at hc
        obtain rfl := Option.some.inj hc
        exact hd

theorem IsCore.dropWhile_isDigit :
    (digits ++ between ++ unit).takeWhile Char.isDigit = digits ∧
      (digits ++ between ++ unit).dropWhile Char.isDigit = between ++ unit := by
  have hrest : ∀ c more, between ++ unit = c :: more → c.isDigit = false := by
    intro c more hcons
    cases hbetween : between with
    | nil =>
        cases unit_cases h.mem_units with
        | inl hnil => simp [hbetween, hnil] at hcons
        | inr hletter =>
            obtain ⟨d, hunit, hd, -⟩ := hletter
            rw [hbetween, hunit, List.nil_append] at hcons
            exact (List.cons.inj hcons).1 ▸ hd
    | cons b rest =>
        rw [hbetween, List.cons_append] at hcons
        have hb : isSpace b = true := h.isBlank b (hbetween ▸ List.mem_cons_self)
        by_contra hdigit
        rw [← (List.cons.inj hcons).1] at hdigit
        simp [isSpace_of_isDigit (Bool.of_not_eq_false hdigit)] at hb
  rw [List.append_assoc, List.takeWhile_append_of_pos h.isDigit,
    List.dropWhile_append_of_pos h.isDigit]
  cases hcons : between ++ unit with
  | nil => simp
  | cons c more => simp [hrest c more hcons]

theorem IsCore.dropWhile_isSpace : (between ++ unit).dropWhile isSpace = unit := by
  rw [List.dropWhile_append_of_pos h.isBlank]
  cases unit_cases h.mem_units with
  | inl hnil => simp [hnil]
  | inr hletter =>
      obtain ⟨d, hunit, -, hd⟩ := hletter
      simp [hunit, hd]

theorem IsCore.readChars {cs : List Char} (hcs : Text.trim cs = digits ++ between ++ unit) :
    readChars cs = if valueOf 10 digits * count < boundOfBits 64 then
      some (valueOf 10 digits * count) else none := by
  have hne : (digits ++ between ++ unit).isEmpty = false := by simp [h.isRun.1]
  have hnatural : natural? 10 digits = some (valueOf 10 digits) :=
    (natural?_eq_some_iff (by decide)).2 ⟨h.isRun, rfl⟩
  rw [Rate.readChars, hcs]
  simp only [hne, Bool.false_eq_true, if_false, h.dropWhile_isDigit.1, h.dropWhile_isDigit.2,
    h.dropWhile_isSpace, unit?_eq_some_iff.2 h.mem_units, hnatural, Option.bind_eq_bind,
    Option.bind_some]

end Core

theorem exists_core {cs before digits between unit after : List Char} {count : Nat}
    (hcs : cs = before ++ digits ++ between ++ unit ++ after) (hbefore : IsBlank before)
    (hbetween : IsBlank between) (hafter : IsBlank after) (hdigits : IsRun 10 digits)
    (hunit : (unit, count) ∈ units) :
    ∃ between', IsCore digits between' unit count ∧ trim cs = digits ++ between' ++ unit := by
  by_cases hnil : unit = []
  · have hcore : IsCore digits [] unit count := ⟨hdigits, by simp [IsBlank], hunit, fun _ => rfl⟩
    have hback : IsBlank (between ++ after) := by
      intro c hc
      cases List.mem_append.1 hc with
      | inl hc => exact hbetween c hc
      | inr hc => exact hafter c hc
    have hparts : cs = before ++ (digits ++ [] ++ unit ++ (between ++ after)) := by
      simp [hcs, hnil]
    refine ⟨[], hcore, ?_⟩
    rw [hparts, trim_append_left hbefore, trim_append_right hback, hcore.trim]
  · have hcore : IsCore digits between unit count :=
      ⟨hdigits, hbetween, hunit, fun h => absurd h hnil⟩
    have hparts : cs = before ++ (digits ++ between ++ unit ++ after) := by simp [hcs]
    refine ⟨between, hcore, ?_⟩
    rw [hparts, trim_append_left hbefore, trim_append_right hafter, hcore.trim]

/-- Trimming leaves what reads as a rate only where the text is one by the grammar. -/
theorem isRate_of_readChars {cs : List Char} {n : Nat} (h : readChars cs = some n) :
    IsRate cs n ∧ n < boundOfBits 64 := by
  rw [readChars] at h
  split at h
  · next hnil =>
      obtain rfl := Option.some.inj h
      exact ⟨.inl ⟨trim_eq_nil_iff.1 (List.isEmpty_iff.1 hnil), rfl⟩, by decide⟩
  · simp only [Option.bind_eq_bind, Option.bind_eq_some_iff] at h
    obtain ⟨count, hunit, m, hnatural, hlt⟩ := h
    simp only [Option.ite_none_right_eq_some, Option.some.injEq] at hlt
    obtain ⟨hlt, rfl⟩ := hlt
    obtain ⟨hrun, rfl⟩ := (natural?_eq_some_iff (by decide)).1 hnatural
    obtain ⟨before, after, hcs, hbefore, hafter⟩ := exists_blank_trim cs
    refine ⟨.inr ⟨before, (trim cs).takeWhile Char.isDigit,
      ((trim cs).dropWhile Char.isDigit).takeWhile isSpace,
      ((trim cs).dropWhile Char.isDigit).dropWhile isSpace, after, count, ?_, hbefore,
      fun c hc => List.mem_takeWhile_imp hc, hafter, hrun, unit?_eq_some_iff.1 hunit, rfl⟩, hlt⟩
    rw [List.append_assoc (before ++ _), List.takeWhile_append_dropWhile, List.append_assoc before,
      List.takeWhile_append_dropWhile]
    exact hcs

theorem readChars_eq_some_iff {cs : List Char} {n : Nat} :
    readChars cs = some n ↔ IsRate cs n ∧ n < boundOfBits 64 := by
  constructor
  · exact isRate_of_readChars
  · intro h
    obtain ⟨hrate, hlt⟩ := h
    cases hrate with
    | inl hblank =>
        obtain ⟨hblank, rfl⟩ := hblank
        simp [readChars, trim_eq_nil_iff.2 hblank]
    | inr hparts =>
        obtain ⟨before, digits, between, unit, after, count, hcs, hbefore, hbetween, hafter,
          hdigits, hunit, rfl⟩ := hparts
        obtain ⟨between', hcore, htrim⟩ :=
          exists_core hcs hbefore hbetween hafter hdigits hunit
        rw [hcore.readChars htrim, if_pos hlt]

/-- The rates are what the grammar tells, in the range of a rate. -/
theorem read_eq_some_iff {s : String} {k : UInt64} : read s = some k ↔ IsRate s.toList k.toNat := by
  have hlt : k.toNat < boundOfBits 64 := k.toNat_lt
  rw [read, Option.map_eq_some_iff]
  simp only [readChars_eq_some_iff]
  constructor
  · intro h
    obtain ⟨n, ⟨hrate, hn⟩, rfl⟩ := h
    have hrange : n < 2 ^ 64 := hn
    rwa [UInt64.toNat_ofNat', Nat.mod_eq_of_lt hrange]
  · intro h
    exact ⟨k.toNat, ⟨h, hlt⟩, UInt64.ofNat_toNat⟩

/-- The grammar by what trimming leaves of a text: nothing, or digits and a unit. -/
theorem IsRate.trim_cases {cs : List Char} {n : Nat} (h : IsRate cs n) :
    trim cs = [] ∧ n = 0 ∨ ∃ digits between unit count, IsCore digits between unit count ∧
      trim cs = digits ++ between ++ unit ∧ n = valueOf 10 digits * count := by
  cases h with
  | inl hblank => exact .inl ⟨trim_eq_nil_iff.2 hblank.1, hblank.2⟩
  | inr hparts =>
      obtain ⟨before, digits, between, unit, after, count, hcs, hbefore, hbetween, hafter,
        hdigits, hunit, hn⟩ := hparts
      obtain ⟨between', hcore, htrim⟩ := exists_core hcs hbefore hbetween hafter hdigits hunit
      exact .inr ⟨digits, between', unit, count, hcore, htrim, hn⟩

/-- The digits and the unit of a text are found in one way only. -/
theorem IsCore.unique {digits between unit digits' between' unit' : List Char} {count count' : Nat}
    (h : IsCore digits between unit count) (h' : IsCore digits' between' unit' count')
    (heq : digits ++ between ++ unit = digits' ++ between' ++ unit') :
    digits = digits' ∧ count = count' := by
  have hdigits : digits = digits' := by
    rw [← h.dropWhile_isDigit.1, heq, h'.dropWhile_isDigit.1]
  have hrest : between ++ unit = between' ++ unit' := by
    rw [← h.dropWhile_isDigit.2, heq, h'.dropWhile_isDigit.2]
  have hunit : unit = unit' := by
    rw [← h.dropWhile_isSpace, hrest, h'.dropWhile_isSpace]
  have hcount := unit?_eq_some_iff.2 h.mem_units
  rw [hunit, unit?_eq_some_iff.2 h'.mem_units] at hcount
  exact ⟨hdigits, (Option.some.inj hcount).symm⟩

/-- The grammar gives a text one rate at most, also past the limit. -/
theorem IsRate.unique {cs : List Char} {n m : Nat} (h : IsRate cs n) (h' : IsRate cs m) :
    n = m := by
  -- Both readings trim the same text, which is blank in both or has a core in both.
  obtain ⟨hnil, rfl⟩ | ⟨digits, between, unit, count, hcore, htrim, rfl⟩ := h.trim_cases
  · obtain ⟨-, rfl⟩ | ⟨digits, between, unit, count, hcore, htrim, -⟩ := h'.trim_cases
    · rfl
    · rw [hnil] at htrim
      exact absurd htrim.symm (by simp [hcore.isRun.1])
  · obtain ⟨hnil, -⟩ | ⟨digits', between', unit', count', hcore', htrim', rfl⟩ := h'.trim_cases
    · rw [hnil] at htrim
      exact absurd htrim.symm (by simp [hcore.isRun.1])
    · obtain ⟨hdigits, hcount⟩ := hcore.unique hcore' (htrim.symm.trans htrim')
      rw [hdigits, hcount]

/-- The letters that stand for a unit. -/
def isUnitLetter (c : Char) : Bool := ['k', 'K', 'm', 'M', 'g', 'G'].contains c

theorem isUnitLetter_eq_false {c : Char} (h : isSpace c = true ∨ IsDigit 10 c) :
    isUnitLetter c = false := by
  rw [Bool.eq_false_iff]
  intro hletter
  simp only [isUnitLetter, List.contains_iff_mem, List.mem_cons, List.not_mem_nil,
    or_false] at hletter
  rcases hletter with rfl | rfl | rfl | rfl | rfl | rfl <;> simp [isSpace, IsDigit] at h

theorem countP_isUnitLetter {cs : List Char} (h : ∀ c ∈ cs, isSpace c = true ∨ IsDigit 10 c) :
    cs.countP isUnitLetter = 0 := by
  rw [List.countP_eq_zero]
  intro c hc
  simp [isUnitLetter_eq_false (h c hc)]

theorem isUnitLetter_units {unit : List Char} {count : Nat} (h : (unit, count) ∈ units) :
    (∀ c ∈ unit, isUnitLetter c = true) ∧ unit.countP isUnitLetter ≤ 1 := by
  simp only [units, List.mem_cons, Prod.mk.injEq, List.not_mem_nil, or_false] at h
  rcases h with ⟨rfl, -⟩ | ⟨rfl, -⟩ | ⟨rfl, -⟩ | ⟨rfl, -⟩ | ⟨rfl, -⟩ | ⟨rfl, -⟩ | ⟨rfl, -⟩ <;>
    simp [isUnitLetter]

/-- The characters of a rate, of which one at most is a unit. -/
theorem IsRate.chars {cs : List Char} {n : Nat} (h : IsRate cs n) :
    (∀ c ∈ cs, isSpace c = true ∨ IsDigit 10 c ∨ isUnitLetter c = true) ∧
      cs.countP isUnitLetter ≤ 1 := by
  cases h with
  | inl hblank =>
      refine ⟨fun c hc => .inl (hblank.1 c hc), ?_⟩
      rw [countP_isUnitLetter fun c hc => .inl (hblank.1 c hc)]
      exact Nat.zero_le 1
  | inr hparts =>
      obtain ⟨before, digits, between, unit, after, count, rfl, hbefore, hbetween, hafter,
        hdigits, hunit, -⟩ := hparts
      obtain ⟨hletters, hone⟩ := isUnitLetter_units hunit
      constructor
      · intro c hc
        simp only [List.mem_append] at hc
        rcases hc with (((hc | hc) | hc) | hc) | hc
        · exact .inl (hbefore c hc)
        · exact .inr (.inl (hdigits.2 c hc))
        · exact .inl (hbetween c hc)
        · exact .inr (.inr (hletters c hc))
        · exact .inl (hafter c hc)
      · have hspaces {blank : List Char} (h : IsBlank blank) : blank.countP isUnitLetter = 0 :=
          countP_isUnitLetter fun c hc => .inl (h c hc)
        have hrun : digits.countP isUnitLetter = 0 :=
          countP_isUnitLetter fun c hc => .inr (hdigits.2 c hc)
        simp only [List.countP_append, hspaces hbefore, hspaces hbetween, hspaces hafter, hrun]
        omega

theorem map_read_eq_some_iff {s : String} {n : Nat} :
    (read s).map UInt64.toNat = some n ↔ IsRate s.toList n ∧ n < UInt64.size := by
  rw [Option.map_eq_some_iff]
  simp only [read_eq_some_iff]
  constructor
  · intro h
    obtain ⟨k, hrate, rfl⟩ := h
    exact ⟨hrate, k.toNat_lt⟩
  · intro h
    obtain ⟨hrate, hlt⟩ := h
    have htoNat : (UInt64.ofNat n).toNat = n := UInt64.toNat_ofNat_of_lt' hlt
    exact ⟨UInt64.ofNat n, htoNat.symm ▸ hrate, htoNat⟩

theorem read_eq_none_of {s : String} (h : ∀ n, IsRate s.toList n → UInt64.size ≤ n) :
    read s = none := by
  cases hread : read s with
  | none => rfl
  | some k =>
      have hle := h k.toNat (read_eq_some_iff.1 hread)
      exact absurd k.toNat_lt (Nat.not_lt.2 hle)

/-- A text is read as a rate exactly where the grammar tells one below the limit, and as this one.
All other texts are refused: where the rate passes the limit, where a character is neither white
space nor a digit nor a unit, and where there are two units. -/
theorem read_by_grammar (s : String) :
    (∀ n : Nat, (read s).map UInt64.toNat = some n ↔ IsRate s.toList n ∧ n < UInt64.size) ∧
    (∀ n, IsRate s.toList n → UInt64.size ≤ n → read s = none) ∧
    (∀ c ∈ s.toList, isSpace c = false → ¬IsDigit 10 c → isUnitLetter c = false → read s = none) ∧
    (1 < s.toList.countP isUnitLetter → read s = none) := by
  refine ⟨fun n => map_read_eq_some_iff, ?_, ?_, ?_⟩
  · intro n hrate hlarge
    apply read_eq_none_of
    exact fun m hm => hm.unique hrate ▸ hlarge
  · intro c hc hspace hdigit hletter
    apply read_eq_none_of
    intro n hrate
    obtain hs | hd | hl := hrate.chars.1 c hc
    · rw [hspace] at hs
      simp at hs
    · exact absurd hd hdigit
    · rw [hletter] at hl
      simp at hl
  · intro hunits
    apply read_eq_none_of
    intro n hrate
    exact absurd hrate.chars.2 (Nat.not_le.2 hunits)

example : read "\u3000 0010\tk\u0085" = some 10240 := by decide

end SyncPlan.Rate
