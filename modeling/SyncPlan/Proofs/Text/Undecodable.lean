import SyncPlan.Proofs.Text.Utf8

/-!
Octets that are no text. As many characters as can be read stand at their front, and then there is
none any more. What is left may be the beginning of a character, at which the octets end; otherwise
a fault tells how many of its octets could have begun one.
-/

namespace SyncPlan.Text

/-- Octets with which the sequence of a character begins, but not all of it. -/
def Begins (octets : List UInt8) : Prop :=
  octets ≠ [] ∧ ∃ (c : Char) (more : List UInt8), more ≠ [] ∧
    String.utf8EncodeChar c = octets ++ more

/-- Octets at the front of which there is no character. -/
def IsStuck (octets : List UInt8) : Prop :=
  octets ≠ [] ∧ ∀ (c : Char) (more : List UInt8), octets ≠ String.utf8EncodeChar c ++ more

/-- How many octets begin a character and not all of it; the first one counts also where it begins
none. -/
def IsWidth (octets : List UInt8) (width : Nat) : Prop :=
  0 < width ∧ (width = 1 ∨ Begins (octets.take width)) ∧ ¬Begins (octets.take (width + 1))

/-- Where octets stop being a text, and how far they go on. -/
inductive IsUtf8Fault (octets : List UInt8) : Utf8Fault → Prop
  | incomplete {cs : List Char} {rest : List UInt8} : octets = utf8 cs ++ rest → Begins rest →
      IsUtf8Fault octets (.incomplete (utf8 cs).length)
  | invalid {cs : List Char} {rest : List UInt8} {width : Nat} : octets = utf8 cs ++ rest →
      IsStuck rest → IsWidth rest width →
      IsUtf8Fault octets (.invalid width (utf8 cs).length)

theorem IsSequence.exists_char {octets : List UInt8} {n : Nat} (h : IsSequence octets n) :
    ∃ c, String.utf8EncodeChar c = octets := by
  have hn : (Char.ofNat n).toNat = n := toNat_ofNat_of_isValidChar h.isValidChar
  exact ⟨Char.ofNat n, IsSequence.encode_eq (hn.symm ▸ h)⟩

section Begins

variable {a b c d : UInt8} {octets front : List UInt8}

theorem Begins.of_prefix (h : Begins octets) (hfront : front <+: octets) (hne : front ≠ []) :
    Begins front := by
  obtain ⟨-, c, more, hmore, hc⟩ := h
  obtain ⟨rest, rfl⟩ := hfront
  exact ⟨hne, c, rest ++ more, by simp [hmore], by rw [hc, List.append_assoc]⟩

theorem Begins.exists_sequence (h : Begins octets) :
    ∃ more n, more ≠ [] ∧ IsSequence (octets ++ more) n := by
  obtain ⟨-, c, more, hmore, hc⟩ := h
  exact ⟨more, c.toNat, hmore, hc ▸ isSequence_encode c⟩

theorem begins_of_isSequence {more : List UInt8} {n : Nat} (h : IsSequence (octets ++ more) n)
    (hne : octets ≠ []) (hmore : more ≠ []) : Begins octets := by
  obtain ⟨c, hc⟩ := h.exists_char
  exact ⟨hne, c, more, hmore, hc⟩

theorem exists_isSecond (a : UInt8) : ∃ b, isSecond a b = true := by
  refine ⟨(utf8Second a).1, ?_⟩
  rw [isSecond, utf8Second]
  repeat' split
  all_goals rfl

theorem begins_one_iff : Begins [a] ↔ 0xC2 ≤ a.toNat ∧ a.toNat ≤ 0xF4 := by
  constructor
  · intro h
    obtain ⟨more, n, hmore, hseq⟩ := h.exists_sequence
    generalize hall : [a] ++ more = all at hseq
    cases hseq with
    | one => exact absurd (List.cons.inj hall).2 hmore
    | two ha ha' | three ha ha' | four ha ha' =>
        obtain rfl := (List.cons.inj hall).1
        omega
  · intro h
    obtain ⟨b, hb⟩ := exists_isSecond a
    have htail : isTail 0x80 = true := by decide
    by_cases htwo : a.toNat < 0xE0
    · exact @begins_of_isSequence [a] [0x80] _ (.two h.1 htwo htail) (by simp) (by simp)
    by_cases hthree : a.toNat < 0xF0
    · exact @begins_of_isSequence [a] [b, 0x80] _ (.three (by omega) hthree hb htail) (by simp)
        (by simp)
    · exact @begins_of_isSequence [a] [b, 0x80, 0x80] _ (.four (by omega) h.2 hb htail htail)
        (by simp) (by simp)

theorem begins_two_iff : Begins [a, b] ↔
    0xE0 ≤ a.toNat ∧ a.toNat ≤ 0xF4 ∧ isSecond a b = true := by
  constructor
  · intro h
    obtain ⟨more, n, hmore, hseq⟩ := h.exists_sequence
    generalize hall : [a, b] ++ more = all at hseq
    cases hseq with
    | one | two => simp_all
    | three ha ha' hb hd =>
        simp only [List.cons_append, List.cons.injEq] at hall
        obtain ⟨rfl, rfl, rfl⟩ := hall
        exact ⟨ha, by omega, hb⟩
    | four ha ha' hb hd he =>
        simp only [List.cons_append, List.cons.injEq] at hall
        obtain ⟨rfl, rfl, rfl⟩ := hall
        exact ⟨by omega, ha', hb⟩
  · intro h
    obtain ⟨ha, ha', hb⟩ := h
    have htail : isTail 0x80 = true := by decide
    by_cases hthree : a.toNat < 0xF0
    · exact @begins_of_isSequence [a, b] [0x80] _ (.three ha hthree hb htail) (by simp) (by simp)
    · exact @begins_of_isSequence [a, b] [0x80, 0x80] _ (.four (by omega) ha' hb htail htail)
        (by simp) (by simp)

theorem begins_three_iff : Begins [a, b, c] ↔
    0xF0 ≤ a.toNat ∧ a.toNat ≤ 0xF4 ∧ isSecond a b = true ∧ isTail c = true := by
  constructor
  · intro h
    obtain ⟨more, n, hmore, hseq⟩ := h.exists_sequence
    generalize hall : [a, b, c] ++ more = all at hseq
    cases hseq with
    | one | two | three => simp_all
    | four ha ha' hb hd he =>
        simp only [List.cons_append, List.cons.injEq] at hall
        obtain ⟨rfl, rfl, rfl, rfl⟩ := hall
        exact ⟨ha, ha', hb, hd⟩
  · intro h
    obtain ⟨ha, ha', hb, hc⟩ := h
    have htail : isTail 0x80 = true := by decide
    exact @begins_of_isSequence [a, b, c] [0x80] _ (.four ha ha' hb hc htail) (by simp) (by simp)

theorem not_begins_four (rest : List UInt8) : ¬Begins (a :: b :: c :: d :: rest) := by
  intro h
  obtain ⟨more, n, hmore, hseq⟩ := h.exists_sequence
  generalize hall : a :: b :: c :: d :: rest ++ more = all at hseq
  cases hseq <;> simp_all

end Begins

section Stuck

variable {octets rest front : List UInt8} {start width : Nat}

theorem not_isStuck_of_isSequence {n : Nat} (h : IsSequence front n) (rest : List UInt8) :
    ¬IsStuck (front ++ rest) := by
  intro hstuck
  obtain ⟨c, hc⟩ := h.exists_char
  exact hstuck.2 c rest (by rw [hc])

theorem IsWidth.unique {other : Nat} (h : IsWidth rest width) (h' : IsWidth rest other) :
    width = other := by
  -- what begins a character at the greater width begins one right behind the smaller
  have hle {m n : Nat} (hm : IsWidth rest m) (hn : IsWidth rest n) : n ≤ m := by
    by_contra hlt
    have hpos := hm.1
    have hbegins := hn.2.1.resolve_left (by omega)
    refine hm.2.2 (hbegins.of_prefix (List.take_prefix_take_left (by omega)) ?_)
    have hne := hbegins.1
    simp_all
  exact Nat.le_antisymm (hle h' h) (hle h h')

/-- The decoder stops where no character stands, and tells how far the octets go on. -/
theorem decodeUtf8From_of_isStuck (start : Nat) (h : IsStuck rest) :
    (Begins rest ∧ decodeUtf8From start rest = .error (.incomplete start)) ∨
      ∃ width, IsWidth rest width ∧
        decodeUtf8From start rest = .error (.invalid width start) := by
  fun_cases decodeUtf8From start rest with
  | case1 => exact absurd rfl h.1
  | case2 a rest ha =>
      exact absurd h (not_isStuck_of_isSequence (.one (UInt8.lt_iff_toNat_lt.1 ha)) rest)
  | case3 a rest hone hlead =>
      refine .inr ⟨1, ⟨Nat.one_pos, .inl rfl, fun hb => ?_⟩, rfl⟩
      have hfirst : Begins [a] := hb.of_prefix (by simp) (by simp)
      have ha := begins_one_iff.1 hfirst
      simp [UInt8.lt_iff_toNat_lt] at hlead
      omega
  | case4 a hone hlead => exact .inl ⟨begins_one_iff.2 (lead_range hlead), rfl⟩
  | case5 a hone hlead b rest htwo hb =>
      have hseq := IsSequence.two (lead_range hlead).1 (UInt8.lt_iff_toNat_lt.1 htwo) hb
      exact absurd h (not_isStuck_of_isSequence hseq rest)
  | case6 a hone hlead b rest htwo hb =>
      refine .inr ⟨1, ⟨Nat.one_pos, .inl rfl, fun hbegins => ?_⟩, rfl⟩
      have hthree := (begins_two_iff.1 hbegins).1
      have hless : a.toNat < 0xE0 := UInt8.lt_iff_toNat_lt.1 htwo
      omega
  | case7 a hone hlead b rest htwo hb =>
      refine .inr ⟨1, ⟨Nat.one_pos, .inl rfl, fun hbegins => ?_⟩, rfl⟩
      simp [(begins_two_iff.1 hbegins).2.2] at hb
  | case8 a hone hlead b htwo hb =>
      have hthree : 0xE0 ≤ a.toNat := toNat_le_of_not_lt htwo
      exact .inl ⟨begins_two_iff.2 ⟨hthree, (lead_range hlead).2, by simpa using hb⟩, rfl⟩
  | case9 a hone hlead b htwo hb c rest hc =>
      have hthree : 0xE0 ≤ a.toNat := toNat_le_of_not_lt htwo
      have hfront := begins_two_iff.2 ⟨hthree, (lead_range hlead).2, by simpa using hb⟩
      refine .inr ⟨2, ⟨Nat.two_pos, .inr hfront, fun hbegins => ?_⟩, rfl⟩
      simp [(begins_three_iff.1 hbegins).2.2.2] at hc
  | case10 a hone hlead b htwo hb c rest hc hfour =>
      have hseq := IsSequence.three (toNat_le_of_not_lt htwo) (UInt8.lt_iff_toNat_lt.1 hfour)
        (by simpa using hb) (by simpa using hc)
      exact absurd h (not_isStuck_of_isSequence hseq rest)
  | case11 a hone hlead b htwo hb c hc hfour =>
      have hbegins := begins_three_iff.2 ⟨toNat_le_of_not_lt hfour, (lead_range hlead).2,
        by simpa using hb, by simpa using hc⟩
      exact .inl ⟨hbegins, rfl⟩
  | case12 a hone hlead b htwo hb c hc hfour d rest hd =>
      have hfront := begins_three_iff.2 ⟨toNat_le_of_not_lt hfour, (lead_range hlead).2,
        by simpa using hb, by simpa using hc⟩
      exact .inr ⟨3, ⟨Nat.succ_pos 2, .inr hfront, not_begins_four []⟩, rfl⟩
  | case13 a hone hlead b htwo hb c hc hfour d rest hd =>
      have hseq := IsSequence.four (toNat_le_of_not_lt hfour) (lead_range hlead).2
        (by simpa using hb) (by simpa using hc) (by simpa using hd)
      exact absurd h (not_isStuck_of_isSequence hseq rest)

/-- As many characters as can be read stand at the front of octets. -/
theorem exists_stuck (octets : List UInt8) :
    ∃ (cs : List Char) (rest : List UInt8), octets = utf8 cs ++ rest ∧
      (rest = [] ∨ IsStuck rest) := by
  induction hlength : octets.length using Nat.strongRecOn generalizing octets with
  | ind n ih =>
      by_cases hstuck : octets = [] ∨ IsStuck octets
      · exact ⟨[], octets, rfl, hstuck⟩
      simp only [IsStuck, not_or, not_and, not_forall, not_not] at hstuck
      obtain ⟨hne, hchar⟩ := hstuck
      obtain ⟨c, more, rfl⟩ := hchar hne
      have hpos : 0 < (String.utf8EncodeChar c).length := by
        rw [String.length_utf8EncodeChar]
        exact Char.utf8Size_pos c
      rw [List.length_append] at hlength
      obtain ⟨cs, rest, rfl, hrest⟩ := ih more.length (by omega) more rfl
      exact ⟨c :: cs, rest, by rw [utf8_cons, List.append_assoc], hrest⟩

/-- No sequence of a character begins another one. -/
theorem Begins.isStuck (h : Begins rest) : IsStuck rest := by
  refine ⟨h.1, fun c after heq => ?_⟩
  obtain ⟨-, d, more, hmore, hd⟩ := h
  have hone : utf8 [d] = utf8 [c] ++ (after ++ more) := by
    simp [utf8, hd, heq]
  have hdecode : decodeUtf8From 0 (utf8 [d]) = .ok [d] := decodeUtf8From_eq_ok_iff.2 rfl
  rw [hone, decodeUtf8From_utf8_append] at hdecode
  obtain ⟨cs, hcs, hlist⟩ := map_eq_ok_iff.1 hdecode
  obtain rfl : cs = [] := (List.cons.inj hlist).2
  have hnil : after ++ more = [] := decodeUtf8From_eq_ok_iff.1 hcs
  exact hmore (List.append_eq_nil_iff.1 hnil).2

theorem IsWidth.not_begins (h : IsWidth rest width) : ¬Begins rest := by
  intro hbegins
  refine h.2.2 (hbegins.of_prefix (List.take_prefix _ _) ?_)
  simp [hbegins.1]

/-- Where and why octets are no text: what the decoder tells. -/
theorem decodeUtf8_eq_error_iff {fault : Utf8Fault} :
    decodeUtf8 octets = .error fault ↔ IsUtf8Fault octets fault := by
  rw [decodeUtf8]
  constructor
  · intro h
    obtain ⟨cs, rest, rfl, rfl | hstuck⟩ := exists_stuck octets
    · rw [List.append_nil, decodeUtf8From_eq_ok_iff.2 rfl] at h
      simp at h
    rw [decodeUtf8From_utf8_append, Nat.zero_add] at h
    obtain ⟨hbegins, hrest⟩ | ⟨width, hwidth, hrest⟩ :=
      decodeUtf8From_of_isStuck (utf8 cs).length hstuck
    · rw [hrest] at h
      obtain rfl := Except.error.inj h
      exact .incomplete rfl hbegins
    · rw [hrest] at h
      obtain rfl := Except.error.inj h
      exact .invalid rfl hstuck hwidth
  · intro h
    cases h with
    | @incomplete cs rest hoctets hbegins =>
        rw [hoctets, decodeUtf8From_utf8_append, Nat.zero_add]
        obtain ⟨-, hrest⟩ | ⟨width, hwidth, -⟩ :=
          decodeUtf8From_of_isStuck (utf8 cs).length hbegins.isStuck
        · rw [hrest]
          rfl
        · exact absurd hbegins hwidth.not_begins
    | @invalid cs rest width hoctets hstuck hwidth =>
        rw [hoctets, decodeUtf8From_utf8_append, Nat.zero_add]
        obtain ⟨hbegins, -⟩ | ⟨other, hother, hrest⟩ :=
          decodeUtf8From_of_isStuck (utf8 cs).length hstuck
        · exact absurd hbegins hwidth.not_begins
        · rw [hrest, hwidth.unique hother]
          rfl

example : decodeUtf8 [0x61, 0xE2, 0x82] = .error (.incomplete 1) ∧
    decodeUtf8 [0x61, 0xE2, 0x82, 0x2F] = .error (.invalid 2 1) := by decide

end Stuck

end SyncPlan.Text
