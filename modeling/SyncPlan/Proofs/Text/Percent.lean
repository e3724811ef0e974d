import SyncPlan.Proofs.Text.Escapes
import SyncPlan.Proofs.Text.Utf8

/-!
What percent coded octets stand for, as a relation, which the decoder computes. A text in which any
characters are coded, and every percent sign is, stands for the octets of the text without codes.
-/

namespace SyncPlan.Text

/-- Octets that begin with a percent sign and two hexadecimal digits. -/
def BeginsEscape (octets : List UInt8) : Prop :=
  ∃ a b rest, octets = 0x25 :: a :: b :: rest ∧ (hexOctet? a).isSome ∧ (hexOctet? b).isSome

/-- Read from the left, an escape stands for one octet, which is not read again, and every octet
that begins no escape stands for itself. -/
inductive StandsFor : List UInt8 → List UInt8 → Prop
  | nil : StandsFor [] []
  | escape {a b : UInt8} {m n : Nat} {rest octets : List UInt8} : hexOctet? a = some m →
      hexOctet? b = some n → StandsFor rest octets →
      StandsFor (0x25 :: a :: b :: rest) (UInt8.ofNat (m * 16 + n) :: octets)
  | self {a : UInt8} {rest octets : List UInt8} : ¬BeginsEscape (a :: rest) →
      StandsFor rest octets → StandsFor (a :: rest) (a :: octets)

theorem percentDecode_of_not_beginsEscape {a : UInt8} {rest : List UInt8}
    (h : ¬BeginsEscape (a :: rest)) : percentDecode (a :: rest) = a :: percentDecode rest := by
  rw [percentDecode.eq_def]
  split
  · next heq => simp at heq
  · next b c more heq =>
      obtain ⟨rfl, rfl⟩ := List.cons.inj heq
      split
      · next m n hb hc => exact absurd ⟨b, c, more, rfl, by simp [hb], by simp [hc]⟩ h
      · rfl
  · next heq =>
      obtain ⟨rfl, rfl⟩ := List.cons.inj heq
      rfl

theorem percentDecode_escape {a b : UInt8} {m n : Nat} (ha : hexOctet? a = some m)
    (hb : hexOctet? b = some n) (rest : List UInt8) :
    percentDecode (0x25 :: a :: b :: rest) = UInt8.ofNat (m * 16 + n) :: percentDecode rest := by
  rw [percentDecode, ha, hb]

theorem standsFor_percentDecode (octets : List UInt8) :
    StandsFor octets (percentDecode octets) := by
  fun_induction percentDecode octets with
  | case1 => exact .nil
  | case2 a b rest m n hb ha ih => exact .escape ha hb ih
  | case3 a b rest hno ih =>
      refine .self ?_ ih
      intro hbegins
      obtain ⟨a', b', rest', heq, ha, hb⟩ := hbegins
      obtain ⟨rfl, rfl, -⟩ : a = a' ∧ b = b' ∧ rest = rest' := by simpa using heq
      obtain ⟨m, hm⟩ := Option.isSome_iff_exists.1 ha
      obtain ⟨n, hn⟩ := Option.isSome_iff_exists.1 hb
      exact hno m n hm hn
  | case4 a rest hno ih =>
      refine .self ?_ ih
      intro hbegins
      obtain ⟨b, c, more, heq, -⟩ := hbegins
      exact hno b c more (List.cons.inj heq).1 (List.cons.inj heq).2

theorem standsFor_iff {octets decoded : List UInt8} :
    StandsFor octets decoded ↔ percentDecode octets = decoded := by
  constructor
  · intro h
    induction h with
    | nil => rfl
    | escape ha hb _ ih => rw [percentDecode_escape ha hb, ih]
    | self hno _ ih => rw [percentDecode_of_not_beginsEscape hno, ih]
  · intro h
    exact h ▸ standsFor_percentDecode octets

/-- Octets written one by one, each as a percent sign and two hexadecimal digits in either case. -/
inductive Codes : List UInt8 → List Char → Prop
  | nil : Codes [] []
  | cons {b : UInt8} {high low : Char} {octets : List UInt8} {cs : List Char} :
      digitIn 16 high = some (b.toNat / 16) → digitIn 16 low = some (b.toNat % 16) →
      Codes octets cs → Codes (b :: octets) ('%' :: high :: low :: cs)

/-- A text with some characters written by the codes of their octets, and all others as they are. -/
inductive Encodes (coded : Char → Prop) : List Char → List Char → Prop
  | nil : Encodes coded [] []
  | code {c : Char} {codes text written : List Char} : coded c →
      Codes (String.utf8EncodeChar c) codes → Encodes coded text written →
      Encodes coded (c :: text) (codes ++ written)
  | self {c : Char} {text written : List Char} : ¬coded c → Encodes coded text written →
      Encodes coded (c :: text) (c :: written)

theorem toNat_lt_of_digitIn {c : Char} {n : Nat} (h : digitIn 16 c = some n) :
    c.toNat < 0x80 := by
  have hz : 'z'.toNat = 122 := rfl
  have hZ : 'Z'.toNat = 90 := rfl
  have h9 : '9'.toNat = 57 := rfl
  rw [digitIn, Option.filter_eq_some_iff] at h
  have hvalue := h.1
  simp only [digitValue, Bool.and_eq_true, decide_eq_true_eq, Char.le_def,
    UInt32.le_iff_toNat_le, Char.toNat_val, hz, hZ, h9] at hvalue
  split at hvalue
  · omega
  · split at hvalue
    · omega
    · split at hvalue
      · omega
      · simp at hvalue

theorem utf8_append (cs ds : List Char) : utf8 (cs ++ ds) = utf8 cs ++ utf8 ds :=
  List.flatMap_append

theorem hexOctet?_ofNat {c : Char} {n : Nat} (h : digitIn 16 c = some n) :
    hexOctet? (UInt8.ofNat c.toNat) = some n := by
  have hlt := toNat_lt_of_digitIn h
  have hoctet : (UInt8.ofNat c.toNat).toNat = c.toNat :=
    UInt8.toNat_ofNat_of_lt (Nat.lt_trans hlt (by decide))
  rw [hexOctet?, hoctet, Char.ofNat_toNat, h]

/-- A code is read back as its octet. -/
theorem percentDecode_codes {octets : List UInt8} {codes : List Char} (h : Codes octets codes)
    (rest : List UInt8) :
    percentDecode (utf8 codes ++ rest) = octets ++ percentDecode rest := by
  induction h with
  | nil => rfl
  | @cons b high low octets codes hhigh hlow _ ih =>
      have hpercent : String.utf8EncodeChar '%' = [0x25] := by decide
      have hoctet : UInt8.ofNat (b.toNat / 16 * 16 + b.toNat % 16) = b :=
        ofNat_eq (Nat.div_add_mod' b.toNat 16)
      rw [utf8_cons, utf8_cons, utf8_cons, hpercent,
        utf8EncodeChar_of_lt (toNat_lt_of_digitIn hhigh),
        utf8EncodeChar_of_lt (toNat_lt_of_digitIn hlow)]
      simp only [List.cons_append, List.nil_append]
      rw [percentDecode_escape (hexOctet?_ofNat hhigh) (hexOctet?_ofNat hlow), hoctet, ih]

theorem percentDecode_append_of_notMem {front : List UInt8} (h : 0x25 ∉ front)
    (rest : List UInt8) : percentDecode (front ++ rest) = front ++ percentDecode rest := by
  induction front with
  | nil => rfl
  | cons a front ih =>
      rw [List.mem_cons, not_or] at h
      have hno : ¬BeginsEscape (a :: (front ++ rest)) := by
        intro hbegins
        obtain ⟨b, c, more, heq, -⟩ := hbegins
        exact h.1 (List.cons.inj heq).1.symm
      rw [List.cons_append, percentDecode_of_not_beginsEscape hno, ih h.2]
      rfl

/-- No octet of another character is a percent sign. -/
theorem percent_notMem_encode {c : Char} (h : c ≠ '%') : 0x25 ∉ String.utf8EncodeChar c := by
  have hseq := isSequence_encode c
  have htail {b : UInt8} (hb : isTail b = true) : 0x25 ≠ b := by
    intro heq
    subst heq
    exact absurd hb (by decide)
  have hsecond {a b : UInt8} (hb : isSecond a b = true) : 0x25 ≠ b :=
    htail (isTail_iff.2 (isSecond_iff.1 hb).1)
  have hlead {a : UInt8} (ha : 0xC2 ≤ a.toNat) : 0x25 ≠ a := by
    intro heq
    subst heq
    exact absurd ha (by decide)
  generalize String.utf8EncodeChar c = octets at hseq ⊢
  generalize hn : c.toNat = n at hseq
  cases hseq with
  | one ha =>
      simp only [List.mem_singleton]
      intro heq
      rw [← heq] at hn
      exact h (Char.toNat_inj.1 hn)
  | two ha _ hb => simp [hlead ha, htail hb]
  | three ha _ hb hd => simp [hlead (Nat.le_trans (by decide) ha), hsecond hb, htail hd]
  | four ha _ hb hd he => simp [hlead (Nat.le_trans (by decide) ha), hsecond hb, htail hd, htail he]

/-- What is written for a text, with every percent sign coded, stands for its octets. -/
theorem standsFor_of_encodes {coded : Char → Prop} (hpercent : coded '%')
    {text written : List Char} (h : Encodes coded text written) :
    StandsFor (utf8 written) (utf8 text) := by
  rw [standsFor_iff]
  induction h with
  | nil => rfl
  | code _ hcodes _ ih => rw [utf8_append, percentDecode_codes hcodes, ih, utf8_cons]
  | @self c text written hno _ ih =>
      have hc : c ≠ '%' := fun heq => hno (heq ▸ hpercent)
      rw [utf8_cons, percentDecode_append_of_notMem (percent_notMem_encode hc), ih, utf8_cons]

theorem exists_codes (octets : List UInt8) : ∃ codes, Codes octets codes := by
  induction octets with
  | nil => exact ⟨[], .nil⟩
  | cons b octets ih =>
      obtain ⟨codes, hcodes⟩ := ih
      have hb : b.toNat < 256 := b.toNat_lt
      have hhigh : digitIn 16 (hexDigit true (b.toNat / 16)) = some (b.toNat / 16) :=
        digitIn_hexDigit (by omega)
      have hlow : digitIn 16 (hexDigit true (b.toNat % 16)) = some (b.toNat % 16) :=
        digitIn_hexDigit (by omega)
      exact ⟨_, .cons hhigh hlow hcodes⟩

/-- Every text can be written with any characters coded. -/
theorem exists_encodes (coded : Char → Prop) (text : List Char) :
    ∃ written, Encodes coded text written := by
  induction text with
  | nil => exact ⟨[], .nil⟩
  | cons c text ih =>
      obtain ⟨written, hwritten⟩ := ih
      by_cases hc : coded c
      · obtain ⟨codes, hcodes⟩ := exists_codes (String.utf8EncodeChar c)
        exact ⟨_, .code hc hcodes hwritten⟩
      · exact ⟨_, .self hc hwritten⟩

end SyncPlan.Text
