import SyncPlan.Proofs.Numerals
import SyncPlan.Text.Utf8

/-!
The octets of a text and the decoding of octets undo each other. A character has one sequence of
octets, by the width of its code point, and the decoder takes exactly such a sequence for a
character, whatever follows it.
-/

namespace SyncPlan.Text

theorem utf8EncodeChar_of_lt {c : Char} (h : c.toNat < 0x80) :
    String.utf8EncodeChar c = [UInt8.ofNat c.toNat] := by
  have hle : ¬127 < c.toNat := by omega
  simp [String.utf8EncodeChar, hle]

/-- The sequences of octets that code one code point, an alternative for each width. -/
inductive IsSequence : List UInt8 → Nat → Prop
  | one {a : UInt8} : a.toNat < 0x80 → IsSequence [a] a.toNat
  | two {a b : UInt8} : 0xC2 ≤ a.toNat → a.toNat < 0xE0 → isTail b = true →
      IsSequence [a, b] (withTail (a.toNat % 32) b)
  | three {a b c : UInt8} : 0xE0 ≤ a.toNat → a.toNat < 0xF0 → isSecond a b = true →
      isTail c = true → IsSequence [a, b, c] (withTail (withTail (a.toNat % 16) b) c)
  | four {a b c d : UInt8} : 0xF0 ≤ a.toNat → a.toNat ≤ 0xF4 → isSecond a b = true →
      isTail c = true → isTail d = true →
      IsSequence [a, b, c, d] (withTail (withTail (withTail (a.toNat % 8) b) c) d)

theorem isTail_iff {b : UInt8} : isTail b = true ↔ 0x80 ≤ b.toNat ∧ b.toNat ≤ 0xBF := by
  simp [isTail, UInt8.le_iff_toNat_le]

/-- The second octet is a tail, and it keeps the code point in the range of its width and out of
the surrogates. -/
theorem isSecond_iff {a b : UInt8} : isSecond a b = true ↔
    (0x80 ≤ b.toNat ∧ b.toNat ≤ 0xBF) ∧ (a.toNat = 0xE0 → 0xA0 ≤ b.toNat) ∧
      (a.toNat = 0xED → b.toNat < 0xA0) ∧ (a.toNat = 0xF0 → 0x90 ≤ b.toNat) ∧
      (a.toNat = 0xF4 → b.toNat < 0x90) := by
  simp only [isSecond, utf8Second, Bool.and_eq_true, decide_eq_true_eq, UInt8.le_iff_toNat_le,
    ← UInt8.toNat_inj, UInt8.reduceToNat]
  repeat' split
  all_goals simp only [UInt8.reduceToNat]; omega

theorem IsSequence.isValidChar {octets : List UInt8} {n : Nat} (h : IsSequence octets n) :
    n.isValidChar := by
  rw [Nat.isValidChar]
  cases h with
  | one ha => omega
  | two ha ha' hb =>
      rw [isTail_iff] at hb
      simp only [withTail]
      omega
  | three ha ha' hb hc =>
      rw [isSecond_iff] at hb
      rw [isTail_iff] at hc
      simp only [withTail]
      omega
  | four ha ha' hb hc hd =>
      rw [isSecond_iff] at hb
      rw [isTail_iff] at hc hd
      simp only [withTail]
      omega

theorem toNat_ofNat_of_isValidChar {n : Nat} (h : n.isValidChar) : (Char.ofNat n).toNat = n := by
  rw [Char.ofNat, dif_pos h]
  rfl

section Encode

variable {c : Char}

theorem encode_two (h : 0x80 ≤ c.toNat) (h' : c.toNat < 0x800) : String.utf8EncodeChar c =
    [UInt8.ofNat (c.toNat / 64 % 32 + 192), UInt8.ofNat (c.toNat % 64 + 128)] := by
  have hv : ¬c.val.toNat ≤ 0x7F := Nat.not_le_of_lt h
  have hv' : c.val.toNat ≤ 0x7FF := Nat.le_of_lt_succ h'
  simp only [String.utf8EncodeChar, if_neg hv, if_pos hv', Char.toNat]

theorem encode_three (h : 0x800 ≤ c.toNat) (h' : c.toNat < 0x10000) : String.utf8EncodeChar c =
    [UInt8.ofNat (c.toNat / 4096 % 16 + 224), UInt8.ofNat (c.toNat / 64 % 64 + 128),
      UInt8.ofNat (c.toNat % 64 + 128)] := by
  have hv : ¬c.val.toNat ≤ 0x7FF := Nat.not_le_of_lt h
  have hv' : c.val.toNat ≤ 0xFFFF := Nat.le_of_lt_succ h'
  have hone : ¬c.val.toNat ≤ 0x7F := fun hle => hv (Nat.le_trans hle (by decide))
  simp only [String.utf8EncodeChar, if_neg hone, if_neg hv, if_pos hv', Char.toNat]

theorem encode_four (h : 0x10000 ≤ c.toNat) : String.utf8EncodeChar c =
    [UInt8.ofNat (c.toNat / 262144 % 8 + 240), UInt8.ofNat (c.toNat / 4096 % 64 + 128),
      UInt8.ofNat (c.toNat / 64 % 64 + 128), UInt8.ofNat (c.toNat % 64 + 128)] := by
  have hv : ¬c.val.toNat ≤ 0xFFFF := Nat.not_le_of_lt h
  have hone : ¬c.val.toNat ≤ 0x7F := fun hle => hv (Nat.le_trans hle (by decide))
  have htwo : ¬c.val.toNat ≤ 0x7FF := fun hle => hv (Nat.le_trans hle (by decide))
  simp only [String.utf8EncodeChar, if_neg hone, if_neg htwo, if_neg hv, Char.toNat]

end Encode

theorem ofNat_eq {a : UInt8} {n : Nat} (h : n = a.toNat) : UInt8.ofNat n = a := by
  rw [h, UInt8.ofNat_toNat]

/-- A code point has one sequence only, the octets of its character. -/
theorem IsSequence.encode_eq {octets : List UInt8} {c : Char} (h : IsSequence octets c.toNat) :
    String.utf8EncodeChar c = octets := by
  generalize hn : c.toNat = n at h
  cases h with
  | @one a ha => rw [utf8EncodeChar_of_lt (by omega), ofNat_eq hn]
  | @two a b ha ha' hb =>
      rw [isTail_iff] at hb
      simp only [withTail] at hn
      have hfirst : c.toNat / 64 % 32 + 192 = a.toNat := by omega
      have hlast : c.toNat % 64 + 128 = b.toNat := by omega
      rw [encode_two (by omega) (by omega), ofNat_eq hfirst, ofNat_eq hlast]
  | @three a b d ha ha' hb hd =>
      rw [isSecond_iff] at hb
      rw [isTail_iff] at hd
      simp only [withTail] at hn
      have hfirst : c.toNat / 4096 % 16 + 224 = a.toNat := by omega
      have hsecond : c.toNat / 64 % 64 + 128 = b.toNat := by omega
      have hlast : c.toNat % 64 + 128 = d.toNat := by omega
      rw [encode_three (by omega) (by omega), ofNat_eq hfirst, ofNat_eq hsecond, ofNat_eq hlast]
  | @four a b d e ha ha' hb hd he =>
      rw [isSecond_iff] at hb
      rw [isTail_iff] at hd he
      simp only [withTail] at hn
      have hfirst : c.toNat / 262144 % 8 + 240 = a.toNat := by omega
      have hsecond : c.toNat / 4096 % 64 + 128 = b.toNat := by omega
      have hthird : c.toNat / 64 % 64 + 128 = d.toNat := by omega
      have hlast : c.toNat % 64 + 128 = e.toNat := by omega
      rw [encode_four (by omega), ofNat_eq hfirst, ofNat_eq hsecond, ofNat_eq hthird,
        ofNat_eq hlast]

/-- The octets of a character are a sequence of its code point. -/
theorem isSequence_encode (c : Char) : IsSequence (String.utf8EncodeChar c) c.toNat := by
  have hvalid : c.toNat < 0xD800 ∨ 0xDFFF < c.toNat ∧ c.toNat < 0x110000 := c.valid
  -- an octet that is written as a number is that number
  have hoctet (n : Nat) (h : n < 256) : ∃ a : UInt8, UInt8.ofNat n = a ∧ a.toNat = n :=
    ⟨_, rfl, UInt8.toNat_ofNat_of_lt h⟩
  obtain ⟨last, hlast, hlastNat⟩ := hoctet (c.toNat % 64 + 128) (by omega)
  obtain ⟨third, hthird, hthirdNat⟩ := hoctet (c.toNat / 64 % 64 + 128) (by omega)
  obtain ⟨second, hsecond, hsecondNat⟩ := hoctet (c.toNat / 4096 % 64 + 128) (by omega)
  by_cases hone : c.toNat < 0x80
  · obtain ⟨a, ha, haNat⟩ := hoctet c.toNat (by omega)
    rw [utf8EncodeChar_of_lt hone, ha, ← haNat]
    exact .one (by omega)
  by_cases htwo : c.toNat < 0x800
  · obtain ⟨a, ha, haNat⟩ := hoctet (c.toNat / 64 % 32 + 192) (by omega)
    have hn : withTail (a.toNat % 32) last = c.toNat := by
      rw [withTail]
      omega
    rw [encode_two (by omega) htwo, ha, hlast, ← hn]
    exact .two (by omega) (by omega) (isTail_iff.2 (by omega))
  by_cases hthree : c.toNat < 0x10000
  · obtain ⟨a, ha, haNat⟩ := hoctet (c.toNat / 4096 % 16 + 224) (by omega)
    have hn : withTail (withTail (a.toNat % 16) third) last = c.toNat := by
      rw [withTail, withTail]
      omega
    rw [encode_three (by omega) hthree, ha, hthird, hlast, ← hn]
    exact .three (by omega) (by omega) (isSecond_iff.2 (by omega)) (isTail_iff.2 (by omega))
  · obtain ⟨a, ha, haNat⟩ := hoctet (c.toNat / 262144 % 8 + 240) (by omega)
    have hn : withTail (withTail (withTail (a.toNat % 8) second) third) last = c.toNat := by
      rw [withTail, withTail, withTail]
      omega
    rw [encode_four (by omega), ha, hsecond, hthird, hlast, ← hn]
    exact .four (by omega) (by omega) (isSecond_iff.2 (by omega)) (isTail_iff.2 (by omega))
      (isTail_iff.2 (by omega))

/-- A sequence is taken for its character, whatever follows it. -/
theorem decodeUtf8From_append {octets : List UInt8} {n : Nat} (h : IsSequence octets n)
    (start : Nat) (rest : List UInt8) :
    decodeUtf8From start (octets ++ rest) =
      (decodeUtf8From (start + octets.length) rest).map (Char.ofNat n :: ·) := by
  rw [decodeUtf8From.eq_def]
  cases h with
  | @one a ha =>
      have hone : a < 0x80 := UInt8.lt_iff_toNat_lt.2 ha
      simp [hone]
  | @two a b ha ha' hb =>
      have hone : ¬a < 0x80 := by simp [UInt8.lt_iff_toNat_lt]; omega
      have hlead : ¬a < 0xC2 ∧ ¬0xF4 < a := by simp [UInt8.lt_iff_toNat_lt]; omega
      have htwo : a < 0xE0 := UInt8.lt_iff_toNat_lt.2 ha'
      simp [hone, hlead, htwo, hb]
  | @three a b d ha ha' hb hd =>
      have hone : ¬a < 0x80 := by simp [UInt8.lt_iff_toNat_lt]; omega
      have hlead : ¬a < 0xC2 ∧ ¬0xF4 < a := by simp [UInt8.lt_iff_toNat_lt]; omega
      have htwo : ¬a < 0xE0 := by simp [UInt8.lt_iff_toNat_lt]; omega
      have hthree : a < 0xF0 := UInt8.lt_iff_toNat_lt.2 ha'
      simp [hone, hlead, htwo, hthree, hb, hd]
  | @four a b d e ha ha' hb hd he =>
      have hone : ¬a < 0x80 := by simp [UInt8.lt_iff_toNat_lt]; omega
      have hlead : ¬a < 0xC2 ∧ ¬0xF4 < a := by simp [UInt8.lt_iff_toNat_lt]; omega
      have htwo : ¬a < 0xE0 := by simp [UInt8.lt_iff_toNat_lt]; omega
      have hthree : ¬a < 0xF0 := by simp [UInt8.lt_iff_toNat_lt]; omega
      simp [hone, hlead, htwo, hthree, hb, hd, he]

theorem utf8_cons (c : Char) (cs : List Char) :
    utf8 (c :: cs) = String.utf8EncodeChar c ++ utf8 cs :=
  List.flatMap_cons

theorem decodeUtf8From_utf8_append (cs : List Char) (start : Nat) (rest : List UInt8) :
    decodeUtf8From start (utf8 cs ++ rest) =
      (decodeUtf8From (start + (utf8 cs).length) rest).map (cs ++ ·) := by
  induction cs generalizing start with
  | nil =>
      show decodeUtf8From start rest = (decodeUtf8From start rest).map ([] ++ ·)
      cases decodeUtf8From start rest <;> rfl
  | cons c cs ih =>
      rw [utf8_cons, List.append_assoc, decodeUtf8From_append (isSequence_encode c), ih,
        List.length_append, Nat.add_assoc, Char.ofNat_toNat]
      cases decodeUtf8From _ rest <;> rfl

theorem IsSequence.append_utf8 {octets : List UInt8} {n : Nat} (h : IsSequence octets n)
    (cs : List Char) : octets ++ utf8 cs = utf8 (Char.ofNat n :: cs) := by
  have hn : (Char.ofNat n).toNat = n := toNat_ofNat_of_isValidChar h.isValidChar
  rw [utf8_cons, IsSequence.encode_eq (hn.symm ▸ h)]

theorem lead_range {a : UInt8} (h : ¬(a < 0xC2 || 0xF4 < a) = true) :
    0xC2 ≤ a.toNat ∧ a.toNat ≤ 0xF4 := by
  simp [UInt8.lt_iff_toNat_lt] at h
  omega

theorem toNat_le_of_not_lt {a b : UInt8} (h : ¬a < b) : b.toNat ≤ a.toNat := by
  simpa [UInt8.lt_iff_toNat_lt] using h

theorem eq_utf8_of_decodeUtf8From {start : Nat} {octets : List UInt8} {cs : List Char}
    (h : decodeUtf8From start octets = .ok cs) : octets = utf8 cs := by
  fun_induction decodeUtf8From start octets generalizing cs with
  | case1 start =>
      obtain rfl := Except.ok.inj h
      rfl
  | case2 start a rest ha ih =>
      obtain ⟨more, hmore, rfl⟩ := map_eq_ok_iff.1 h
      obtain rfl := ih hmore
      exact (IsSequence.one (UInt8.lt_iff_toNat_lt.1 ha)).append_utf8 more
  | case5 start a hone hlead b rest htwo hb ih =>
      obtain ⟨more, hmore, rfl⟩ := map_eq_ok_iff.1 h
      obtain rfl := ih hmore
      have hless := UInt8.lt_iff_toNat_lt.1 htwo
      exact (IsSequence.two (lead_range hlead).1 hless hb).append_utf8 more
  | case10 start a hone hlead b htwo hb c rest hc hthree ih =>
      obtain ⟨more, hmore, rfl⟩ := map_eq_ok_iff.1 h
      obtain rfl := ih hmore
      have hseq := IsSequence.three (toNat_le_of_not_lt htwo) (UInt8.lt_iff_toNat_lt.1 hthree)
        (by simpa using hb) (by simpa using hc)
      exact hseq.append_utf8 more
  | case13 start a hone hlead b htwo hb c hc hthree d rest hd ih =>
      obtain ⟨more, hmore, rfl⟩ := map_eq_ok_iff.1 h
      obtain rfl := ih hmore
      have hseq := IsSequence.four (toNat_le_of_not_lt hthree) (lead_range hlead).2
        (by simpa using hb) (by simpa using hc) (by simpa using hd)
      exact hseq.append_utf8 more
  | _ => simp at h

/-- Octets are read as a text exactly when they are the octets of this text. -/
theorem decodeUtf8From_eq_ok_iff {start : Nat} {octets : List UInt8} {cs : List Char} :
    decodeUtf8From start octets = .ok cs ↔ octets = utf8 cs := by
  constructor
  · exact eq_utf8_of_decodeUtf8From
  · intro h
    rw [h, ← List.append_nil (utf8 cs), decodeUtf8From_utf8_append, decodeUtf8From]
    exact congrArg Except.ok (List.append_nil cs)

end SyncPlan.Text
