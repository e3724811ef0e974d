import Mathlib.Data.List.DropRight
import SyncPlan.Endpoint.Uri
import SyncPlan.Proofs.Numerals

/-!
What the check of a URI sees of a text behind the scheme and its slashes, and what it says of the
authority when it finds no fault. It sees the text without the characters that it ignores, so what
it says of the host and the port holds of these characters only.
-/

namespace SyncPlan.Ipv6
open Text

def IsAddressChar (c : Char) : Prop := isHexDigit c = true ∨ c = ':' ∨ c = '.'

instance : DecidablePred IsAddressChar := fun c =>
  inferInstanceAs (Decidable (isHexDigit c = true ∨ c = ':' ∨ c = '.'))

theorem isHexDigit_of_isDigit {c : Char} (h : IsDigit 10 c) : isHexDigit c = true := by
  have hten : digitIn 10 c = some (c.toNat - '0'.toNat) := digitIn_of_isDigit (by decide) h
  rw [digitIn, Option.filter_eq_some_iff] at hten
  have hlt : c.toNat - '0'.toNat < 16 := by
    have := of_decide_eq_true hten.2
    omega
  rw [isHexDigit, isDigitIn, digitIn, hten.1, Option.filter_some, if_pos (decide_eq_true hlt)]
  rfl

theorem isAddressChar_of_isOctet {cs : List Char} (h : isOctet cs = true) :
    ∀ c ∈ cs, IsAddressChar c := by
  intro c hc
  rw [isOctet] at h
  split at h
  · simp at h
  · next n hn =>
      have hrun := ((natural?_eq_some_iff (by decide)).1 hn).1
      exact .inl (isHexDigit_of_isDigit (hrun.2 c hc))

theorem isAddressChar_of_isDotted :
    ∀ {n : Nat} {cs : List Char}, isDotted n cs = true → ∀ c ∈ cs, IsAddressChar c
  | 0, _, h => by simp [isDotted] at h
  | 1, _, h => isAddressChar_of_isOctet h
  | n + 2, cs, h => by
      rw [isDotted, Bool.and_eq_true] at h
      obtain ⟨hfirst, hrest⟩ := h
      split at hrest
      · simp at hrest
      · next point rest hdrop =>
          have hpoint := List.head?_dropWhile_not (· != '.') cs
          rw [hdrop, List.head?_cons] at hpoint
          intro c hc
          rw [← List.takeWhile_append_dropWhile (p := (· != '.')) (l := cs), hdrop,
            List.mem_append, List.mem_cons] at hc
          obtain hc | rfl | hc := hc
          · exact isAddressChar_of_isOctet hfirst c hc
          · exact .inr (.inr (by simpa using hpoint))
          · exact isAddressChar_of_isDotted hrest c hc

theorem digits_append_drop (cs : List Char) :
    (cs.take 4).takeWhile isHexDigit ++ cs.drop ((cs.take 4).takeWhile isHexDigit).length = cs := by
  have hdigits := List.takeWhile_prefix (l := cs.take 4) isHexDigit
  exact List.prefix_iff_eq_append.1 (hdigits.trans (List.take_prefix 4 cs))

theorem isAddressChar_of_groupsFrom {count : Nat} {gap : Bool} {cs : List Char}
    (h : groupsFrom count gap cs = true) : ∀ c ∈ cs, IsAddressChar c := by
  have hdigits (l : List Char) : ∀ c ∈ (l.take 4).takeWhile isHexDigit, IsAddressChar c :=
    fun c hc => .inl (List.mem_takeWhile_imp hc)
  fun_induction groupsFrom count gap cs with
  | case1 count gap => simp
  | case2 count gap rest ih =>
      simp only [Bool.and_eq_true] at h
      intro c hc
      cases List.mem_cons.1 hc with
      | inl hcolon => exact .inr (.inl hcolon)
      | inr hc => exact ih h.2 c hc
  | case3 count gap c more hc hcount => simp at h
  | case4 count gap c more hc digits hcount hdrop =>
      rw [← digits_append_drop (c :: more), hdrop, List.append_nil]
      exact hdigits _
  | case5 count gap c more hc digits hcount tail hdrop =>
      simp only [Bool.and_eq_true] at h
      exact isAddressChar_of_isDotted h.1.2
  | case6 count gap c more hc digits hcount rest hdrop ih =>
      simp only [Bool.and_eq_true] at h
      intro d hd
      rw [← digits_append_drop (c :: more), hdrop, List.mem_append, List.mem_cons] at hd
      obtain hd | rfl | hd := hd
      · exact hdigits _ d hd
      · exact .inr (.inl rfl)
      · exact ih h.2 d hd
  | case7 => simp at h

theorem isAddressChar_of_isAddress {cs : List Char} (h : isAddress cs = true) :
    ∀ c ∈ cs, IsAddressChar c := by
  rw [isAddress.eq_def] at h
  split at h
  · next rest =>
      intro c hc
      simp only [List.mem_cons] at hc
      obtain hcolon | hcolon | hc := hc
      · exact .inr (.inl hcolon)
      · exact .inr (.inl hcolon)
      · exact isAddressChar_of_groupsFrom h c hc
  · simp at h
  · exact isAddressChar_of_groupsFrom h

theorem colon_mem_of_isAddress {cs : List Char} (h : isAddress cs = true) : ':' ∈ cs := by
  rw [isAddress.eq_def] at h
  split at h
  · simp
  · simp
  · cases cs with
    | nil => simp [groupsFrom] at h
    | cons c more =>
        by_contra hno
        have hc : c ≠ ':' := by
          intro heq
          exact hno (heq ▸ List.mem_cons_self)
        rw [groupsFrom.eq_3 _ _ _ _ hc] at h
        simp only [Nat.reduceBEq, Bool.false_eq_true, if_false] at h
        split at h
        · simp at h
        · simp at h
        · next rest hdrop =>
            exact hno (List.mem_of_mem_drop (hdrop ▸ List.mem_cons_self))
        · simp at h

end SyncPlan.Ipv6

namespace SyncPlan.Uri
open Text

/-- What the check sees of the text behind the scheme and its slashes. -/
def seen (rest : List Char) : List Char :=
  (rest.rdropWhile isControlOrSpace).filter (!isIgnored ·)

theorem rtakeWhile_filter {p q : Char → Bool} (h : ∀ c, p c = false → q c = true)
    (cs : List Char) : (cs.filter p).rtakeWhile q = (cs.rtakeWhile q).filter p := by
  have hq : (fun c => !p c || q c) = q := by
    funext c
    cases hp : p c with
    | false => simp [h c hp]
    | true => simp
  rw [List.rtakeWhile, List.rtakeWhile, ← List.filter_reverse, List.takeWhile_filter, hq,
    List.filter_reverse]

theorem rtakeWhile_append {q : Char → Bool} {back : List Char} (h : ∀ c ∈ back, q c = true)
    (front : List Char) : (front ++ back).rtakeWhile q = front.rtakeWhile q ++ back := by
  rw [List.rtakeWhile, List.reverse_append, List.takeWhile_append_of_pos (by simpa using h),
    List.reverse_append, List.reverse_reverse, List.rtakeWhile]

theorem rdropWhile_append_cons {p : Char → Bool} {c : Char} (h : p c = false)
    (front rest : List Char) :
    (front ++ c :: rest).rdropWhile p = front ++ c :: rest.rdropWhile p := by
  induction rest using List.reverseRecOn with
  | nil => rw [List.rdropWhile_concat_neg _ _ _ (by simp [h]), List.rdropWhile_nil]
  | append_singleton rest d ih =>
      rw [← List.cons_append, ← List.append_assoc]
      cases hd : p d with
      | true => rw [List.rdropWhile_concat_pos _ _ _ hd, List.rdropWhile_concat_pos _ _ _ hd, ih]
      | false =>
          rw [List.rdropWhile_concat_neg _ _ _ (by simp [hd]),
            List.rdropWhile_concat_neg _ _ _ (by simp [hd])]
          simp

theorem splitUserinfo_snd (cs : List Char) :
    (splitUserinfo cs).2 = cs.rtakeWhile (· != '@') := by
  have hsuffix := List.rtakeWhile_suffix (· != '@') cs
  rw [splitUserinfo]
  split
  · rfl
  · next h => exact (hsuffix.eq_of_length_le (Nat.le_of_not_lt h)).symm

theorem splitHost_append (bracketed : Bool) (cs : List Char) :
    (splitHost bracketed cs).1 ++ (splitHost bracketed cs).2 = cs := by
  induction cs generalizing bracketed with
  | nil => rfl
  | cons c cs ih =>
      rw [splitHost]
      split
      · rfl
      · simp [ih]

theorem splitHost_snd (bracketed : Bool) (cs : List Char) :
    (splitHost bracketed cs).2 = [] ∨ ∃ port, (splitHost bracketed cs).2 = ':' :: port := by
  induction cs generalizing bracketed with
  | nil => exact .inl rfl
  | cons c cs ih =>
      rw [splitHost]
      split
      · next h =>
          obtain rfl : c = ':' := by simp_all
          exact .inr ⟨cs, rfl⟩
      · exact ih _

/-- The end of the authority and what may follow it are not ignored, so the check sees the part of
the authority that is left when the ignored characters at its end and within it are taken away. -/
theorem takeWhile_seen (rest : List Char) :
    ∃ front back, rest.takeWhile (!endsAuthority ·) = front ++ back ∧
      (∀ c ∈ back, isControlOrSpace c = true) ∧
      (seen rest).takeWhile (!endsAuthority ·) = front.filter (!isIgnored ·) := by
  have hignored : (fun c => !(!isIgnored c) || !endsAuthority c) = (!endsAuthority ·) := by
    funext c
    cases hc : isIgnored c with
    | false => simp
    | true =>
        simp only [isIgnored, Bool.or_eq_true, beq_iff_eq] at hc
        obtain (rfl | rfl) | rfl := hc <;> decide
  have hcontrol : ∀ c, isControlOrSpace c = true → (!endsAuthority c) = true := by
    intro c hc
    simp only [isControlOrSpace, decide_eq_true_eq] at hc
    simp only [endsAuthority, Bool.not_eq_true', Bool.or_eq_false_iff, beq_eq_false_iff_ne]
    refine ⟨⟨?_, ?_⟩, ?_⟩ <;> intro heq <;> subst heq <;> exact absurd hc (by decide)
  have hback : ∀ c ∈ rest.rtakeWhile isControlOrSpace, isControlOrSpace c = true :=
    fun c hc => List.mem_rtakeWhile_imp hc
  have hseen : (seen rest).takeWhile (!endsAuthority ·) =
      ((rest.rdropWhile isControlOrSpace).takeWhile (!endsAuthority ·)).filter (!isIgnored ·) := by
    rw [seen, List.takeWhile_filter, hignored]
  have hsplit : rest.rdropWhile isControlOrSpace ++ rest.rtakeWhile isControlOrSpace = rest :=
    List.rdropWhile_append_rtakeWhile
  by_cases hall : ((rest.rdropWhile isControlOrSpace).takeWhile (!endsAuthority ·)).length =
      (rest.rdropWhile isControlOrSpace).length
  · have hfront := List.takeWhile_prefix (l := rest.rdropWhile isControlOrSpace) (!endsAuthority ·)
    refine ⟨_, rest.rtakeWhile isControlOrSpace, ?_, hback, hseen⟩
    conv => lhs; rw [← hsplit]
    rw [List.takeWhile_append, if_pos hall,
      List.takeWhile_eq_self_iff.2 fun c hc => hcontrol c (hback c hc),
      hfront.eq_of_length hall]
  · refine ⟨_, [], ?_, by simp, hseen⟩
    conv => lhs; rw [← hsplit]
    rw [List.takeWhile_append, if_neg hall, List.append_nil]

theorem portFault?_eq_none {cs : List Char} (h : portFault? cs = none) (hno : '\\' ∉ cs) :
    (∀ c ∈ cs, IsDigit 10 c) ∧ valueOf 10 cs ≤ 65535 := by
  rw [portFault?] at h
  split at h
  · simp at h
  · next hle =>
      split at h
      · next hdrop =>
          have hdigit : ∀ c ∈ cs, c.isDigit = true := List.dropWhile_eq_nil_iff.1 hdrop
          have hall : ∀ c ∈ cs, IsDigit 10 c := fun c hc => isDigit_iff.1 (hdigit c hc)
          rw [List.takeWhile_eq_self_iff.2 hdigit, digitsValue_eq_valueOf (by decide) hall] at hle
          exact ⟨hall, Nat.le_of_not_lt hle⟩
      · next hdrop =>
          exact absurd ((List.dropWhile_suffix _).subset (hdrop ▸ List.mem_cons_self)) hno
      · simp at h

theorem hostFault?_eq_none {host : List Char} (h : hostFault? host = none) :
    (∃ address, host = '[' :: address ++ [']'] ∧ Ipv6.isAddress address = true) ∨
      ∀ c ∈ host, isForbiddenInHost c = false := by
  rw [hostFault?.eq_def] at h
  split at h
  · next rest =>
      left
      split at h
      · next hr =>
          rw [Bool.and_eq_true, beq_iff_eq] at hr
          obtain ⟨address, rfl⟩ := List.getLast?_eq_some_iff.1 hr.1
          exact ⟨address, rfl, by simpa using hr.2⟩
      · simp at h
  · right
    split at h
    · simp at h
    · next hany => simpa using hany

/-- What a check without a fault has made sure of. -/
theorem authorityFault?_eq_none {cs : List Char} (h : authorityFault? cs = none) :
    ∃ host port, (splitUserinfo (cs.takeWhile (!endsAuthority ·))).2 = host ++ port ∧
      hostFault? host = none ∧
      (port = [] ∨ ∃ digits, port = ':' :: digits ∧ host ≠ [] ∧ portFault? digits = none) := by
  rw [authorityFault?] at h
  cases hu : splitUserinfo (cs.takeWhile (!endsAuthority ·)) with
  | mk userinfo place =>
      have happend := splitHost_append false place
      have hport := splitHost_snd false place
      simp only [hu] at h
      cases hh : splitHost false place with
      | mk host port =>
          simp only [hh] at h happend hport
          refine ⟨host, port, happend.symm, ?_⟩
          split at h
          · simp at h
          · split at h
            · simp at h
            · next c digits hhost =>
                refine ⟨hhost, .inr ⟨digits, ?_⟩⟩
                split at h
                · simp at h
                · next hne =>
                    obtain rfl : c = ':' := by simpa using hport
                    exact ⟨rfl, by simpa using hne, h⟩
            · next hhost => exact ⟨hhost, .inl rfl⟩

end SyncPlan.Uri
