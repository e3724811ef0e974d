import SyncPlan.Proofs.Settings
import SyncPlan.Proofs.Text.Decimal
import SyncPlan.Proofs.Text.Escapes
import SyncPlan.Toml.Document

/-!
Settings as lines of a TOML document, and the readers of values against them: a text between quotes,
an integer in base ten, a word for a boolean and an array on one line are read as what they were
written for, and nothing behind them is touched.
-/

namespace SyncPlan.Toml
open Text

/-- The value of a setting as it is written. -/
def valueText (capital : Bool) : Setting → List Char
  | .text _ v => between capital v
  | .count _ v => decimal v.toNat
  | .number _ v => decimal v.toInt
  | .switch _ v => (if v then "true" else "false").toList
  | .list _ vs => arrayText capital vs

/-- The line of a setting. -/
def line (capital : Bool) (s : Setting) : List Char :=
  s.field.key.toList ++ [' ', '=', ' '] ++ valueText capital s ++ ['\n']

/-- A document with a line for each setting. -/
def document (capital : Bool) (settings : List Setting) : List Char :=
  settings.flatMap (line capital)

example : String.ofList (document true [.text .target "a\\ä", .list .extensions ["\"", "😀"]]) =
    "target = \"a\\\\\\u00E4\"\nfilter_ext = [\"\\\"\", \"\\U0001F600\"]\n" := by
  decide

/-- The value of a setting as it is read. -/
def valueOf : Setting → Value
  | .text _ v => .string v
  | .count _ v => .integer v.toNat
  | .number _ v => .integer v.toInt
  | .switch _ v => .boolean v
  | .list _ vs => .array (vs.map .string)

variable {capital : Bool}

section Strings

theorem codePoint?_hexDigits {c : Char} {width : Nat} (hwidth : 0 < width)
    (h : c.toNat < Nat.pow 16 width) : codePoint? (hexDigits capital width c.toNat) = some c := by
  have hvalid : c.toNat.isValidChar := c.valid
  simp [codePoint?, natural?_hexDigits hwidth h, hvalid, Char.ofNat_toNat]

theorem escaped?_code {c mark : Char} {width : Nat}
    (hmark : mark = 'u' ∧ width = 4 ∨ mark = 'U' ∧ width = 8) (h : c.toNat < Nat.pow 16 width)
    (rest : List Char) :
    escaped? (mark :: (hexDigits capital width c.toNat ++ rest)) = some (c, rest) := by
  have hlength := @length_hexDigits capital width c.toNat
  rcases hmark with ⟨rfl, rfl⟩ | ⟨rfl, rfl⟩
  · have hcode := @codePoint?_hexDigits capital _ _ (by decide) h
    match hexDigits capital 4 c.toNat, hlength, hcode with
    | [_, _, _, _], _, hcode => simp [escaped?, hcode]
  · have hcode := @codePoint?_hexDigits capital _ _ (by decide) h
    match hexDigits capital 8 c.toNat, hlength, hcode with
    | [_, _, _, _, _, _, _, _], _, hcode => simp [escaped?, hcode]

theorem escaped?_self {c : Char} (h : c = '"' ∨ c = '\\') (rest : List Char) :
    escaped? (c :: rest) = some (c, rest) := by
  rcases h with rfl | rfl <;> rfl

theorem basic?_backslash {c : Char} {cs rest : List Char} (h : escaped? cs = some (c, rest)) :
    basic? ('\\' :: cs) = (basic? rest).map fun (s, rest) => (c :: s, rest) := by
  rw [basic?]
  split
  · next hnone => simp [h] at hnone
  · next d rest' hsome =>
      obtain ⟨rfl, rfl⟩ := Prod.mk.inj (Option.some.inj (h.symm.trans hsome))
      rfl

theorem basic?_self {c : Char} {cs : List Char} (hquote : c ≠ '"') (hbackslash : c ≠ '\\')
    (h : isPrintable c = true) :
    basic? (c :: cs) = (basic? cs).map fun (s, rest) => (c :: s, rest) := by
  have hplain : isPlainChar c = true := by
    simp only [isPrintable, Bool.and_eq_true, decide_eq_true_eq] at h
    have hne : c.toNat ≠ 0x7F := by omega
    simp [isPlainChar, h.1, hne]
  rw [basic?.eq_def]
  split
  · contradiction
  · next heq => exact absurd (List.cons.inj heq).1 hquote
  · next heq => exact absurd (List.cons.inj heq).1 hbackslash
  · next heq =>
      obtain ⟨rfl, rfl⟩ := List.cons.inj heq
      rw [if_pos hplain]

/-- An escaped text is read up to the quote behind it. -/
theorem basic?_escaped (cs rest : List Char) :
    basic? (escaped capital cs ++ '"' :: rest) = some (cs, rest) := by
  induction cs with
  | nil => simp [escaped, basic?]
  | cons c cs ih =>
      rw [escaped_cons, List.append_assoc]
      cases escape_cases capital c with
      | inl hspecial =>
          rw [hspecial.2, List.cons_append, List.cons_append, List.nil_append,
            basic?_backslash (escaped?_self hspecial.1 _), ih]
          rfl
      | inr hother =>
          cases hother with
          | inl hself =>
              obtain ⟨hquote, hbackslash, hprintable, heq⟩ := hself
              rw [heq, List.singleton_append, basic?_self hquote hbackslash hprintable, ih]
              rfl
          | inr hcode =>
              obtain ⟨mark, width, hmark, hlt, heq⟩ := hcode
              rw [heq, List.cons_append, List.cons_append,
                basic?_backslash (escaped?_code hmark hlt _), ih]
              rfl

theorem string?_quote {cs : List Char} (h : ∀ more, cs ≠ '"' :: '"' :: more) :
    string? ('"' :: cs) = basic? cs := by
  rw [string?.eq_def]
  split
  · next heq => exact absurd (List.cons.inj heq).2 (h _)
  · next heq => simp at heq
  · next heq => rw [(List.cons.inj heq).2]
  · next heq => simp at heq
  · next hno _ => exact absurd rfl (hno cs)

/-- A text between quotes is read. Where it is empty it begins as one of several lines does, but no
third quote follows. -/
theorem string?_between (s : String) {rest : List Char} (h : rest.head? ≠ some '"') :
    string? (between capital s ++ rest) = some (s.toList, rest) := by
  rw [between_append, string?_quote, basic?_escaped]
  intro more
  cases s.toList with
  | nil =>
      intro heq
      have hrest : rest = '"' :: more := (List.cons.inj heq).2
      exact h (hrest ▸ rfl)
  | cons c cs =>
      obtain ⟨d, ds, heq, hne⟩ := exists_escape_eq capital c
      rw [escaped_cons, heq]
      exact fun hcons => hne (List.cons.inj hcons).1

end Strings

section Numerals

theorem grouped?_digits {cs : List Char} (hne : cs ≠ []) (h : ∀ c ∈ cs, isDigitIn 10 c = true) :
    grouped? 10 cs = some cs := by
  induction cs with
  | nil => exact absurd rfl hne
  | cons c cs ih =>
      have hc := h c List.mem_cons_self
      cases cs with
      | nil => rw [grouped?, if_pos hc]
      | cons d cs =>
          have hd : d ≠ '_' := ne_of_isDigitIn (h d (by simp)) (by decide)
          rw [grouped?.eq_4 _ _ _ (by simp) (by simpa using hd), if_pos hc,
            ih (by simp) fun x hx => h x (List.mem_cons_of_mem _ hx)]
          rfl

theorem whole?_digits (n : Nat) : whole? (digits n) = some (digits n) := by
  have hgrouped := grouped?_digits (isRun_digits n).1 fun c => isDigitIn_of_mem_digits
  rw [whole?, hgrouped, Option.filter_some, if_pos]
  cases n with
  | zero => rfl
  | succ n => simp [head?_digits (Nat.succ_pos n)]

theorem splitSign_digits (n : Nat) : splitSign (digits n) = (false, digits n) := by
  rw [splitSign.eq_def]
  split
  · next heq =>
      have hdigit := @isDigitIn_of_mem_digits n '-' (heq ▸ List.mem_cons_self)
      exact absurd hdigit (by decide)
  · next heq =>
      have hdigit := @isDigitIn_of_mem_digits n '+' (heq ▸ List.mem_cons_self)
      exact absurd hdigit (by decide)
  · rfl

/-- A numeral that has no base mark is read as a whole number with its sign. -/
theorem integer?_of_notMark {cs : List Char} (h : ∀ c ∈ cs.tail, c ≠ 'x' ∧ c ≠ 'o' ∧ c ≠ 'b') :
    integer? cs = ((whole? (splitSign cs).2).map fun digits =>
      let n : Int := digitsValue 10 digits
      if (splitSign cs).1 then -n else n).filter inRange := by
  rw [integer?.eq_def]
  split
  · exact absurd rfl (h 'x' (by simp)).1
  · exact absurd rfl (h 'o' (by simp)).2.1
  · exact absurd rfl (h 'b' (by simp)).2.2
  · rfl

theorem ne_mark_of_isDigitIn {c : Char} (h : isDigitIn 10 c = true) :
    c ≠ 'x' ∧ c ≠ 'o' ∧ c ≠ 'b' :=
  ⟨ne_of_isDigitIn h (by decide), ne_of_isDigitIn h (by decide), ne_of_isDigitIn h (by decide)⟩

/-- An integer in base ten is read if it is in range, and otherwise it is none. -/
theorem integer?_decimal (n : Int) : integer? (decimal n) = (some n).filter inRange := by
  cases decimal_cases n with
  | inl hnatural =>
      obtain ⟨k, rfl, hk⟩ := hnatural
      rw [hk, integer?_of_notMark fun c hc =>
        ne_mark_of_isDigitIn (isDigitIn_of_mem_digits (List.mem_of_mem_tail hc))]
      simp [splitSign_digits, whole?_digits, digitsValue_digits]
  | inr hnegative =>
      obtain ⟨k, -, rfl, hk⟩ := hnegative
      have hdigits : ∀ c ∈ ('-' :: digits k).tail, c ≠ 'x' ∧ c ≠ 'o' ∧ c ≠ 'b' :=
        fun c hc => ne_mark_of_isDigitIn (@isDigitIn_of_mem_digits k c hc)
      rw [hk, integer?_of_notMark hdigits]
      simp [splitSign, whole?_digits, digitsValue_digits]

theorem isNumeralChar_of_mem_decimal {n : Int} (c : Char) (h : c ∈ decimal n) :
    isNumeralChar c = true := by
  cases mem_decimal h with
  | inl hminus => exact hminus ▸ rfl
  | inr hdigit =>
      have halphanum : c.isAlphanum = true := by
        rw [Char.isAlphanum, isDigit_iff.2 hdigit, Bool.or_true]
      simp [isNumeralChar, halphanum]

/-- A numeral or a word is read up to the first character that cannot be a part of it. -/
theorem takeWhile_numeral {word rest : List Char} (hword : ∀ c ∈ word, isNumeralChar c = true)
    (hrest : ∀ c ∈ rest.head?, isNumeralChar c = false) :
    (word ++ rest).takeWhile isNumeralChar = word ∧
      (word ++ rest).dropWhile isNumeralChar = rest := by
  rw [List.takeWhile_append_of_pos hword, List.dropWhile_append_of_pos hword]
  cases rest with
  | nil => simp
  | cons c rest =>
      have hc : isNumeralChar c = false := hrest c rfl
      simp [hc]

theorem numeral?_decimal {n : Int} {rest : List Char} (h : inRange n = true)
    (hrest : ∀ c ∈ rest.head?, isNumeralChar c = false) :
    numeral? (decimal n ++ rest) = some (.integer n, rest) := by
  obtain ⟨htake, hdrop⟩ := @takeWhile_numeral (decimal n) rest isNumeralChar_of_mem_decimal hrest
  have hinteger : integer? (decimal n) = some n := by
    rw [integer?_decimal, Option.filter_some, if_pos h]
  have hword : ∀ word : List Char, integer? word = none → decimal n ≠ word := by
    rintro word hnone rfl
    simp [hinteger] at hnone
  rw [numeral?, htake, hdrop]
  simp [hword _ (show integer? ['t', 'r', 'u', 'e'] = none by decide),
    hword _ (show integer? ['f', 'a', 'l', 's', 'e'] = none by decide), hinteger]

theorem numeral?_boolean (b : Bool) {rest : List Char}
    (hrest : ∀ c ∈ rest.head?, isNumeralChar c = false) :
    numeral? ((if b then "true" else "false").toList ++ rest) = some (.boolean b, rest) := by
  obtain ⟨htake, hdrop⟩ := @takeWhile_numeral (if b then "true" else "false").toList rest
    (List.all_eq_true.1 (by cases b <;> decide)) hrest
  rw [numeral?, htake, hdrop]
  cases b <;> rfl

end Numerals

section Values

/-- A character that begins something, so that no reader passes it over as a gap. -/
def IsVisible (c : Char) : Prop := isBlank c = false ∧ c ≠ '#' ∧ c ≠ '\n' ∧ c ≠ '\r'

instance : DecidablePred IsVisible := fun c =>
  inferInstanceAs (Decidable (isBlank c = false ∧ c ≠ '#' ∧ c ≠ '\n' ∧ c ≠ '\r'))

theorem skipBlanks_append {lead : List Char} (hlead : ∀ c ∈ lead, isBlank c = true) {c : Char}
    (hc : isBlank c = false) (cs : List Char) : skipBlanks (lead ++ c :: cs) = c :: cs := by
  rw [skipBlanks, List.dropWhile_append_of_pos hlead, List.dropWhile_cons_of_neg (by simp [hc])]

theorem skipLines_append {lead : List Char} (hlead : ∀ c ∈ lead, isBlank c = true) {c : Char}
    (hc : IsVisible c) (cs : List Char) : skipLines (lead ++ c :: cs) = c :: cs := by
  have hcomment : skipComment (c :: cs) = c :: cs := by
    rw [skipComment.eq_def]
    split
    · next heq => exact absurd (List.cons.inj heq).1 hc.2.1
    · rfl
  have hend : lineEnd? (c :: cs) = none := by
    rw [lineEnd?.eq_def]
    split
    · next heq => exact absurd (List.cons.inj heq).1 hc.2.2.1
    · next heq => exact absurd (List.cons.inj heq).1 hc.2.2.2
    · rfl
  rw [skipLines]
  split
  · next hsome => simp [skipBlanks_append hlead hc.1, hcomment, hend] at hsome
  · exact skipBlanks_append hlead hc.1 cs

theorem skipLines_cons {c : Char} (hc : IsVisible c) (cs : List Char) :
    skipLines (c :: cs) = c :: cs :=
  @skipLines_append [] (by simp) _ hc cs

theorem value?_between (depth : Nat) (v : String) {rest : List Char} (h : rest.head? ≠ some '"') :
    value? depth (between capital v ++ rest) = some (.string v, rest) := by
  have hstring := @string?_between capital v _ h
  rw [between_append] at hstring ⊢
  rw [value?.eq_def]
  simp [hstring]

theorem value?_numeral {depth : Nat} {c : Char} {cs : List Char} (h : isNumeralChar c = true) :
    value? depth (c :: cs) = numeral? (c :: cs) := by
  have hne {d : Char} (hd : isNumeralChar d = false) : c ≠ d := by
    intro heq
    rw [heq, hd] at h
    simp at h
  rw [value?.eq_def]
  dsimp only
  split
  · next heq => exact absurd (List.cons.inj heq).1 (hne (by decide))
  · next heq => exact absurd (List.cons.inj heq).1 (hne (by decide))
  · next heq => exact absurd (List.cons.inj heq).1 (hne (by decide))
  · next heq => exact absurd (List.cons.inj heq).1 (hne (by decide))
  · rfl

section Items

variable {item : List Char → Option (Value × List Char)} {cs start next rest : List Char}
  {v : Value}
  (hstart : skipLines cs = start) (hopen : start.head? ≠ some ']')
  (hitem : item start = some (v, next))
include hstart hopen hitem

theorem items?_last (hnext : skipLines next = ']' :: rest) :
    items? item cs = some ([v], rest) := by
  rw [items?, hstart]
  split
  · exact absurd rfl hopen
  · simp only [hitem, hnext]

theorem items?_comma (hnext : skipLines next = ',' :: rest) (hlt : rest.length < cs.length) :
    items? item cs = (items? item rest).map fun (vs, rest) => (v :: vs, rest) := by
  rw [items?, hstart]
  split
  · exact absurd rfl hopen
  · simp only [hitem, hnext, if_pos hlt]

end Items

/-- The items of an array are read up to its closing bracket. -/
theorem items?_between {depth : Nat} {lead : List Char} (hlead : ∀ c ∈ lead, isBlank c = true)
    (v : String) (vs : List String) (rest : List Char) :
    items? (value? depth) (lead ++ (between capital v ++
      (vs.flatMap (fun w => ',' :: ' ' :: between capital w) ++ ']' :: rest))) =
        some ((v :: vs).map .string, rest) := by
  have hstart {lead : List Char} (hlead : ∀ c ∈ lead, isBlank c = true) (v : String)
      (tail : List Char) : skipLines (lead ++ (between capital v ++ tail)) =
        between capital v ++ tail := by
    rw [between_append]
    exact skipLines_append hlead (by decide) _
  -- The blank behind a comma is passed over with the gap before the next text.
  induction vs generalizing lead v with
  | nil =>
      apply items?_last (hstart hlead v _)
      · simp [between_append]
      · exact value?_between depth v (by simp)
      · exact skipLines_cons (by decide) rest
  | cons w vs ih =>
      have hmore := @ih [' '] (by simp [isBlank]) w
      simp only [List.flatMap_cons, List.cons_append, List.append_assoc, List.nil_append] at hmore ⊢
      rw [items?_comma (hstart hlead v _) (by simp [between_append])
        (value?_between depth v (by simp)) (skipLines_cons (by decide) _) (by simp; omega), hmore]
      rfl

theorem value?_arrayText (depth : Nat) (vs : List String) (rest : List Char) :
    value? (depth + 1) (arrayText capital vs ++ rest) = some (.array (vs.map .string), rest) := by
  cases vs with
  | nil =>
      have hitems : items? (value? depth) (']' :: rest) = some ([], rest) := by
        rw [items?, skipLines_cons (by decide)]
        rfl
      rw [value?.eq_def]
      simp [arrayText, hitems]
  | cons v vs =>
      have hitems := @items?_between capital depth [] (by simp) v vs rest
      rw [List.nil_append] at hitems
      rw [value?.eq_def]
      simp [arrayText, hitems]

theorem value?_decimal (depth : Nat) {n : Int} {rest : List Char} (h : inRange n = true)
    (hrest : ∀ c ∈ rest.head?, isNumeralChar c = false) :
    value? depth (decimal n ++ rest) = some (.integer n, rest) := by
  have hnumeral := numeral?_decimal h hrest
  have hfirst := @isNumeralChar_of_mem_decimal n
  obtain ⟨c, cs, hdecimal⟩ := List.exists_cons_of_ne_nil (decimal_ne_nil n)
  rw [hdecimal] at hnumeral hfirst ⊢
  exact (value?_numeral (hfirst c List.mem_cons_self)).trans hnumeral

theorem value?_boolean (depth : Nat) (b : Bool) {rest : List Char}
    (hrest : ∀ c ∈ rest.head?, isNumeralChar c = false) :
    value? depth ((if b then "true" else "false").toList ++ rest) = some (.boolean b, rest) := by
  have hnumeral := numeral?_boolean b hrest
  cases b <;> exact (value?_numeral (by decide)).trans hnumeral

theorem inRange_count (v : UInt32) : inRange v.toNat = true := by
  have hlt := v.toNat_lt
  have hbound : (boundOfBits 63 : Int) = 9223372036854775808 := rfl
  simp only [inRange, hbound, Bool.and_eq_true, decide_eq_true_eq]
  omega

theorem inRange_number (v : Int64) : inRange v.toInt = true := by
  have hlow := v.le_toInt
  have hhigh := v.toInt_lt
  have hbound : (boundOfBits 63 : Int) = 9223372036854775808 := rfl
  simp only [inRange, hbound, Bool.and_eq_true, decide_eq_true_eq]
  omega

theorem notNumeral_newline (rest : List Char) :
    ∀ c ∈ ('\n' :: rest).head?, isNumeralChar c = false := by
  intro c hc
  obtain rfl : '\n' = c := Option.some.inj hc
  decide

/-- The value of a setting is read up to the end of its line. -/
theorem value?_valueText (depth : Nat) (s : Setting) (rest : List Char) :
    value? (depth + 1) (valueText capital s ++ '\n' :: rest) = some (valueOf s, '\n' :: rest) := by
  have hend := notNumeral_newline rest
  cases s with
  | text f v => exact value?_between _ v (by simp)
  | count f v => exact value?_decimal _ (inRange_count v) hend
  | number f v => exact value?_decimal _ (inRange_number v) hend
  | switch f v => exact value?_boolean _ v hend
  | list f vs => exact value?_arrayText depth vs _

end Values

section Lines

/-- A key that stands without quotes. -/
def IsBareKey (word : List Char) : Prop := word ≠ [] ∧ ∀ c ∈ word, isBareKeyChar c = true

theorem isBareKey_key (f : Field) : IsBareKey f.key.toList := by
  refine ⟨toList_key_ne_nil f, ?_⟩
  intro c hc
  cases isAlphanum_of_isKeyChar (isKeyChar_of_mem_key f c hc) with
  | inl halnum => simp [isBareKeyChar, halnum]
  | inr hline => simp [isBareKeyChar, hline]

theorem ne_of_isBareKeyChar {c d : Char} (h : isBareKeyChar c = true)
    (hd : isBareKeyChar d = false) : c ≠ d := by
  rintro rfl
  rw [hd] at h
  simp at h

theorem isVisible_of_isBareKeyChar {c : Char} (h : isBareKeyChar c = true) : IsVisible c := by
  have hblank : isBlank c = false := by
    simp [isBlank, ne_of_isBareKeyChar h (show isBareKeyChar ' ' = false by decide),
      ne_of_isBareKeyChar h (show isBareKeyChar '\t' = false by decide)]
  exact ⟨hblank, ne_of_isBareKeyChar h (by decide), ne_of_isBareKeyChar h (by decide),
    ne_of_isBareKeyChar h (by decide)⟩

section BareKey

variable {word : List Char} (hword : IsBareKey word)
include hword

theorem IsBareKey.exists_cons : ∃ c cs, word = c :: cs ∧ isBareKeyChar c = true := by
  obtain ⟨c, cs, rfl⟩ := List.exists_cons_of_ne_nil hword.1
  exact ⟨c, cs, rfl, hword.2 c List.mem_cons_self⟩

theorem keyPart?_bare (rest : List Char) :
    keyPart? (word ++ ' ' :: rest) = some (word, ' ' :: rest) := by
  have htake : (word ++ ' ' :: rest).takeWhile isBareKeyChar = word := by
    rw [List.takeWhile_append_of_pos hword.2, List.takeWhile_cons_of_neg (by decide),
      List.append_nil]
  have hdrop : (word ++ ' ' :: rest).dropWhile isBareKeyChar = ' ' :: rest := by
    rw [List.dropWhile_append_of_pos hword.2, List.dropWhile_cons_of_neg (by decide)]
  obtain ⟨c, cs, hcons, hc⟩ := hword.exists_cons
  rw [keyPart?.eq_def]
  split
  · next heq =>
      rw [hcons] at heq
      exact absurd (List.cons.inj heq).1 (ne_of_isBareKeyChar hc (by decide))
  · next heq =>
      rw [hcons] at heq
      exact absurd (List.cons.inj heq).1 (ne_of_isBareKeyChar hc (by decide))
  · simp only [htake, hdrop]
    simp [hcons]

theorem key?_bare (rest : List Char) :
    key? (word ++ ' ' :: '=' :: rest) = some ([String.ofList word], '=' :: rest) := by
  obtain ⟨c, cs, hcons, hc⟩ := hword.exists_cons
  have hstart : skipBlanks (word ++ ' ' :: '=' :: rest) = word ++ ' ' :: '=' :: rest := by
    rw [hcons]
    exact @skipBlanks_append [] (by simp) _ (isVisible_of_isBareKeyChar hc).1 _
  have hsign : skipBlanks (' ' :: '=' :: rest) = '=' :: rest :=
    @skipBlanks_append [' '] (by simp [isBlank]) _ (by decide) rest
  have hparts : keyParts? (word ++ ' ' :: '=' :: rest) =
      some ([String.ofList word], '=' :: rest) := by
    rw [keyParts?, hstart, keyPart?_bare hword]
    simp [hsign]
  rw [key?, hparts]
  rfl

end BareKey

/-- A line with a bare key and a text that is read as one value up to the end of the line. -/
structure Row where
  key : List Char
  text : List Char
  value : Value
  isBareKey : IsBareKey key
  starts : ∃ c cs, text = c :: cs ∧ isBlank c = false
  reads : ∀ rest, value? deepest (text ++ '\n' :: rest) = some (value, '\n' :: rest)

namespace Row

def line (r : Row) : List Char := r.key ++ [' ', '=', ' '] ++ r.text ++ ['\n']

def pair (r : Row) : String × Value := (String.ofList r.key, r.value)

theorem exists_line_eq (r : Row) : ∃ c cs, r.line = c :: cs ∧ isBareKeyChar c = true := by
  obtain ⟨c, cs, hkey, hc⟩ := r.isBareKey.exists_cons
  exact ⟨c, _, by rw [line, hkey]; rfl, hc⟩

/-- A line is read as the pair of its key and value. -/
theorem pair?_line (r : Row) (rest : List Char) :
    pair? (value? deepest) (r.line ++ rest) =
      some (([String.ofList r.key], r.value), '\n' :: rest) := by
  have hline : r.line ++ rest = r.key ++ ' ' :: '=' :: ' ' :: (r.text ++ '\n' :: rest) := by
    simp [line]
  have hvalue : skipBlanks (' ' :: (r.text ++ '\n' :: rest)) = r.text ++ '\n' :: rest := by
    obtain ⟨c, cs, htext, hc⟩ := r.starts
    rw [htext]
    exact @skipBlanks_append [' '] (by simp [isBlank]) _ hc _
  rw [hline, pair?, key?_bare r.isBareKey]
  simp [hvalue, r.reads]

end Row

theorem exists_decimal_eq (n : Int) : ∃ c cs, decimal n = c :: cs ∧ isBlank c = false := by
  have hfirst := @isNumeralChar_of_mem_decimal n
  obtain ⟨c, cs, hn⟩ := List.exists_cons_of_ne_nil (decimal_ne_nil n)
  refine ⟨c, cs, hn, ?_⟩
  have hc := hfirst c (hn ▸ List.mem_cons_self)
  rw [isBlank, Bool.or_eq_false_iff, beq_eq_false_iff_ne, beq_eq_false_iff_ne]
  constructor
  · rintro rfl
    exact absurd hc (by decide)
  · rintro rfl
    exact absurd hc (by decide)

theorem exists_valueText_eq (capital : Bool) (s : Setting) :
    ∃ c cs, valueText capital s = c :: cs ∧ isBlank c = false := by
  cases s with
  | text f v => exact ⟨_, _, rfl, by decide⟩
  | count f v => exact exists_decimal_eq v.toNat
  | number f v => exact exists_decimal_eq v.toInt
  | switch f v => cases v <;> exact ⟨_, _, rfl, by decide⟩
  | list f vs => cases vs <;> exact ⟨_, _, rfl, by decide⟩

/-- The row of a setting. -/
def row (capital : Bool) (s : Setting) : Row where
  key := s.field.key.toList
  text := valueText capital s
  value := valueOf s
  isBareKey := isBareKey_key s.field
  starts := exists_valueText_eq capital s
  reads := value?_valueText 78 s

theorem document_eq_rows (settings : List Setting) :
    document capital settings = (settings.map (row capital)).flatMap Row.line := by
  rw [List.flatMap_map]
  rfl

theorem restOfLine?_newline (rest : List Char) : restOfLine? ('\n' :: rest) = some rest := by
  have hblanks : skipBlanks ('\n' :: rest) = '\n' :: rest :=
    @skipBlanks_append [] (by simp) _ (by decide) rest
  rw [restOfLine?, hblanks]
  rfl

theorem lines?_pair {c : Char} {cs text next rest : List Char} {p : List String × Value}
    (hstart : skipLines text = c :: cs) (hc : isBareKeyChar c = true)
    (hpair : pair? (value? deepest) (c :: cs) = some (p, next))
    (hnext : restOfLine? next = some rest) (hlt : rest.length < text.length) :
    lines? text = (lines? rest).map fun (pairs, sections) => (p :: pairs, sections) := by
  rw [lines?, hstart]
  split
  · next heq => simp at heq
  · next heq => exact absurd (List.cons.inj heq).1 (ne_of_isBareKeyChar hc (by decide))
  · next heq => exact absurd (List.cons.inj heq).1 (ne_of_isBareKeyChar hc (by decide))
  · cases hlines : lines? rest <;> simp [hpair, hnext, hlt, hlines]

theorem lines?_nil : lines? [] = some ([], []) := by
  have hstart : skipLines [] = [] := by
    rw [skipLines]
    rfl
  rw [lines?, hstart]

/-- Lines are read as their pairs, in their order, and what stands behind them as by itself. -/
theorem lines?_rows_append (rows : List Row) (rest : List Char) :
    lines? (rows.flatMap Row.line ++ rest) = (lines? rest).map fun (pairs, sections) =>
      (((rows.map Row.pair).map fun p => ([p.1], p.2)) ++ pairs, sections) := by
  induction rows with
  | nil => simp
  | cons r rows ih =>
      have hpair := r.pair?_line (rows.flatMap Row.line ++ rest)
      obtain ⟨c, cs, hline, hc⟩ := r.exists_line_eq
      rw [List.flatMap_cons, List.append_assoc]
      rw [hline, List.cons_append] at hpair ⊢
      rw [lines?_pair (skipLines_cons (isVisible_of_isBareKeyChar hc) _) hc hpair
        (restOfLine?_newline _)
        (by simp only [List.length_cons, List.length_append]; omega), ih]
      cases lines? rest <;> rfl

theorem lines?_rows (rows : List Row) : lines? (rows.flatMap Row.line) =
    some ((rows.map Row.pair).map fun p => ([p.1], p.2), []) := by
  simpa [lines?_nil] using lines?_rows_append rows []

theorem head?_rows_append (rows : List Row) {rest : List Char} (h : rest.head? ≠ some '\ufeff') :
    (rows.flatMap Row.line ++ rest).head? ≠ some '\ufeff' := by
  cases rows with
  | nil => exact h
  | cons r rows =>
      obtain ⟨c, cs, hline, hc⟩ := r.exists_line_eq
      rw [List.flatMap_cons, hline]
      simpa using ne_of_isBareKeyChar hc (show isBareKeyChar '\ufeff' = false by decide)

theorem head?_rows (rows : List Row) : (rows.flatMap Row.line).head? ≠ some '\ufeff' := by
  simpa using head?_rows_append rows (show ([] : List Char).head? ≠ some '\ufeff' by simp)

end Lines

end SyncPlan.Toml
