import SyncPlan.Proofs.Yaml.Rows

/-!
Settings as lines of a block mapping. A text stands between quotes, or as it is if it has only
letters, digits and a few marks; every other value is written in one way. As a row each line gives
the setting that it was written for.
-/

namespace SyncPlan.Yaml
open Text

/-- A character that a text begins with where it is written as it is. -/
def beginsText (c : Char) : Bool := c.isAlphanum || c == '.' || c == '/' || c == '~'

def isTextChar (c : Char) : Bool := beginsText c || c == '+' || c == '-' || c == '_'

/-- Whether a value can be written as it is. -/
def isBare : Setting → Bool
  | .text _ v => v.toList.head?.any beginsText && v.toList.all isTextChar
  | _ => true

/-- A setting, and whether its text stands between quotes, as every text can and most must. -/
structure Line where
  setting : Setting
  quoted : Bool
  fits : (quoted || isBare setting) = true

namespace Line

def value (capital : Bool) (l : Line) : List Char :=
  match l.setting with
  | .text _ v => if l.quoted then between capital v else v.toList
  | .count _ v => decimal v.toNat
  | .number _ v => decimal v.toInt
  | .switch _ v => (if v then "true" else "false").toList
  | .list _ vs => arrayText capital vs

def text (capital : Bool) (l : Line) : List Char :=
  l.setting.field.key.toList ++ ':' :: ' ' :: (l.value capital ++ ['\n'])

end Line

/-- A document with a line for each setting. -/
def document (capital : Bool) (lines : List Line) : List Char := lines.flatMap (Line.text capital)

example : String.ofList (document false [⟨.text .fileMode "0644", false, rfl⟩,
      ⟨.text .target "a b\\ä", true, rfl⟩, ⟨.list .extensions ["\"", "😀"], false, rfl⟩]) =
    "fs_file_perm: 0644\ntarget: \"a b\\\\\\u00e4\"\n" ++
      "filter_ext: [\"\\\"\", \"\\U0001f600\"]\n" := by
  decide

section Words

theorem isIndicator_of_beginsText {c : Char} (h : beginsText c = true) :
    Scan.isIndicator c = false := by
  rw [Bool.eq_false_iff]
  intro hindicator
  have hall : ("-?:,[]\x7b\x7d#&*!|>'\"%@\x60".toList.all fun d => !beginsText d) = true := by
    decide
  have hmem : c ∈ "-?:,[]\x7b\x7d#&*!|>'\"%@\x60".toList := by
    simpa [Scan.isIndicator] using hindicator
  have hnot := List.all_eq_true.1 hall c hmem
  simp [h] at hnot

theorem isWordChar_of_isTextChar {c : Char} (h : isTextChar c = true) : IsWordChar c := by
  have hne {d : Char} (hd : isTextChar d = false) : c ≠ d := by
    rintro rfl
    rw [hd] at h
    simp at h
  refine ⟨?_, hne (by decide), hne (by decide)⟩
  simp only [isTextChar, beginsText, Bool.or_eq_true, beq_iff_eq] at h
  rcases h with (((((halnum | rfl) | rfl) | rfl) | rfl) | rfl) | rfl
  · exact isPrintable_of_isAlphanum halnum
  all_goals decide

theorem isWord_of_isBare {f : TextField} {v : String} (h : isBare (.text f v) = true) :
    IsWord v.toList := by
  rw [isBare, Bool.and_eq_true, List.all_eq_true] at h
  refine ⟨fun c hc => isWordChar_of_isTextChar (h.2 c hc), ?_⟩
  cases hv : v.toList with
  | nil => simp [hv] at h
  | cons c cs =>
      have hbegins : beginsText c = true := by simpa [hv] using h.1
      exact ⟨c, cs, rfl, .inl (isIndicator_of_beginsText hbegins)⟩

/-- A word of letters, digits and lines is a key, unless it is too long for one. -/
theorem isKey_of_isAlphanum {word : List Char} (hne : word ≠ [])
    (h : ∀ c ∈ word, c.isAlphanum = true ∨ c = '_') (hlength : word.length ≤ 1024) :
    IsKey word := by
  have htext : ∀ c ∈ word, isTextChar c = true := by
    intro c hc
    cases h c hc with
    | inl halnum => simp [isTextChar, beginsText, halnum]
    | inr hline => simp [isTextChar, hline]
  obtain ⟨c, cs, rfl⟩ := List.exists_cons_of_ne_nil hne
  have hindicator : Scan.isIndicator c = false := by
    cases h c List.mem_cons_self with
    | inl halnum => exact isIndicator_of_beginsText (by simp [beginsText, halnum])
    | inr hline => exact hline ▸ by decide
  refine ⟨⟨fun d hd => isWordChar_of_isTextChar (htext d hd), c, cs, rfl, .inl hindicator⟩, ?_,
    hlength⟩
  intro d hd
  obtain rfl : c = d := Option.some.inj hd
  constructor
  · rintro rfl
    exact absurd (h '-' List.mem_cons_self) (by decide)
  · rintro rfl
    exact absurd (h '.' List.mem_cons_self) (by decide)

theorem length_key_le (f : Field) : f.key.toList.length ≤ 1024 := by
  rcases f with f | f | f | f | f <;> cases f <;> decide

theorem isKey_key (f : Field) : IsKey f.key.toList :=
  isKey_of_isAlphanum (toList_key_ne_nil f)
    (fun c hc => isAlphanum_of_isKeyChar (isKeyChar_of_mem_key f c hc)) (length_key_le f)

theorem beginsText_of_isDigit {c : Char} (h : IsDigit 10 c) : beginsText c = true := by
  simp [beginsText, Char.isAlphanum, isDigit_iff.2 h]

theorem isWord_decimal (n : Int) : IsWord (decimal n) := by
  have hword : ∀ c ∈ decimal n, IsWordChar c := by
    intro c hc
    apply isWordChar_of_isTextChar
    cases mem_decimal hc with
    | inl hminus => exact hminus ▸ rfl
    | inr hdigit => simp [isTextChar, beginsText_of_isDigit hdigit]
  refine ⟨hword, ?_⟩
  cases decimal_cases n with
  | inl hnatural =>
      obtain ⟨k, -, hk⟩ := hnatural
      obtain ⟨c, cs, hcs⟩ := List.exists_cons_of_ne_nil (isRun_digits k).1
      have hdigit := (isRun_digits k).2 c (hcs ▸ List.mem_cons_self)
      exact ⟨c, cs, hk.trans hcs, .inl (isIndicator_of_beginsText (beginsText_of_isDigit hdigit))⟩
  | inr hnegative =>
      obtain ⟨k, -, -, hk⟩ := hnegative
      exact ⟨'-', digits k, hk, .inr ⟨rfl, (isRun_digits k).1⟩⟩

theorem isWord_boolean (b : Bool) : IsWord (if b then "true" else "false").toList := by
  have hall : (if b then "true" else "false").toList.all isTextChar = true := by
    cases b <;> decide
  refine ⟨fun c hc => isWordChar_of_isTextChar (List.all_eq_true.1 hall c hc), ?_⟩
  cases b with
  | false => exact ⟨'f', ['a', 'l', 's', 'e'], rfl, .inl (by decide)⟩
  | true => exact ⟨'t', ['r', 'u', 'e'], rfl, .inl (by decide)⟩

end Words

section Values

theorem isWhole_digits (n : Nat) : IsWhole (digits n) n := by
  have hzero : digits n = ['0'] ∨ (digits n).head? ≠ some '0' := by
    cases digits_cases n with
    | inl hzero => exact .inl hzero
    | inr hpositive =>
        obtain ⟨c, cs, hdigits, hne, -⟩ := hpositive
        exact .inr (by simpa [hdigits] using hne)
  have hwhole := IsWhole.decimal (isRun_digits n) hzero
  rwa [valueOf_digits] at hwhole

theorem isUnsigned_decimal (n : Nat) : IsUnsigned (decimal n) n := by
  rw [decimal_natCast]
  exact .bare (isWhole_digits n)

/-- An integer in base ten is spelled as one, with or without its sign. -/
theorem isInteger_decimal (n : Int) : IsInteger (decimal n) n := by
  cases decimal_cases n with
  | inl hnatural =>
      obtain ⟨k, rfl, hk⟩ := hnatural
      exact hk ▸ .unsigned (.bare (isWhole_digits k))
  | inr hnegative =>
      obtain ⟨k, -, rfl, hk⟩ := hnegative
      exact hk ▸ .minus (isWhole_digits k)

theorem eq_of_isInteger_decimal {n m : Int} (h : IsInteger (decimal n) m) : m = n := by
  have hm := integer?_eq_some_iff.2 h
  rw [integer?_eq_some_iff.2 (isInteger_decimal n)] at hm
  exact (Option.some.inj hm).symm

end Values

namespace Line

/-- The value of a line, as it is written. -/
def written : Line → Written
  | ⟨.text _ v, true, _⟩ => .quoted v
  | ⟨.text f v, false, h⟩ => .word v.toList (@isWord_of_isBare f v h)
  | ⟨.count _ v, _, _⟩ => .word (decimal v.toNat) (isWord_decimal v.toNat)
  | ⟨.number _ v, _, _⟩ => .word (decimal v.toInt) (isWord_decimal v.toInt)
  | ⟨.switch _ v, _, _⟩ => .word (if v then "true" else "false").toList (isWord_boolean v)
  | ⟨.list _ vs, _, _⟩ => .list vs

def row (l : Line) : Row := ⟨l.setting.field.key.toList, l.written, isKey_key l.setting.field⟩

theorem text_eq_row (capital : Bool) (l : Line) : l.text capital = l.row.text capital := by
  obtain ⟨setting, quoted, hfits⟩ := l
  cases setting with
  | text f v => cases quoted <;> rfl
  | count f v | number f v | switch f v | list f vs => rfl

/-- A line gives the setting that it was written for. -/
theorem gives_row (l : Line) : l.row.pair.1 = l.setting.field.key ∧
    Gives l.row.pair.2 l.setting := by
  refine ⟨String.ofList_toList, ?_⟩
  obtain ⟨setting, quoted, hfits⟩ := l
  cases setting with
  | text f v =>
      cases quoted with
      | true => exact .text
      | false =>
          change Gives (.scalar ⟨none, none, .plain, String.ofList v.toList⟩) (.text f v)
          rw [String.ofList_toList]
          exact .text
  | count f v => exact .count (.inl rfl) (by simpa using isUnsigned_decimal v.toNat)
  | number f v => exact .number (.inl rfl) (by simpa using isInteger_decimal v.toInt)
  | switch f v => exact .switch (.inl rfl) (by cases v <;> decide)
  | list f vs =>
      have hlist : Gives (Written.list vs).node (.list f _) := .list
      simp only [List.map_map, Function.comp_def, List.map_id'] at hlist
      exact hlist

end Line

theorem document_eq_rows (capital : Bool) (lines : List Line) :
    document capital lines = (lines.map Line.row).flatMap (Row.text capital) := by
  have htext : Line.text capital = fun l => l.row.text capital :=
    funext (Line.text_eq_row capital)
  rw [document, htext, List.flatMap_map]

end SyncPlan.Yaml
