import SyncPlan.Proofs.Json.Grammar

/-!
A reader of JSON documents. It accepts every document of the grammar and gives the value that the
grammar gives it, so that a document has one value.
-/

namespace SyncPlan.Datum
open Text

def skip (cs : List Char) : List Char := cs.dropWhile isBlank

/-- The digits at the front, at least one. -/
def digits? (cs : List Char) : Option (List Char × List Char) :=
  if (cs.takeWhile Char.isDigit).isEmpty then none
  else some (cs.takeWhile Char.isDigit, cs.dropWhile Char.isDigit)

def fraction? : List Char → Option (ℚ × List Char)
  | '.' :: cs =>
    (digits? cs).map fun (ds, rest) => ((valueOf 10 ds : ℚ) / 10 ^ ds.length, rest)
  | cs => some (0, cs)

def power? : List Char → Option (ℤ × List Char)
  | '+' :: cs => (digits? cs).map fun (ds, rest) => ((valueOf 10 ds : ℤ), rest)
  | '-' :: cs => (digits? cs).map fun (ds, rest) => (-(valueOf 10 ds : ℤ), rest)
  | cs => (digits? cs).map fun (ds, rest) => ((valueOf 10 ds : ℤ), rest)

def exponent? : List Char → Option (ℤ × List Char)
  | [] => some (0, [])
  | c :: cs => if isExponentMark c then power? cs else some (0, c :: cs)

def magnitude? (cs : List Char) : Option (ℚ × List Char) :=
  (digits? cs).bind fun (whole, cs) =>
    if whole.head? = some '0' ∧ whole ≠ ['0'] then none
    else (fraction? cs).bind fun (f, cs) =>
      (exponent? cs).map fun (e, rest) => ((valueOf 10 whole + f) * 10 ^ e, rest)

def number? : List Char → Option (ℚ × List Char)
  | '-' :: cs => (magnitude? cs).map fun (q, rest) => (-q, rest)
  | cs => magnitude? cs

def code? (cs : List Char) : Option (ℕ × List Char) :=
  if cs.length < 4 then none else (natural? 16 (cs.take 4)).map fun n => (n, cs.drop 4)

/-- The character of a code, behind the mark of the code. -/
def coded? (cs : List Char) : Option (Char × List Char) :=
  (code? cs).bind fun (m, cs) =>
    if isLeading m then
      match cs with
      | '\\' :: 'u' :: cs => (code? cs).bind fun (n, rest) =>
        if isTrailing n then some (Char.ofNat (pairValue m n), rest) else none
      | _ => none
    else if isTrailing m then none
    else some (Char.ofNat m, cs)

def char? : List Char → Option (Char × List Char)
  | '\\' :: 'u' :: cs => coded? cs
  | '\\' :: mark :: cs => (escapes.lookup mark).map fun c => (c, cs)
  | c :: cs => if c == '"' || c.toNat < 0x20 then none else some (c, cs)
  | [] => none

/-- The text up to the closing quote. -/
def text? : ℕ → List Char → Option (List Char × List Char)
  | 0, _ => none
  | _ + 1, '"' :: rest => some ([], rest)
  | n + 1, cs =>
    (char? cs).bind fun (c, cs) => (text? n cs).map fun (text, rest) => (c :: text, rest)

def string? (n : ℕ) : List Char → Option (String × List Char)
  | '"' :: cs => (text? n cs).map fun (text, rest) => (String.ofList text, rest)
  | _ => none

def word? (cs : List Char) : Option (Datum × List Char) :=
  (words.lookup (cs.takeWhile Char.isAlpha)).map fun v => (v, cs.dropWhile Char.isAlpha)

mutual

def value? : ℕ → List Char → Option (Datum × List Char)
  | 0, _ => none
  | n + 1, cs =>
    match cs with
    | [] => none
    | c :: rest =>
      if c = '"' then (string? n cs).map fun (s, rest) => (.string s, rest)
      else if c = '[' then
        match skip rest with
        | ']' :: rest => some (.array [], rest)
        | _ => (items? n rest).map fun (vs, rest) => (.array vs, rest)
      else if c = '\x7b' then
        match skip rest with
        | '\x7d' :: rest => some (.object [], rest)
        | _ => (members? n rest).map fun (ms, rest) => (.object ms, rest)
      else if c.isAlpha then word? cs
      else (number? cs).map fun (q, rest) => (.number q, rest)

def items? : ℕ → List Char → Option (List Datum × List Char)
  | 0, _ => none
  | n + 1, cs =>
    (value? n (skip cs)).bind fun (v, cs) =>
      match skip cs with
      | ',' :: cs => (items? n cs).map fun (vs, rest) => (v :: vs, rest)
      | ']' :: rest => some ([v], rest)
      | _ => none

def members? : ℕ → List Char → Option (List (String × Datum) × List Char)
  | 0, _ => none
  | n + 1, cs =>
    (string? n (skip cs)).bind fun (k, cs) =>
      match skip cs with
      | ':' :: cs => (value? n (skip cs)).bind fun (v, cs) =>
        match skip cs with
        | ',' :: cs => (members? n cs).map fun (ms, rest) => ((k, v) :: ms, rest)
        | '\x7d' :: rest => some ([(k, v)], rest)
        | _ => none
      | _ => none

end

/-- The value of a document. -/
def read? (text : String) : Option Datum :=
  (value? (2 * text.length + 1) (skip text.toList)).bind fun (v, rest) =>
    if (skip rest).isEmpty then some v else none

/-- What may stand behind a value. -/
def isEnd (c : Char) : Bool := isBlank c || c == ',' || c == ']' || c == '\x7d'

/-- A rest of a text that takes nothing from the value in front of it. -/
def Ends (rest : List Char) : Prop := ∀ c ∈ rest.head?, isEnd c = true

theorem ends_nil : Ends [] := by simp [Ends]

theorem ends_cons {c : Char} (h : isEnd c = true) (rest : List Char) : Ends (c :: rest) := by
  simpa [Ends] using h

theorem ends_append {blank rest : List Char} (h : IsBlank blank) (hrest : Ends rest) :
    Ends (blank ++ rest) := by
  cases blank with
  | nil => exact hrest
  | cons c more => exact ends_cons (by simp [isEnd, h c List.mem_cons_self]) _

section Numbers

variable {rest : List Char}

theorem facts_of_isEnd {c : Char} (h : isEnd c = true) :
    c.isDigit = false ∧ c.isAlpha = false ∧ c ≠ '.' ∧ isExponentMark c = false := by
  simp only [isEnd, isBlank, Bool.or_eq_true, beq_iff_eq] at h
  rcases h with ((((((rfl | rfl) | rfl) | rfl) | rfl) | rfl) | rfl) <;> decide

theorem digits?_append {digits : List Char} (h : IsRun 10 digits)
    (hrest : ∀ c ∈ rest.head?, c.isDigit = false) :
    digits? (digits ++ rest) = some (digits, rest) := by
  have hall : ∀ c ∈ digits, c.isDigit = true := fun c hc => isDigit_iff.2 (h.2 c hc)
  have htake : rest.takeWhile Char.isDigit = [] := by
    cases rest with
    | nil => rfl
    | cons c more => rw [List.takeWhile_cons_of_neg (by simp [hrest c rfl])]
  have hdrop : rest.dropWhile Char.isDigit = rest := by
    cases rest with
    | nil => rfl
    | cons c more => rw [List.dropWhile_cons_of_neg (by simp [hrest c rfl])]
  rw [digits?, List.takeWhile_append_of_pos hall, List.dropWhile_append_of_pos hall, htake, hdrop,
    List.append_nil, if_neg (by simpa using h.1)]

/-- A run of digits has no sign in front. -/
theorem ne_sign_of_isRun {digits : List Char} (h : IsRun 10 digits) {sign : Char}
    (hsign : sign.isDigit = false) (cs : List Char) : digits ++ rest ≠ sign :: cs := by
  obtain ⟨c, more, rfl⟩ := List.exists_cons_of_ne_nil h.1
  intro heq
  obtain rfl := (List.cons.inj heq).1
  have hdigit := isDigit_iff.2 (h.2 c List.mem_cons_self)
  rw [hsign] at hdigit
  exact absurd hdigit (by decide)

theorem exponent?_append {cs : List Char} {e : ℤ} (h : SpellsExponent cs e) (hrest : Ends rest) :
    exponent? (cs ++ rest) = some (e, rest) := by
  have hdigit : ∀ c ∈ rest.head?, c.isDigit = false :=
    fun c hc => (facts_of_isEnd (hrest c hc)).1
  cases h with
  | none =>
      cases rest with
      | nil => rfl
      | cons c more =>
          have hmark := (facts_of_isEnd (hrest c rfl)).2.2.2
          rw [List.nil_append, exponent?, if_neg (by simp [hmark])]
  | unsigned hmark hrun =>
      rw [List.cons_append, exponent?, if_pos hmark, power?, digits?_append hrun hdigit]
      · rfl
      · exact ne_sign_of_isRun hrun (by decide)
      · exact ne_sign_of_isRun hrun (by decide)
  | positive hmark hrun =>
      rw [List.cons_append, exponent?, if_pos hmark, List.cons_append, power?,
        digits?_append hrun hdigit]
      rfl
  | negative hmark hrun =>
      rw [List.cons_append, exponent?, if_pos hmark, List.cons_append, power?,
        digits?_append hrun hdigit]
      rfl

theorem fraction?_append {cs : List Char} {f : ℚ} (h : SpellsFraction cs f)
    (hrest : ∀ c ∈ rest.head?, c.isDigit = false ∧ c ≠ '.') :
    fraction? (cs ++ rest) = some (f, rest) := by
  cases h with
  | none =>
      rw [List.nil_append, fraction?.eq_def]
      split
      · exact absurd rfl (hrest '.' rfl).2
      · rfl
  | some hrun =>
      rw [List.cons_append, fraction?, digits?_append hrun fun c hc => (hrest c hc).1]
      rfl

/-- Neither a fraction nor an exponent begins with a digit. -/
theorem head?_exponent {cs : List Char} {e : ℤ} (h : SpellsExponent cs e) (hrest : Ends rest) :
    ∀ c ∈ (cs ++ rest).head?, c.isDigit = false ∧ c ≠ '.' := by
  have hmarked {mark : Char} (hmark : isExponentMark mark = true) :
      mark.isDigit = false ∧ mark ≠ '.' := by
    simp only [isExponentMark, Bool.or_eq_true, beq_iff_eq] at hmark
    rcases hmark with rfl | rfl <;> decide
  intro c hc
  cases h with
  | none =>
      have hfacts := facts_of_isEnd (hrest c hc)
      exact ⟨hfacts.1, hfacts.2.2.1⟩
  | unsigned hmark | positive hmark | negative hmark =>
      obtain rfl := Option.some.inj hc
      exact hmarked hmark

theorem magnitude?_append {cs : List Char} {q : ℚ} (h : SpellsMagnitude cs q)
    (hrest : Ends rest) : magnitude? (cs ++ rest) = some (q, rest) := by
  cases h with
  | parts hrun hzero hfraction hexponent =>
      next whole fraction exponent f e =>
      have hhead := head?_exponent hexponent hrest
      have hfirst : ∀ c ∈ (fraction ++ (exponent ++ rest)).head?, c.isDigit = false := by
        cases hfraction with
        | none => exact fun c hc => (hhead c hc).1
        | some _ =>
            intro c hc
            obtain rfl := Option.some.inj hc
            decide
      have hno : ¬(whole.head? = some '0' ∧ whole ≠ ['0']) := by
        rintro ⟨hfront, hne⟩
        exact hzero.elim hne fun hother => hother hfront
      rw [List.append_assoc, List.append_assoc, magnitude?, digits?_append hrun hfirst,
        Option.bind_some]
      simp only [if_neg hno, fraction?_append hfraction hhead, Option.bind_some,
        exponent?_append hexponent hrest, Option.map_some]

theorem number?_append {cs : List Char} {q : ℚ} (h : SpellsNumber cs q) (hrest : Ends rest) :
    number? (cs ++ rest) = some (q, rest) := by
  cases h with
  | unsigned hmagnitude =>
      rw [number?, magnitude?_append hmagnitude hrest]
      cases hmagnitude with
      | parts hrun =>
          rw [List.append_assoc]
          exact ne_sign_of_isRun hrun (by decide)
  | negative hmagnitude =>
      rw [List.cons_append, number?, magnitude?_append hmagnitude hrest]
      rfl

end Numbers

section Strings

theorem code?_append {cs : List Char} {n : ℕ} (h : IsCode cs n) (rest : List Char) :
    code? (cs ++ rest) = some (n, rest) := by
  have htake : (cs ++ rest).take 4 = cs := by rw [← h.1, List.take_left]
  have hdrop : (cs ++ rest).drop 4 = rest := by rw [← h.1, List.drop_left]
  rw [code?, htake, hdrop, h.2, List.length_append, if_neg (by have := h.1; omega)]
  rfl

/-- No character has a code that is half of a pair. -/
theorem not_half (c : Char) : isLeading c.toNat = false ∧ isTrailing c.toNat = false := by
  have hvalid := c.valid
  have hval : c.val.toNat = c.toNat := rfl
  rw [UInt32.isValidChar, hval, Nat.isValidChar] at hvalid
  simp only [isLeading, isTrailing, Bool.and_eq_false_iff, decide_eq_false_iff_not]
  omega

theorem char?_append {cs : List Char} {c : Char} (h : SpellsChar cs c) (rest : List Char) :
    char? (cs ++ rest) = some (c, rest) := by
  cases h with
  | plain hlow hquote hbackslash =>
      rw [List.singleton_append, char?, if_neg (by simp [hquote, hlow])]
      · exact fun cs heq _ => hbackslash heq
      · exact fun mark cs heq _ => hbackslash heq
  | escape hmark =>
      rw [List.cons_append, List.singleton_append, char?, hmark]
      · rfl
      · intro hu
        have hnone : escapes.lookup 'u' = none := by decide
        rw [hu, hnone] at hmark
        exact absurd hmark (by simp)
  | code hcode =>
      have hhalf := not_half c
      rw [List.cons_append, List.cons_append, char?, coded?, code?_append hcode]
      simp [hhalf.1, hhalf.2]
  | pair hfirst hsecond hleading htrailing hvalue =>
      rw [List.append_assoc, List.cons_append, List.cons_append, char?, coded?,
        code?_append hfirst, Option.bind_some]
      simp only [hleading, if_true, List.cons_append, code?_append hsecond, Option.bind_some,
        htrailing, ← hvalue, Char.ofNat_toNat]

theorem ne_quote_of_spellsChar {cs : List Char} {c : Char} (h : SpellsChar cs c) :
    ∃ d more, cs = d :: more ∧ d ≠ '"' := by
  cases h with
  | plain _ hquote _ => exact ⟨_, _, rfl, hquote⟩
  | escape _ | code _ | pair _ _ _ _ _ => exact ⟨_, _, rfl, by decide⟩

theorem text?_append {cs text : List Char} (h : SpellsText cs text) (rest : List Char) {n : ℕ}
    (hn : cs.length < n) : text? n (cs ++ '"' :: rest) = some (text, rest) := by
  induction h generalizing n with
  | nil =>
      obtain ⟨k, rfl⟩ := Nat.exists_eq_add_one_of_ne_zero (Nat.ne_zero_of_lt hn)
      rfl
  | cons hchar _ ih =>
      next front back text c _ =>
      obtain ⟨k, rfl⟩ := Nat.exists_eq_add_one_of_ne_zero (Nat.ne_zero_of_lt hn)
      obtain ⟨d, more, hfront, hquote⟩ := ne_quote_of_spellsChar hchar
      have hlength : back.length < k := by
        rw [hfront, List.length_append, List.length_cons] at hn
        omega
      rw [List.append_assoc, text?, char?_append hchar]
      · simp only [Option.bind_some, ih hlength, Option.map_some]
      · rw [hfront]
        exact fun rest heq => hquote (List.cons.inj heq).1

theorem string?_append {cs : List Char} {s : String} (h : SpellsString cs s) (rest : List Char)
    {n : ℕ} (hn : cs.length ≤ n) : string? n (cs ++ rest) = some (s, rest) := by
  cases h with
  | quoted htext =>
      rw [List.length_append, List.length_cons] at hn
      rw [List.append_assoc, List.cons_append, string?, List.singleton_append,
        text?_append htext rest (by omega)]
      simp

end Strings

section Values

variable {rest : List Char} {n : ℕ}

theorem skip_append {blank : List Char} (h : IsBlank blank) (rest : List Char) :
    skip (blank ++ rest) = skip rest := by
  rw [skip, skip, List.dropWhile_append_of_pos h]

theorem skip_cons {c : Char} (h : isBlank c = false) (rest : List Char) :
    skip (c :: rest) = c :: rest := List.dropWhile_cons_of_neg (by simp [h])

theorem takeWhile_isAlpha {cs : List Char} (h : ∀ c ∈ cs, c.isAlpha = true) (hrest : Ends rest) :
    (cs ++ rest).takeWhile Char.isAlpha = cs ∧ (cs ++ rest).dropWhile Char.isAlpha = rest := by
  rw [List.takeWhile_append_of_pos h, List.dropWhile_append_of_pos h]
  cases rest with
  | nil => simp
  | cons c more => simp [(facts_of_isEnd (hrest c rfl)).2.1]

/-- A word is made of letters and found by them. -/
theorem isAlpha_of_word {cs : List Char} {v : Datum} (h : (cs, v) ∈ words) :
    cs ≠ [] ∧ (∀ c ∈ cs, c.isAlpha = true) ∧ words.lookup cs = some v := by
  simp only [words, List.mem_cons, List.not_mem_nil, or_false, Prod.mk.injEq] at h
  rcases h with ⟨rfl, rfl⟩ | ⟨rfl, rfl⟩ | ⟨rfl, rfl⟩ <;>
    exact ⟨List.cons_ne_nil _ _, List.all_eq_true.1 (by decide), rfl⟩

theorem word?_append {cs : List Char} {v : Datum} (h : (cs, v) ∈ words) (hrest : Ends rest) :
    word? (cs ++ rest) = some (v, rest) := by
  obtain ⟨-, hletters, hlookup⟩ := isAlpha_of_word h
  obtain ⟨htake, hdrop⟩ := takeWhile_isAlpha hletters hrest
  rw [word?, htake, hdrop, hlookup, Option.map_some]

/-- What neither a value nor a member begins with. -/
def closes (c : Char) : Bool := isBlank c || c == ']' || c == '\x7d'

theorem facts_of_isAlpha {c : Char} (h : c.isAlpha = true) :
    c ≠ '"' ∧ c ≠ '[' ∧ c ≠ '\x7b' ∧ closes c = false := by
  have hne (d : Char) (hd : d.isAlpha = false) : c ≠ d := by
    intro heq
    rw [heq, hd] at h
    exact absurd h (by decide)
  refine ⟨hne _ rfl, hne _ rfl, hne _ rfl, ?_⟩
  simp [closes, isBlank, hne]

theorem facts_of_number {cs : List Char} {q : ℚ} (h : SpellsNumber cs q) :
    ∃ c more, cs = c :: more ∧ c ≠ '"' ∧ c ≠ '[' ∧ c ≠ '\x7b' ∧ c.isAlpha = false ∧
      closes c = false := by
  have hall : ∀ n < 58, 48 ≤ n → Char.ofNat n ≠ '"' ∧ Char.ofNat n ≠ '[' ∧
      Char.ofNat n ≠ '\x7b' ∧ (Char.ofNat n).isAlpha = false ∧ closes (Char.ofNat n) = false := by
    decide
  cases h with
  | unsigned hmagnitude =>
      cases hmagnitude with
      | parts hrun =>
          obtain ⟨c, more, rfl⟩ := List.exists_cons_of_ne_nil hrun.1
          have hdigit := hrun.2 c List.mem_cons_self
          have hfacts := hall c.toNat hdigit.2 hdigit.1
          rw [Char.ofNat_toNat] at hfacts
          exact ⟨c, _, rfl, hfacts⟩
  | negative _ => exact ⟨'-', _, rfl, by decide⟩

theorem head_of_spells {cs : List Char} {v : Datum} (h : Spells cs v) :
    ∃ c more, cs = c :: more ∧ closes c = false := by
  cases h with
  | word hword =>
      obtain ⟨hne, hletters, -⟩ := isAlpha_of_word hword
      obtain ⟨c, more, rfl⟩ := List.exists_cons_of_ne_nil hne
      exact ⟨c, more, rfl, (facts_of_isAlpha (hletters c List.mem_cons_self)).2.2.2⟩
  | number hnumber =>
      obtain ⟨c, more, rfl, -, -, -, -, hcloses⟩ := facts_of_number hnumber
      exact ⟨c, more, rfl, hcloses⟩
  | string hstring =>
      cases hstring
      exact ⟨_, _, rfl, by decide⟩
  | emptyArray _ | array _ | emptyObject _ | object _ => exact ⟨_, _, rfl, by decide⟩

theorem not_isBlank_of_closes {c : Char} (h : closes c = false) :
    isBlank c = false ∧ c ≠ ']' ∧ c ≠ '\x7d' := by
  simpa [closes, and_assoc] using h

theorem skip_of_spells {cs : List Char} {v : Datum} (h : Spells cs v) (rest : List Char) :
    skip (cs ++ rest) = cs ++ rest := by
  obtain ⟨c, more, rfl, hcloses⟩ := head_of_spells h
  exact skip_cons (not_isBlank_of_closes hcloses).1 _

theorem skip_of_string {cs : List Char} {s : String} (h : SpellsString cs s) (rest : List Char) :
    skip (cs ++ rest) = cs ++ rest := skip_of_spells (.string h) rest

/-- What stands first in a list of values does not close it. -/
theorem skip_item {cs : List Char} {v : Datum} (h : SpellsItem cs v) (rest : List Char) :
    ∃ c more, skip (cs ++ rest) = c :: more ∧ closes c = false := by
  cases h with
  | blanks hbefore hvalue _ =>
      obtain ⟨c, more, hcs, hcloses⟩ := head_of_spells hvalue
      rw [List.append_assoc, skip_append hbefore, List.append_assoc, skip_of_spells hvalue, hcs]
      exact ⟨c, _, rfl, hcloses⟩

theorem skip_items {cs : List Char} {vs : List Datum} (h : SpellsItems cs vs) (rest : List Char) :
    ∃ c more, skip (cs ++ rest) = c :: more ∧ closes c = false := by
  cases h with
  | last hitem => exact skip_item hitem rest
  | more hitem _ => exact List.append_assoc .. ▸ skip_item hitem _

theorem skip_member {cs : List Char} {m : String × Datum} (h : SpellsMember cs m)
    (rest : List Char) : ∃ c more, skip (cs ++ rest) = c :: more ∧ closes c = false := by
  cases h with
  | pair hbefore hkey _ _ =>
      rw [List.append_assoc, skip_append hbefore, List.append_assoc, skip_of_string hkey]
      cases hkey
      exact ⟨_, _, rfl, by decide⟩

theorem skip_members {cs : List Char} {ms : List (String × Datum)} (h : SpellsMembers cs ms)
    (rest : List Char) : ∃ c more, skip (cs ++ rest) = c :: more ∧ closes c = false := by
  cases h with
  | last hmember => exact skip_member hmember rest
  | more hmember _ => exact List.append_assoc .. ▸ skip_member hmember _

theorem value?_word {cs : List Char} {v : Datum} (h : (cs, v) ∈ words) (hrest : Ends rest) :
    value? (n + 1) (cs ++ rest) = some (v, rest) := by
  obtain ⟨hne, hletters, -⟩ := isAlpha_of_word h
  have hword := word?_append h hrest
  obtain ⟨c, more, rfl⟩ := List.exists_cons_of_ne_nil hne
  have hletter := hletters c List.mem_cons_self
  obtain ⟨hquote, harray, hobject, -⟩ := facts_of_isAlpha hletter
  rw [List.cons_append] at hword ⊢
  rw [value?, if_neg hquote, if_neg harray, if_neg hobject, if_pos hletter, hword]

theorem value?_number {cs : List Char} {q : ℚ} (h : SpellsNumber cs q) (hrest : Ends rest) :
    value? (n + 1) (cs ++ rest) = some (.number q, rest) := by
  have hnumber := number?_append h hrest
  obtain ⟨c, more, rfl, hquote, harray, hobject, hletter, -⟩ := facts_of_number h
  rw [List.cons_append] at hnumber ⊢
  rw [value?, if_neg hquote, if_neg harray, if_neg hobject, if_neg (by simp [hletter]), hnumber,
    Option.map_some]

theorem value?_string {cs : List Char} {s : String} (h : SpellsString cs s)
    (hn : cs.length ≤ n) : value? (n + 1) (cs ++ rest) = some (.string s, rest) := by
  have hstring := string?_append h rest hn
  cases h
  rw [List.cons_append, List.cons_append] at hstring ⊢
  rw [value?, if_pos rfl, hstring, Option.map_some]

theorem value?_emptyArray {blank : List Char} (h : IsBlank blank) :
    value? (n + 1) ('[' :: blank ++ [']'] ++ rest) = some (.array [], rest) := by
  rw [List.append_assoc, List.cons_append, value?, if_neg (by decide), if_pos rfl, skip_append h]
  rfl

theorem value?_emptyObject {blank : List Char} (h : IsBlank blank) :
    value? (n + 1) ('\x7b' :: blank ++ ['\x7d'] ++ rest) = some (.object [], rest) := by
  rw [List.append_assoc, List.cons_append, value?, if_neg (by decide), if_neg (by decide),
    if_pos rfl, skip_append h]
  rfl

theorem value?_array {cs : List Char} {vs : List Datum} (h : SpellsItems cs vs)
    (hitems : items? n (cs ++ ']' :: rest) = some (vs, rest)) :
    value? (n + 1) ('[' :: cs ++ [']'] ++ rest) = some (.array vs, rest) := by
  obtain ⟨c, more, hskip, hcloses⟩ := skip_items h (']' :: rest)
  rw [List.append_assoc, List.cons_append, List.singleton_append, value?, if_neg (by decide),
    if_pos rfl, hskip]
  split
  · next heq =>
      obtain rfl := (List.cons.inj heq).1
      exact absurd hcloses (by decide)
  · rw [hitems, Option.map_some]

theorem value?_object {cs : List Char} {ms : List (String × Datum)} (h : SpellsMembers cs ms)
    (hmembers : members? n (cs ++ '\x7d' :: rest) = some (ms, rest)) :
    value? (n + 1) ('\x7b' :: cs ++ ['\x7d'] ++ rest) = some (.object ms, rest) := by
  obtain ⟨c, more, hskip, hcloses⟩ := skip_members h ('\x7d' :: rest)
  rw [List.append_assoc, List.cons_append, List.singleton_append, value?, if_neg (by decide),
    if_neg (by decide), if_pos rfl, hskip]
  split
  · next heq =>
      obtain rfl := (List.cons.inj heq).1
      exact absurd hcloses (by decide)
  · rw [hmembers, Option.map_some]

mutual

/-- A value is read to its end, whatever stands behind it. -/
theorem value?_append {cs : List Char} {v : Datum} :
    Spells cs v → ∀ {rest : List Char} {n : ℕ}, Ends rest → 2 * cs.length ≤ n →
      value? (n + 1) (cs ++ rest) = some (v, rest)
  | .word hword, _, _, hrest, _ => value?_word hword hrest
  | .number hnumber, _, _, hrest, _ => value?_number hnumber hrest
  | .string hstring, _, _, _, hn => value?_string hstring (by omega)
  | .emptyArray hblank, _, _, _, _ => value?_emptyArray hblank
  | .array hitems, rest, n, _, hn => by
      rw [List.length_append, List.length_cons] at hn
      obtain ⟨k, rfl⟩ := Nat.exists_eq_add_one.2 (show 0 < n by omega)
      exact value?_array hitems (items?_append hitems rest (by omega))
  | .emptyObject hblank, _, _, _, _ => value?_emptyObject hblank
  | .object hmembers, rest, n, _, hn => by
      rw [List.length_append, List.length_cons] at hn
      obtain ⟨k, rfl⟩ := Nat.exists_eq_add_one.2 (show 0 < n by omega)
      exact value?_object hmembers (members?_append hmembers rest (by omega))

theorem item_append {cs : List Char} {v : Datum} :
    SpellsItem cs v → ∀ {rest : List Char} {n : ℕ}, Ends rest → 2 * cs.length ≤ n →
      ∃ behind, IsBlank behind ∧ value? (n + 1) (skip (cs ++ rest)) = some (v, behind ++ rest)
  | .blanks hbefore hvalue hbehind, rest, n, hrest, hn => by
      rw [List.length_append, List.length_append] at hn
      refine ⟨_, hbehind, ?_⟩
      rw [List.append_assoc, skip_append hbefore, List.append_assoc, skip_of_spells hvalue]
      exact value?_append hvalue (ends_append hbehind hrest) (by omega)

theorem items?_append {cs : List Char} {vs : List Datum} :
    SpellsItems cs vs → ∀ (rest : List Char) {n : ℕ}, 2 * cs.length + 1 ≤ n →
      items? (n + 1) (cs ++ ']' :: rest) = some (vs, rest)
  | .last hitem, rest, n, hn => by
      obtain ⟨k, rfl⟩ := Nat.exists_eq_add_one.2 (show 0 < n by omega)
      obtain ⟨behind, hbehind, hvalue⟩ := item_append hitem
        (ends_cons (c := ']') (by decide) rest) (show _ ≤ k by omega)
      rw [items?, hvalue, Option.bind_some]
      simp only [skip_append hbehind]
      rfl
  | @SpellsItems.more _ others _ _ hitem hitems, rest, n, hn => by
      rw [List.length_append, List.length_cons] at hn
      obtain ⟨k, rfl⟩ := Nat.exists_eq_add_one.2 (show 0 < n by omega)
      obtain ⟨behind, hbehind, hvalue⟩ := item_append hitem
        (ends_cons (c := ',') (by decide) (others ++ ']' :: rest)) (show _ ≤ k by omega)
      have hmore := items?_append hitems rest (show _ ≤ k by omega)
      rw [List.append_assoc, items?, List.cons_append, hvalue, Option.bind_some]
      simp only [skip_append hbehind, skip_cons (show isBlank ',' = false by decide), hmore,
        Option.map_some]

theorem member_append {cs : List Char} {m : String × Datum} :
    SpellsMember cs m → ∀ {rest : List Char} {n : ℕ}, Ends rest → 2 * cs.length ≤ n →
      ∃ colon tail behind, string? (n + 1) (skip (cs ++ rest)) = some (m.1, colon) ∧
        skip colon = ':' :: tail ∧ IsBlank behind ∧
        value? (n + 1) (skip tail) = some (m.2, behind ++ rest)
  | @SpellsMember.pair _ _ between cs _ _ hbefore hkey hbetween hitem, rest, n, hrest, hn => by
      rw [List.length_append, List.length_append, List.length_append, List.length_cons] at hn
      obtain ⟨behind, hbehind, hvalue⟩ := item_append hitem hrest (show _ ≤ n by omega)
      refine ⟨between ++ ':' :: (cs ++ rest), cs ++ rest, behind, ?_, ?_, hbehind, hvalue⟩
      · rw [List.append_assoc, skip_append hbefore, List.append_assoc, skip_of_string hkey,
          List.append_assoc]
        exact string?_append hkey _ (by omega)
      · rw [skip_append hbetween]
        exact skip_cons (by decide) _

theorem members?_append {cs : List Char} {ms : List (String × Datum)} :
    SpellsMembers cs ms → ∀ (rest : List Char) {n : ℕ}, 2 * cs.length + 1 ≤ n →
      members? (n + 1) (cs ++ '\x7d' :: rest) = some (ms, rest)
  | .last hmember, rest, n, hn => by
      obtain ⟨k, rfl⟩ := Nat.exists_eq_add_one.2 (show 0 < n by omega)
      obtain ⟨colon, tail, behind, hkey, hcolon, hbehind, hvalue⟩ := member_append hmember
        (ends_cons (c := '\x7d') (by decide) rest) (show _ ≤ k by omega)
      rw [members?, hkey, Option.bind_some]
      simp only [hcolon, hvalue, Option.bind_some, skip_append hbehind]
      rfl
  | @SpellsMembers.more _ others _ _ hmember hmembers, rest, n, hn => by
      rw [List.length_append, List.length_cons] at hn
      obtain ⟨k, rfl⟩ := Nat.exists_eq_add_one.2 (show 0 < n by omega)
      obtain ⟨colon, tail, behind, hkey, hcolon, hbehind, hvalue⟩ := member_append hmember
        (ends_cons (c := ',') (by decide) (others ++ '\x7d' :: rest)) (show _ ≤ k by omega)
      have hmore := members?_append hmembers rest (show _ ≤ k by omega)
      rw [List.append_assoc, members?, List.cons_append, hkey, Option.bind_some]
      simp only [hcolon, hvalue, Option.bind_some, skip_append hbehind,
        skip_cons (show isBlank ',' = false by decide), hmore, Option.map_some]

end

/-- A document is read as the value that the grammar gives it, so it has no other. -/
theorem read?_of_isDocument {text : String} {v : Datum} (h : IsDocument text v) :
    read? text = some v := by
  have hitem := item_append h ends_nil (n := 2 * text.length) (by rw [String.length_toList])
  rw [List.append_nil] at hitem
  obtain ⟨behind, hbehind, hvalue⟩ := hitem
  have hskip : skip (behind ++ []) = [] := skip_append hbehind []
  rw [read?, hvalue, Option.bind_some]
  simp only [hskip, List.isEmpty_nil, if_true]

theorem IsDocument.unique {text : String} {v w : Datum} (hv : IsDocument text v)
    (hw : IsDocument text w) : v = w :=
  Option.some.inj ((read?_of_isDocument hv).symm.trans (read?_of_isDocument hw))

end Values

end SyncPlan.Datum
