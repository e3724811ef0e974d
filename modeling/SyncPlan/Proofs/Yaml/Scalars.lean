import SyncPlan.Proofs.Text.Escapes
import SyncPlan.Yaml.Folded

/-!
Scalars on one line: a text between double quotes is read with its escapes undone, spaces and all,
and a plain word is read up to the colon or the end of the line behind it.
-/

namespace SyncPlan.Yaml
open Text

namespace Cursor

theorem advance_advance (c : Cursor) (m n : Nat) :
    (c.advance m).advance n = c.advance (m + n) := by
  simp [advance, Nat.add_assoc]

theorem rest_advance_append {c : Cursor} {front rest : List Char} (h : c.rest = front ++ rest) :
    (c.advance front.length).rest = rest := by
  simp [advance, h]

theorem rest_advance_cons {c : Cursor} {x : Char} {rest : List Char} (h : c.rest = x :: rest) :
    (c.advance 1).rest = rest := by
  simp [advance, h]

theorem atDocumentMarker_of_pos {c : Cursor} (h : 0 < c.column) : c.atDocumentMarker = false := by
  simp [atDocumentMarker, atMarker, Nat.ne_of_gt h]

theorem size_advance_lt {c : Cursor} {n : Nat} (hpos : 0 < n) (hrest : c.rest ≠ []) :
    (c.advance n).size < c.size := by
  have hlength := List.length_pos_iff.2 hrest
  rw [size_advance]
  simp only [size]
  omega

theorem atDocumentMarker_of_head {c : Cursor} (h : ∀ x ∈ c.rest.head?, x ≠ '-' ∧ x ≠ '.') :
    c.atDocumentMarker = false := by
  cases hrest : c.rest with
  | nil => simp [atDocumentMarker, atMarker, hrest]
  | cons x rest =>
      obtain ⟨hminus, hpoint⟩ := h x (by simp [hrest])
      simp [atDocumentMarker, atMarker, hrest, hminus, hpoint]

theorem break?_of_not_isBreak {c : Cursor} (h : ∀ x ∈ c.rest.head?, isBreak x = false) :
    c.break? = none := by
  rw [break?]
  split
  · next heq =>
      have hbreak := h '\r' (by simp [heq])
      simp [isBreak] at hbreak
  · next x rest _ heq =>
      have hbreak := h x (by simp [heq])
      have hline : x ≠ '\u2028' ∧ x ≠ '\u2029' := by
        simp only [isBreak, Bool.or_eq_false_iff, beq_eq_false_iff_ne] at hbreak
        exact ⟨hbreak.1.2, hbreak.2⟩
      simp [hline, hbreak]
  · rfl

theorem break?_newline {c : Cursor} {rest : List Char} (h : c.rest = '\n' :: rest) :
    c.break? = some ('\n', c.wrap 1) := by
  rw [break?, h]
  rfl

end Cursor

variable {capital : Bool}

theorem isBreak_of_isPrintable {c : Char} (h : isPrintable c = true) : isBreak c = false := by
  rw [Bool.eq_false_iff]
  intro hbreak
  simp only [isBreak, Bool.or_eq_true, beq_iff_eq] at hbreak
  rcases hbreak with (((rfl | rfl) | rfl) | rfl) | rfl <;> exact absurd h (by decide)

/-- The only gap on a line of printable characters is the space. -/
theorem isGap_of_isPrintable {c : Char} (h : isPrintable c = true) (hspace : c ≠ ' ') :
    isGap c = false := by
  have htab : c ≠ '\t' := by
    rintro rfl
    exact absurd h (by decide)
  simp [isGap, isBlank, hspace, htab, isBreak_of_isPrintable h]

section Quoted

theorem quotedRun_nil {c : Char} {rest : List Char} (h : isGap c = true ∨ c = '"') :
    quotedRun .double (c :: rest) = some ([], 0) := by
  rw [quotedRun.eq_def]
  rcases h with h | rfl
  · simp [h]
  · simp

theorem quotedRun_char {e x : Char} {rest : List Char} (hbreak : isBreak e = false)
    (h : escape? e = some (.char x)) :
    quotedRun .double ('\\' :: e :: rest) =
      (quotedRun .double rest).map fun (t, n) => (x :: t, n + 2) := by
  have hgap : isGap '\\' = false := by decide
  rw [quotedRun]
  simp [hgap, hbreak, h]

theorem quotedRun_code {e x : Char} {k : Nat} {code rest : List Char} (hbreak : isBreak e = false)
    (h : escape? e = some (.code k)) (hlength : code.length = k)
    (hcode : codePoint? k (code ++ rest) = some x) :
    quotedRun .double ('\\' :: e :: (code ++ rest)) =
      (quotedRun .double rest).map fun (t, n) => (x :: t, n + (k + 2)) := by
  have hgap : isGap '\\' = false := by decide
  subst hlength
  rw [quotedRun]
  simp [hgap, hbreak, h, hcode, Nat.add_assoc, Nat.add_comm 2]

theorem quotedRun_self {c : Char} {rest : List Char} (hgap : isGap c = false) (hquote : c ≠ '"')
    (hbackslash : c ≠ '\\') :
    quotedRun .double (c :: rest) =
      (quotedRun .double rest).map fun (t, n) => (c :: t, n + 1) := by
  rw [quotedRun.eq_def]
  simp only [hgap]
  split <;> simp_all

/-- What is read behind a run of a quoted scalar: its closing mark, or a gap or an escaped break and
the words behind it. -/
def quotedBehind (q : Quote) (run : List Char) (d : Cursor) : Option (List Char × Cursor) :=
  match d.rest with
  | [] => none
  | x :: _ =>
    if x = q.mark then some (run, d.advance 1)
    else if isGap x then
      (gapFrom 0 false d).bind fun (g, e) =>
        (quotedFrom q e).map fun (more, f) => (run ++ (g.text ++ more), f)
    else
      (gapFrom 0 true (d.advance 1).skipBreak).bind fun (g, e) =>
        (quotedFrom q e).map fun (more, f) => (run ++ (g.breaks ++ more), f)

theorem quotedFrom_eq {q : Quote} {c : Cursor} {run : List Char} {n : Nat}
    (hmarker : c.atDocumentMarker = false) (hrun : quotedRun q c.rest = some (run, n)) :
    quotedFrom q c = quotedBehind q run (c.advance n) := by
  rw [quotedFrom.eq_def]
  simp only [hmarker, hrun, Bool.false_eq_true, if_false]
  generalize c.advance n = d
  rw [quotedBehind]
  split
  · next heq => simp [heq]
  · next x tail heq =>
      simp only [heq, List.head?_cons, Option.any_some, List.append_assoc]
      split
      · rfl
      · split
        · split <;> simp_all
        · split <;> simp_all

theorem quotedBehind_cons (q : Quote) (x : Char) (run : List Char) (d : Cursor) :
    quotedBehind q (x :: run) d =
      (quotedBehind q run d).map fun (text, e) => (x :: text, e) := by
  rw [quotedBehind, quotedBehind]
  split
  · rfl
  · split
    · rfl
    · split
      · cases gapFrom 0 false d <;> simp [Function.comp_def]
      · cases gapFrom 0 true (d.advance 1).skipBreak <;> simp [Function.comp_def]

/-- A character of a word is read before the rest of its text. -/
theorem quotedFrom_of_run {c : Cursor} {x : Char} {n : Nat} (hcolumn : 0 < c.column)
    (h : quotedRun .double c.rest =
      (quotedRun .double (c.advance n).rest).map fun (t, k) => (x :: t, k + n)) :
    quotedFrom .double c = (quotedFrom .double (c.advance n)).map fun (t, d) => (x :: t, d) := by
  have hmarker := Cursor.atDocumentMarker_of_pos hcolumn
  have hmarker' : (c.advance n).atDocumentMarker = false :=
    Cursor.atDocumentMarker_of_pos (Nat.lt_of_lt_of_le hcolumn (Nat.le_add_right _ _))
  cases hrun : quotedRun .double (c.advance n).rest with
  | none =>
      rw [hrun] at h
      rw [quotedFrom.eq_def .double c, quotedFrom.eq_def .double (c.advance n), hmarker, hmarker']
      simp [h, hrun]
  | some run =>
      rw [hrun] at h
      rw [quotedFrom_eq hmarker h, quotedFrom_eq hmarker' hrun, quotedBehind_cons,
        Cursor.advance_advance, Nat.add_comm]

theorem gapFrom_nil {margin : Nat} {broken : Bool} {c : Cursor}
    (h : ∀ x ∈ c.rest.head?, isGap x = false) : gapFrom margin broken c = some (⟨[], []⟩, c) := by
  rw [gapFrom]
  split
  · rfl
  · next x rest heq =>
      have hx := h x (by simp [heq])
      rw [isGap, Bool.or_eq_false_iff] at hx
      have hbreak : c.break? = none :=
        Cursor.break?_of_not_isBreak fun y hy => by simp_all
      rw [if_neg (by simp [hx.1])]
      split
      · rfl
      · next hsome => simp [hbreak] at hsome

theorem gapFrom_blanks {margin : Nat} {c : Cursor} {blanks rest : List Char}
    (hrest : c.rest = blanks ++ rest) (hblanks : ∀ b ∈ blanks, isBlank b = true)
    (h : ∀ x ∈ rest.head?, isGap x = false) :
    gapFrom margin false c = some (⟨blanks, []⟩, c.advance blanks.length) := by
  induction blanks generalizing c with
  | nil => exact gapFrom_nil (hrest ▸ h)
  | cons b blanks ih =>
      have hnext : (c.advance 1).rest = blanks ++ rest := Cursor.rest_advance_cons hrest
      have hmore := ih hnext fun x hx => hblanks x (List.mem_cons_of_mem b hx)
      rw [gapFrom]
      split
      · next heq => simp [heq] at hrest
      · next x tail heq =>
          obtain ⟨rfl, -⟩ := List.cons.inj (heq.symm.trans hrest)
          simp [hblanks x List.mem_cons_self, hmore, Cursor.advance_advance, Nat.add_comm]

theorem gapFrom_newline {margin : Nat} {broken : Bool} {c d : Cursor} {rest : List Char} {g : Gap}
    (hrest : c.rest = '\n' :: rest) (h : gapFrom margin true (c.wrap 1) = some (g, d)) :
    gapFrom margin broken c = some ({ g with breaks := '\n' :: g.breaks }, d) := by
  have hbreak := Cursor.break?_newline hrest
  rw [gapFrom]
  split
  · next heq => simp [heq] at hrest
  · next x tail heq =>
      obtain ⟨rfl, -⟩ := List.cons.inj (heq.symm.trans hrest)
      rw [if_neg (by decide)]
      split
      · next hnone => simp [hbreak] at hnone
      · next b e hsome =>
          obtain ⟨rfl, rfl⟩ := Prod.mk.inj (Option.some.inj (hbreak.symm.trans hsome))
          simp [h]

/-- The blanks before a word are a part of the text. -/
theorem quotedFrom_blanks {c : Cursor} {blanks rest : List Char} {x : Char} (hcolumn : 0 < c.column)
    (hrest : c.rest = blanks ++ x :: rest) (hblanks : ∀ b ∈ blanks, isBlank b = true)
    (hx : isGap x = false) :
    quotedFrom .double c = (quotedFrom .double (c.advance blanks.length)).map
      fun (text, d) => (blanks ++ text, d) := by
  cases blanks with
  | nil =>
      change _ = (quotedFrom .double c).map fun (text, d) => (text, d)
      simp
  | cons b blanks =>
      have hb : isGap b = true := by simp [isGap, hblanks b List.mem_cons_self]
      have hquote : b ≠ '"' := by
        rintro rfl
        exact absurd hb (by decide)
      have hrun : quotedRun .double c.rest = some ([], 0) := by
        rw [hrest]
        exact quotedRun_nil (.inl hb)
      have hgap : gapFrom 0 false c = _ := gapFrom_blanks hrest hblanks (by simpa using hx)
      rw [quotedFrom_eq (Cursor.atDocumentMarker_of_pos hcolumn) hrun]
      change quotedBehind .double [] c = _
      rw [quotedBehind, hrest]
      simp [Quote.mark, hquote, hb, hgap, Gap.text]

theorem exists_blanks (capital : Bool) (cs rest : List Char) :
    ∃ blanks x more, escaped capital cs ++ '"' :: rest = blanks ++ x :: more ∧
      (∀ b ∈ blanks, isBlank b = true) ∧ isGap x = false := by
  induction cs with
  | nil => exact ⟨[], '"', rest, rfl, by simp, by decide⟩
  | cons c cs ih =>
      obtain ⟨blanks, x, more, heq, hblanks, hx⟩ := ih
      rw [escaped_cons, List.append_assoc, heq]
      cases escape_cases capital c with
      | inl hspecial => exact ⟨[], '\\', _, by rw [hspecial.2]; rfl, by simp, by decide⟩
      | inr hother =>
          cases hother with
          | inl hself =>
              obtain ⟨-, -, hprintable, hc⟩ := hself
              by_cases hspace : c = ' '
              · subst hspace
                refine ⟨' ' :: blanks, x, more, by rw [hc]; rfl, ?_, hx⟩
                exact List.forall_mem_cons.2 ⟨by decide, hblanks⟩
              · exact ⟨[], c, _, by rw [hc]; rfl, by simp, isGap_of_isPrintable hprintable hspace⟩
          | inr hcode =>
              obtain ⟨mark, width, -, -, hc⟩ := hcode
              exact ⟨[], '\\', _, by rw [hc]; rfl, by simp, by decide⟩

theorem codePoint?_hexDigits {c : Char} {width : Nat} (hwidth : 0 < width)
    (h : c.toNat < Nat.pow 16 width) (rest : List Char) :
    codePoint? width (hexDigits capital width c.toNat ++ rest) = some c := by
  have hvalid : c.toNat.isValidChar := c.valid
  have hlength := @length_hexDigits capital width c.toNat
  have htake : (hexDigits capital width c.toNat ++ rest).take width =
      hexDigits capital width c.toNat := by
    rw [List.take_append_of_le_length (by omega), List.take_of_length_le (by omega)]
  rw [codePoint?, if_neg (by simp [hlength]), htake, natural?_hexDigits hwidth h]
  simp [hvalid, Char.ofNat_toNat]

/-- A character of a word is read as itself, however it is escaped. -/
theorem quotedRun_escape {x : Char} (hspace : x ≠ ' ') (rest : List Char) :
    quotedRun .double (escape capital x ++ rest) =
      (quotedRun .double rest).map fun (t, n) => (x :: t, n + (escape capital x).length) := by
  cases escape_cases capital x with
  | inl hspecial =>
      rw [hspecial.2]
      rcases hspecial.1 with rfl | rfl
      · exact quotedRun_char (by decide) rfl
      · exact quotedRun_char (by decide) rfl
  | inr hother =>
      cases hother with
      | inl hself =>
          obtain ⟨hquote, hbackslash, hprintable, hx⟩ := hself
          rw [hx]
          exact quotedRun_self (isGap_of_isPrintable hprintable hspace) hquote hbackslash
      | inr hcode =>
          obtain ⟨mark, width, hmark, hlt, hx⟩ := hcode
          have hlength := @length_hexDigits capital width x.toNat
          have hread {k : Nat} (hk : 0 < k) (hlt : x.toNat < Nat.pow 16 k) :=
            @codePoint?_hexDigits capital x k hk hlt rest
          rw [hx, List.length_cons, List.length_cons, hlength]
          rcases hmark with ⟨rfl, rfl⟩ | ⟨rfl, rfl⟩
          · exact quotedRun_code (by decide) rfl hlength (hread (by decide) hlt)
          · exact quotedRun_code (by decide) rfl hlength (hread (by decide) hlt)

section Escaped

variable {c : Cursor} {cs rest : List Char} (hcolumn : 0 < c.column)
include hcolumn

/-- A space is read with the blanks behind it, which are as many without it but one. -/
theorem quotedFrom_space (h : c.rest = ' ' :: (escaped capital cs ++ '"' :: rest)) :
    quotedFrom .double c =
      (quotedFrom .double (c.advance 1)).map fun (text, d) => (' ' :: text, d) := by
  obtain ⟨blanks, y, more, htext, hblanks, hy⟩ := exists_blanks capital cs rest
  rw [htext] at h
  have hbehind := Cursor.rest_advance_cons h
  have hall : ∀ b ∈ ' ' :: blanks, isBlank b = true := List.forall_mem_cons.2 ⟨by decide, hblanks⟩
  rw [quotedFrom_blanks hcolumn h hall hy, quotedFrom_blanks (Nat.succ_pos _) hbehind hblanks hy]
  simp [Cursor.advance_advance, Function.comp_def, Nat.add_comm]

theorem quotedFrom_escape {x : Char}
    (h : c.rest = escape capital x ++ (escaped capital cs ++ '"' :: rest)) :
    quotedFrom .double c = (quotedFrom .double (c.advance (escape capital x).length)).map
      fun (text, d) => (x :: text, d) := by
  -- A run of a quoted text ends at a space, which belongs to the gap and not to the words.
  by_cases hspace : x = ' '
  · subst hspace
    have hescape : escape capital ' ' = [' '] := by cases capital <;> decide
    rw [hescape] at h ⊢
    exact quotedFrom_space hcolumn h
  · apply quotedFrom_of_run hcolumn
    rw [Cursor.rest_advance_append h, h]
    exact quotedRun_escape hspace _

/-- An escaped text is read up to the quote behind it. -/
theorem quotedFrom_escaped (h : c.rest = escaped capital cs ++ '"' :: rest) :
    quotedFrom .double c = some (cs, c.advance ((escaped capital cs).length + 1)) := by
  induction cs generalizing c with
  | nil =>
      have hrest : c.rest = '"' :: rest := h
      have hrun : quotedRun .double c.rest = some ([], 0) := by
        rw [hrest]
        exact quotedRun_nil (.inr rfl)
      rw [quotedFrom_eq (Cursor.atDocumentMarker_of_pos hcolumn) hrun]
      change quotedBehind .double [] c = _
      rw [quotedBehind, hrest]
      rfl
  | cons x cs ih =>
      rw [escaped_cons, List.append_assoc] at h
      have hmore := ih (Nat.lt_of_lt_of_le hcolumn (Nat.le_add_right _ (escape capital x).length))
        (Cursor.rest_advance_append h)
      rw [quotedFrom_escape hcolumn h, hmore, escaped_cons, List.length_append,
        Cursor.advance_advance, Nat.add_assoc]
      rfl

end Escaped

end Quoted

section Plain

/-- A character that stands anywhere in a plain scalar, whatever is behind it. -/
def IsWordChar (c : Char) : Prop := isPrintable c = true ∧ c ≠ ' ' ∧ c ≠ ':'

instance : DecidablePred IsWordChar := fun c =>
  inferInstanceAs (Decidable (isPrintable c = true ∧ c ≠ ' ' ∧ c ≠ ':'))

theorem IsWordChar.isGap {c : Char} (h : IsWordChar c) : isGap c = false :=
  isGap_of_isPrintable h.1 h.2.1

theorem plainRun_append {word rest : List Char} (hword : ∀ c ∈ word, IsWordChar c)
    (hrest : plainRun false rest = some []) : plainRun false (word ++ rest) = some word := by
  induction word with
  | nil => exact hrest
  | cons c word ih =>
      have hc := hword c List.mem_cons_self
      have hmore := ih fun d hd => hword d (List.mem_cons_of_mem c hd)
      rw [List.cons_append, plainRun]
      simp [hc.isGap, hc.2.2, hmore]

theorem plainRun_colon {rest : List Char} (h : endsWord rest = true) :
    plainRun false (':' :: rest) = some [] := by
  simp [plainRun, h]

theorem plainRun_gap {x : Char} {rest : List Char} (h : isGap x = true) :
    plainRun false (x :: rest) = some [] := by
  simp [plainRun, h]

variable {c : Cursor} {margin : Nat} {word rest : List Char}
  (hstart : (c.atDocumentMarker || c.rest.head? == some '#') = false)
  (hword : ∀ c ∈ word, IsWordChar c)
include hstart hword

/-- A plain scalar before a colon. -/
theorem plainFrom_colon (h : c.rest = word ++ ':' :: rest) (hends : endsWord rest = true) :
    plainFrom false margin c = some (word, false, c.advance word.length) := by
  have hrun : plainRun false c.rest = some word := by
    rw [h]
    exact plainRun_append hword (plainRun_colon hends)
  have hgap : (c.advance word.length).rest.head?.any isGap = false := by
    rw [Cursor.rest_advance_append h]
    rfl
  rw [plainFrom, hstart]
  simp [hrun, hgap]

/-- A plain scalar at the end of its line, before a line that begins left of the margin. -/
theorem plainFrom_newline (h : c.rest = word ++ '\n' :: rest) (hmargin : 0 < margin)
    (hnext : ∀ x ∈ rest.head?, isGap x = false) :
    plainFrom false margin c = some (word, true, (c.advance word.length).wrap 1) := by
  have hrun : plainRun false c.rest = some word := by
    rw [h]
    exact plainRun_append hword (plainRun_gap (by decide))
  have hrest := Cursor.rest_advance_append h
  have hgap : (c.advance word.length).rest.head?.any isGap = true := by
    rw [hrest]
    rfl
  have hbreak : gapFrom margin false (c.advance word.length) =
      some (⟨[], ['\n']⟩, (c.advance word.length).wrap 1) := by
    have hwrap : ((c.advance word.length).wrap 1).rest = rest := by simp [Cursor.wrap, hrest]
    exact gapFrom_newline hrest (gapFrom_nil (hwrap ▸ hnext))
  have hcolumn : ((c.advance word.length).wrap 1).column < margin := hmargin
  rw [plainFrom, hstart]
  simp only [hrun]
  rw [if_neg (by simp), dif_pos hgap]
  split
  · next hnone => simp [hbreak] at hnone
  · next g e hsome =>
      obtain ⟨rfl, rfl⟩ := Prod.mk.inj (Option.some.inj (hbreak.symm.trans hsome))
      rw [if_pos (by simpa using hcolumn)]
      rfl

end Plain

end SyncPlan.Yaml
