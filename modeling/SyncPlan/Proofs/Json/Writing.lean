import SyncPlan.Json
import SyncPlan.Proofs.Json.Reader
import SyncPlan.Proofs.Text.Decimal

/-!
Documents as they are written. In every layout that sets nothing but white space the text of a
document is one of the grammar, and its value is what has been written.
-/

namespace SyncPlan.Json
open Text Datum

mutual

/-- The value that a document is written for. -/
def datum : Json → Datum
  | bool b => .bool b
  | number n => .number n
  | string s => .string s
  | array items => .array (itemData items)
  | object members => .object (memberData members)

def itemData : List Json → List Datum
  | [] => []
  | v :: vs => datum v :: itemData vs

def memberData : List (String × Json) → List (String × Datum)
  | [] => []
  | (k, v) :: ms => (k, datum v) :: memberData ms

end

/-- A layout that sets nothing but white space. -/
structure Layout.IsWhite (layout : Layout) : Prop where
  space : IsBlank layout.space
  newline : ∀ depth, IsBlank (layout.newline depth)

theorem isBlank_nil : IsBlank [] := by simp [IsBlank]

theorem Layout.isWhite_compact : compact.IsWhite := ⟨isBlank_nil, fun _ => isBlank_nil⟩

theorem Layout.isWhite_pretty : pretty.IsWhite := by
  refine ⟨by simp [pretty, IsBlank, isBlank], ?_⟩
  intro depth c hc
  simp only [pretty, List.mem_cons, List.mem_replicate] at hc
  rcases hc with rfl | ⟨-, rfl⟩ <;> rfl

theorem spellsChar_escapeChar (c : Char) : SpellsChar (escapeChar c) c := by
  rw [escapeChar.eq_def]
  split
  · exact .escape rfl
  · exact .escape rfl
  · exact .escape rfl
  · exact .escape rfl
  · exact .escape rfl
  · exact .escape rfl
  · exact .escape rfl
  · next hquote hbackslash _ _ _ _ _ =>
      split
      · next hlow =>
          have hall : ∀ n < 0x20,
              natural? 16 ['0', '0', hexDigit (n / 16), hexDigit (n % 16)] = some n := by decide
          exact .code ⟨rfl, hall c.toNat hlow⟩
      · next hhigh => exact .plain (Nat.le_of_not_lt hhigh) hquote hbackslash

theorem spellsText_escaped (cs : List Char) : SpellsText (cs.flatMap escapeChar) cs := by
  induction cs with
  | nil => exact .nil
  | cons c cs ih => exact .cons (spellsChar_escapeChar c) ih

theorem spellsString_stringText (s : String) : SpellsString (stringText s) s :=
  .quoted (spellsText_escaped s.toList)

theorem spellsMagnitude_digits (n : Nat) : SpellsMagnitude (digits n) n := by
  have hparts : SpellsMagnitude (digits n ++ ([] ++ []))
      ((valueOf 10 (digits n) + 0) * 10 ^ (0 : ℤ)) := by
    refine .parts (isRun_digits n) ?_ .none .none
    cases digits_cases n with
    | inl hzero => exact .inl hzero
    | inr hother =>
        obtain ⟨c, cs, hcs, hc, -⟩ := hother
        exact .inr (by simp [hcs, hc])
  simpa [valueOf_digits] using hparts

theorem spellsNumber_numberText (n : Int) : SpellsNumber (numberText n) n := by
  change SpellsNumber (decimal n) n
  cases decimal_cases n with
  | inl hnatural =>
      obtain ⟨k, rfl, hk⟩ := hnatural
      rw [hk]
      exact .unsigned (by exact_mod_cast spellsMagnitude_digits k)
  | inr hnegative =>
      obtain ⟨k, -, rfl, hk⟩ := hnegative
      rw [hk]
      exact_mod_cast SpellsNumber.negative (spellsMagnitude_digits k)

/-- A text that spells a value in any white space around it. -/
def Padded {α : Type} (P : List Char → α → Prop) (text : List Char) (v : α) : Prop :=
  ∀ before behind, IsBlank before → IsBlank behind → P (before ++ (text ++ behind)) v

/-- Texts with commas and white space between them, for values and for members alike. -/
theorem spells_intercalate {α : Type} {P : List Char → α → Prop} {L : List Char → List α → Prop}
    (hlast : ∀ cs v, P cs v → L cs [v])
    (hmore : ∀ cs rest v vs, P cs v → L rest vs → L (cs ++ ',' :: rest) (v :: vs))
    {blank : List Char} (hblank : IsBlank blank) {behind : List Char} (hbehind : IsBlank behind)
    {texts : List (List Char)} {vs : List α} (h : List.Forall₂ (Padded P) texts vs)
    (hne : texts ≠ []) {before : List Char} (hbefore : IsBlank before) :
    L (before ++ (List.intercalate (',' :: blank) texts ++ behind)) vs := by
  induction h generalizing before with
  | nil => exact absurd rfl hne
  | cons hfirst hrest ih =>
      cases hrest with
      | nil =>
          rw [List.intercalate_singleton]
          exact hlast _ _ (hfirst before behind hbefore hbehind)
      | cons hsecond hrest =>
          have hfront := hfirst before [] hbefore isBlank_nil
          have hback := ih (List.cons_ne_nil _ _) hblank
          rw [List.intercalate_cons_cons]
          simpa using hmore _ _ _ _ hfront hback

theorem bracketed_eq (layout : Layout) (depth : Nat) (opening closing : Char)
    {items : List (List Char)} (h : items ≠ []) :
    bracketed layout depth opening closing items = opening :: (layout.newline (depth + 1) ++
      (List.intercalate (',' :: layout.newline (depth + 1)) items ++ layout.newline depth)) ++
        [closing] := by
  cases items with
  | nil => exact absurd rfl h
  | cons item items => simp [bracketed]

section Written

variable {layout : Layout}

theorem padded_item {cs : List Char} {v : Datum} (h : Spells cs v) : Padded SpellsItem cs v :=
  fun _ _ hbefore hbehind => .blanks hbefore h hbehind

theorem padded_member (hlayout : layout.IsWhite) {cs : List Char} {v : Datum} (h : Spells cs v)
    (k : String) :
    Padded SpellsMember (stringText k ++ ':' :: layout.space ++ cs) (k, v) := by
  intro before behind hbefore hbehind
  have hmember := SpellsMember.pair hbefore (spellsString_stringText k) isBlank_nil
    (.blanks hlayout.space h hbehind)
  simpa using hmember

theorem spells_array (hlayout : layout.IsWhite) (depth : Nat) {texts : List (List Char)}
    {vs : List Datum} (h : List.Forall₂ (Padded SpellsItem) texts vs) :
    Spells (bracketed layout depth '[' ']' texts) (.array vs) := by
  cases texts with
  | nil =>
      cases h
      exact .emptyArray isBlank_nil
  | cons first more =>
      rw [bracketed_eq layout depth _ _ (List.cons_ne_nil first more)]
      exact .array (spells_intercalate (fun _ _ => .last) (fun _ _ _ _ => .more)
        (hlayout.newline _) (hlayout.newline _) h (List.cons_ne_nil _ _) (hlayout.newline _))

theorem spells_object (hlayout : layout.IsWhite) (depth : Nat) {texts : List (List Char)}
    {ms : List (String × Datum)} (h : List.Forall₂ (Padded SpellsMember) texts ms) :
    Spells (bracketed layout depth '\x7b' '\x7d' texts) (.object ms) := by
  cases texts with
  | nil =>
      cases h
      exact .emptyObject isBlank_nil
  | cons first more =>
      rw [bracketed_eq layout depth _ _ (List.cons_ne_nil first more)]
      exact .object (spells_intercalate (fun _ _ => .last) (fun _ _ _ _ => .more)
        (hlayout.newline _) (hlayout.newline _) h (List.cons_ne_nil _ _) (hlayout.newline _))

mutual

/-- What is written spells its value: one case for each kind of document. -/
theorem spells_chars (hlayout : layout.IsWhite) (depth : Nat) :
    ∀ v : Json, Spells (chars layout depth v) (datum v)
  | .bool true => .word (by simp [words, chars, datum])
  | .bool false => .word (by simp [words, chars, datum])
  | .number n => .number (spellsNumber_numberText n)
  | .string s => .string (spellsString_stringText s)
  | .array items => spells_array hlayout depth (padded_items hlayout depth items)
  | .object members => spells_object hlayout depth (padded_members hlayout depth members)

theorem padded_items (hlayout : layout.IsWhite) (depth : Nat) : ∀ items : List Json,
    List.Forall₂ (Padded SpellsItem) (itemChars layout depth items) (itemData items)
  | [] => .nil
  | v :: vs => .cons (padded_item (spells_chars hlayout (depth + 1) v))
      (padded_items hlayout depth vs)

theorem padded_members (hlayout : layout.IsWhite) (depth : Nat) :
    ∀ members : List (String × Json),
      List.Forall₂ (Padded SpellsMember) (memberChars layout depth members) (memberData members)
  | [] => .nil
  | (k, v) :: ms => .cons (padded_member hlayout (spells_chars hlayout (depth + 1) v) k)
      (padded_members hlayout depth ms)

end

/-- The text of a document, in either layout, is a document of the grammar. -/
theorem isDocument_text (hlayout : layout.IsWhite) (v : Json) :
    IsDocument (v.text layout) v.datum := by
  have hpadded := padded_item (spells_chars hlayout 0 v) [] [] isBlank_nil isBlank_nil
  simpa [IsDocument, text] using hpadded

theorem read?_text (hlayout : layout.IsWhite) (v : Json) : read? (v.text layout) = some v.datum :=
  read?_of_isDocument (isDocument_text hlayout v)

end Written

end SyncPlan.Json
