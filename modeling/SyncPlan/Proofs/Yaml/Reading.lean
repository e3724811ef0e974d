import SyncPlan.Proofs.Yaml.Scanning

/-!
The parts of a line as the scanner reads them: the key and its colon, and a value up to the end of
the line, be it a plain scalar, a text between quotes or a list between brackets. Behind the last
line the mapping is closed.
-/

namespace SyncPlan.Yaml
open Text

/-- A plain scalar that no character has to be escaped in, nor any to stand before. -/
structure IsWord (word : List Char) : Prop where
  chars : ∀ c ∈ word, IsWordChar c
  starts : ∃ c cs, word = c :: cs ∧
    (Scan.isIndicator c = false ∨ c = '-' ∧ cs ≠ [])

theorem IsWordChar.isOpening {c : Char} (h : IsWordChar c) (hcomment : c ≠ '#') : IsOpening c := by
  refine ⟨h.isGap, hcomment, ?_⟩
  rintro rfl
  exact absurd h.1 (by decide)

section Word

variable {word rest : List Char} {place : Cursor} (hword : IsWord word)
include hword

theorem IsWord.isOpening : ∀ x ∈ (word ++ rest).head?, IsOpening x := by
  obtain ⟨c, cs, rfl, hc⟩ := hword.starts
  intro x hx
  obtain rfl : c = x := Option.some.inj hx
  apply (hword.chars c List.mem_cons_self).isOpening
  rintro rfl
  rcases hc with hc | ⟨hc, -⟩ <;> exact absurd hc (by decide)

theorem IsWord.token {s : Scan} (hmarker : s.place.atDocumentMarker = false)
    (h : s.place.rest = word ++ rest) : s.token = s.plain := by
  obtain ⟨c, cs, rfl, hc⟩ := hword.starts
  apply Scan.token_plain hmarker h (hword.chars c List.mem_cons_self).isGap
  refine hc.imp id fun hminus => ⟨hminus.1, ?_⟩
  obtain ⟨d, ds, rfl⟩ := List.exists_cons_of_ne_nil hminus.2
  simpa [endsWord] using (hword.chars d (by simp)).isGap

end Word

/-- The tokens of texts between brackets, behind the opening one. -/
def itemTokens : List String → List Token
  | [] => [.bracketClose]
  | v :: vs => .scalar .quoted v ::
      (vs.flatMap (fun w => [.comma, .scalar .quoted w]) ++ [.bracketClose])

namespace Spot

variable {x : Spot} {taken : Nat} {queue : List Token} {key : Option PendingKey} {place : Cursor}

/-- A line of some number begins behind the gap, at the leftmost column, and allows a key. -/
def StartsLine (x : Spot) (line : Nat) (rest : List Char) : Prop :=
  x.flow = false ∧ Scan.skipGap false x.allowed x.place = (true, ⟨rest, line, 0⟩) ∧
    rest.length ≤ x.place.size

theorem isOpening_of_mem {d : Char} (hd : IsOpening d) {rest : List Char} :
    ∀ x ∈ (d :: rest).head?, IsOpening x := by
  intro x hx
  obtain rfl : d = x := Option.some.inj hx
  exact hd

/-- Before a character that no gap passes over a line begins at once. -/
theorem startsLine_of_isOpening {opened allowed : Bool} {line : Nat} {rest : List Char}
    (hallowed : allowed = true) (hrest : ∀ x ∈ rest.head?, IsOpening x) :
    (Spot.mk opened false allowed ⟨rest, line, 0⟩).StartsLine line rest := by
  subst hallowed
  exact ⟨rfl, @Scan.skipGap_blanks false true ⟨rest, line, 0⟩ [] _ rfl (by simp) hrest,
    Nat.le_refl _⟩

/-- The key of a line, which opens the mapping if it is the first one, and its colon. -/
theorem reads_key {line : Nat} {word rest : List Char}
    (hline : x.StartsLine line (word ++ ':' :: ' ' :: rest))
    (hword : IsWord word) (hmarker : ∀ c ∈ word.head?, c ≠ '-' ∧ c ≠ '.')
    (hlength : word.length ≤ 1024) :
    x.Reads ((if x.opened then [] else [.mappingOpen]) ++
        [.key, .scalar .plain (String.ofList word), .value])
      ⟨true, false, false, ⟨' ' :: rest, line, word.length + 1⟩⟩ := by
  obtain ⟨hflow, hgap, hsize⟩ := hline
  obtain ⟨place, hplace⟩ : ∃ place, Cursor.mk (word ++ ':' :: ' ' :: rest) line 0 = place :=
    ⟨_, rfl⟩
  have hrest : place.rest = word ++ ':' :: ' ' :: rest := hplace ▸ rfl
  have hcolumn : place.column = 0 := hplace ▸ rfl
  have hend : (place.advance word.length).advance 1 =
      ⟨' ' :: rest, line, word.length + 1⟩ := by
    rw [← hplace]
    simp [Cursor.advance]
  rw [hplace] at hgap
  rw [← hend]
  obtain ⟨c, cs, hcons, -⟩ := hword.starts
  have hmarked : place.atDocumentMarker = false := by
    apply Cursor.atDocumentMarker_of_head
    rw [hrest, hcons]
    rw [hcons] at hmarker
    exact hmarker
  have hcomment : (place.atDocumentMarker || place.rest.head? == some '#') = false := by
    rw [hmarked, hrest, Bool.false_or, beq_eq_false_iff_ne]
    exact fun heq => (hword.isOpening '#' heq).2.1 rfl
  have hplain :
      plainFrom x.flow x.margin place = some (word, false, place.advance word.length) := by
    rw [hflow]
    exact plainFrom_colon hcomment hword.chars hrest rfl
  have hlong : 0 < word.length := hcons ▸ Nat.succ_pos _
  have hcolon : (place.advance word.length).rest = ':' :: ' ' :: rest :=
    Cursor.rest_advance_append hrest
  -- At the colon the key is not stale, as no name of a field is longer than a key may be.
  apply @reads_of_key x { x with allowed := false, place := place.advance word.length } _
    (.scalar .plain (String.ofList word)) _
    fun taken => ⟨!x.flow && x.margin == place.column + 1, taken, place⟩
  · exact fun taken => rfl
  · exact fun taken => Scan.isStale_advance place hlength
  · rw [← hrest] at hsize
    exact Nat.lt_of_lt_of_le (Cursor.size_advance_lt hlong (by simp [hrest, hcons])) hsize
  · exact Cursor.size_advance_lt (by decide) (by simp [hcolon])
  · intro taken
    rw [← hflow] at hgap
    rw [scan, next_eq hgap (dropStale_of_fresh (by simp)), hword.token hmarked hrest]
    exact plain_eq (saveKey_of_allowed rfl) hplain
  · intro taken
    have hgap' : Scan.skipGap x.flow false (place.advance word.length) =
        (false, place.advance word.length) :=
      @Scan.skipGap_blanks x.flow false _ [] _ hcolon (by simp) (isOpening_of_mem (by decide))
    have hcolumn' : 0 < (place.advance word.length).column := by
      simp only [Cursor.advance]
      omega
    have hfresh {k : PendingKey} (hk : k ∈ some ⟨!x.flow && x.margin == place.column + 1, taken,
        place⟩) : Scan.isStale (place.advance word.length) k = false := by
      obtain rfl := Option.some.inj hk
      exact Scan.isStale_advance place hlength
    rw [next_eq hgap' (dropStale_of_fresh fun k hk => hfresh hk),
      Scan.token_colon (Cursor.atDocumentMarker_of_pos hcolumn') hcolon rfl]
    exact @colon_eq ⟨x.opened, x.flow, false, place.advance word.length⟩ taken
      [.scalar .plain (String.ofList word)] ⟨_, taken, place⟩ hflow rfl hcolumn

/-- A plain scalar behind a colon, and the end of its line. -/
theorem reads_word {place : Cursor} {word rest : List Char} (hword : IsWord word)
    (h : place.rest = ' ' :: (word ++ '\n' :: rest)) (hnext : ∀ x ∈ rest.head?, IsOpening x) :
    (Spot.mk true false false place).Reads [.scalar .plain (String.ofList word)]
      ⟨true, false, true, ⟨rest, place.line + 1, 0⟩⟩ := by
  have hrest : (place.advance 1).rest = word ++ '\n' :: rest := Cursor.rest_advance_cons h
  have hend : ((place.advance 1).advance word.length).rest = '\n' :: rest :=
    Cursor.rest_advance_append hrest
  have hmarker : (place.advance 1).atDocumentMarker = false :=
    Cursor.atDocumentMarker_of_pos (Nat.succ_pos _)
  have hcomment : ((place.advance 1).atDocumentMarker ||
      (place.advance 1).rest.head? == some '#') = false := by
    rw [hmarker, hrest, Bool.false_or, beq_eq_false_iff_ne]
    exact fun heq => (hword.isOpening '#' heq).2.1 rfl
  have hplain : plainFrom false 1 (place.advance 1) =
      some (word, true, ((place.advance 1).advance word.length).wrap 1) :=
    plainFrom_newline hcomment hword.chars hrest (by decide) fun x hx => (hnext x hx).1
  have hwrap : ((place.advance 1).advance word.length).wrap 1 = ⟨rest, place.line + 1, 0⟩ := by
    rw [Cursor.wrap, hend]
    rfl
  rw [← hwrap]
  apply reads_of_next
  · have hless : (place.advance 1).size < place.size :=
      Cursor.size_advance_lt (by decide) (by simp [h])
    change (((place.advance 1).advance word.length).wrap 1).size < place.size
    rw [Cursor.size_wrap, Cursor.size_advance]
    omega
  · intro taken
    have hgap : Scan.skipGap false false place = (false, place.advance 1) :=
      @Scan.skipGap_blanks false false place [' '] _ h (by simp) hword.isOpening
    rw [scan, next_eq hgap (dropStale_of_fresh (by simp)), hword.token hmarker hrest]
    exact plain_eq (saveKey_of_not_allowed rfl) hplain

theorem startsLine_newline {place : Cursor} {line : Nat} {rest : List Char}
    (h : place.rest = '\n' :: rest) (hline : place.line = line)
    (hnext : ∀ x ∈ rest.head?, IsOpening x) :
    (Spot.mk true false false place).StartsLine (line + 1) rest := by
  have hwrap : place.wrap 1 = ⟨rest, line + 1, 0⟩ := by
    rw [Cursor.wrap, h, hline]
    rfl
  refine ⟨rfl, ?_, ?_⟩
  · rw [← hwrap]
    exact Scan.skipGap_newline h hnext
  · simp [Cursor.size, h]

section Quoted

variable {capital : Bool} {place : Cursor} {rest : List Char}

theorem quoted_between {v : String} (h : place.rest = between capital v ++ rest) :
    Scan.quoted .double place =
      some (.scalar .quoted v, place.advance (between capital v).length) := by
  rw [between_append] at h
  have htext := quotedFrom_escaped (show 0 < (place.advance 1).column from Nat.succ_pos _)
    (Cursor.rest_advance_cons h)
  have hlength : (between capital v).length = 1 + ((escaped capital v.toList).length + 1) := by
    simp [between, Nat.add_comm]
  rw [Scan.quoted, htext, Cursor.advance_advance, ← hlength]
  simp

theorem isOpening_between (v : String) : ∀ x ∈ (between capital v ++ rest).head?, IsOpening x := by
  rw [between_append]
  exact isOpening_of_mem (by decide)

/-- A text between quotes behind a colon. -/
theorem reads_quoted {v : String} (h : place.rest = ' ' :: (between capital v ++ '\n' :: rest))
    (hnext : ∀ x ∈ rest.head?, IsOpening x) :
    ∃ y : Spot, (Spot.mk true false false place).Reads [.scalar .quoted v] y ∧
      y.opened = true ∧ y.StartsLine (place.line + 1) rest := by
  have hrest : (place.advance 1).rest = between capital v ++ '\n' :: rest :=
    Cursor.rest_advance_cons h
  refine ⟨_, ?_, rfl, startsLine_newline (Cursor.rest_advance_append hrest) rfl hnext⟩
  apply reads_of_next
  · change ((place.advance 1).advance _).size < place.size
    rw [Cursor.advance_advance]
    exact Cursor.size_advance_lt (by omega) (by simp [h])
  · intro taken
    have hgap : Scan.skipGap false false place = (false, place.advance 1) :=
      @Scan.skipGap_blanks false false place [' '] _ h (by simp) (isOpening_between v)
    rw [scan, next_eq hgap (dropStale_of_fresh (by simp)),
      Scan.token_quote (Cursor.atDocumentMarker_of_pos (Nat.succ_pos _))
        (by rw [← between_append]; exact hrest)]
    exact content_eq (saveKey_of_not_allowed rfl) (quoted_between hrest)

theorem reads_bracketOpen (h : place.rest = ' ' :: '[' :: rest) :
    (Spot.mk true false false place).Reads [.bracketOpen]
      ⟨true, true, true, (place.advance 1).advance 1⟩ := by
  have hrest : (place.advance 1).rest = '[' :: rest := Cursor.rest_advance_cons h
  apply reads_of_next
  · rw [Cursor.advance_advance]
    exact Cursor.size_advance_lt (by decide) (by simp [h])
  · intro taken
    have hgap : Scan.skipGap false false place = (false, place.advance 1) :=
      @Scan.skipGap_blanks false false place [' '] _ h (by simp) (isOpening_of_mem (by decide))
    rw [scan, next_eq hgap (dropStale_of_fresh (by simp)),
      Scan.token_bracketOpen (Cursor.atDocumentMarker_of_pos (Nat.succ_pos _)) hrest]
    exact @openBracket_eq ⟨true, false, false, place.advance 1⟩ taken [] .bracketOpen rfl rfl

theorem next_comma (hcolumn : 0 < place.column) (h : place.rest = ',' :: rest)
    (hkey : ∀ k ∈ key, k.required = false) :
    ((Spot.mk true true false place).holding taken queue key).next = some
      ((Spot.mk true true true (place.advance 1)).holding taken (queue ++ [.comma]) none) := by
  have hgap : Scan.skipGap true false place = (false, place) :=
    @Scan.skipGap_blanks true false place [] _ h (by simp) (isOpening_of_mem (by decide))
  obtain ⟨key', hkey', hnext⟩ :=
    @next_of_free ⟨true, true, false, place⟩ taken queue _ _ _ hkey hgap
  rw [hnext, Scan.token_comma (Cursor.atDocumentMarker_of_pos hcolumn) h]
  exact comma_eq hkey'

theorem next_bracketClose {allowed : Bool} (hcolumn : 0 < place.column)
    (h : place.rest = ']' :: rest) (hkey : ∀ k ∈ key, k.required = false) :
    ((Spot.mk true true allowed place).holding taken queue key).next = some
      ((Spot.mk true false false (place.advance 1)).holding taken (queue ++ [.bracketClose])
        none) := by
  have hgap : Scan.skipGap true allowed place = (allowed, place) :=
    @Scan.skipGap_blanks true allowed place [] _ h (by simp) (isOpening_of_mem (by decide))
  obtain ⟨key', hkey', hnext⟩ :=
    @next_of_free ⟨true, true, allowed, place⟩ taken queue _ _ _ hkey hgap
  rw [hnext, Scan.token_bracketClose (Cursor.atDocumentMarker_of_pos hcolumn) h]
  exact closeBracket_eq rfl hkey'

/-- A text between brackets, and the mark behind it. -/
theorem reads_item {v : String} {lead : List Char} {u : Token} {y z : Spot}
    (hcolumn : 0 < place.column) (h : place.rest = lead ++ (between capital v ++ rest))
    (hlead : ∀ b ∈ lead, b = ' ')
    (hy : y = ⟨true, true, false, (place.advance lead.length).advance (between capital v).length⟩)
    (hless : z.place.size < y.place.size)
    (hmark : ∀ taken queue key, (∀ k ∈ key, k.required = false) →
      (y.holding taken queue key).next = some (z.holding taken (queue ++ [u]) none)) :
    (Spot.mk true true true place).Reads [.scalar .quoted v, u] z := by
  subst hy
  have hrest := Cursor.rest_advance_append h
  apply reads_of_item (fun taken => ⟨false, taken, place.advance lead.length⟩) (fun taken => rfl)
    (fun taken => rfl) _ hless _ hmark
  · change ((place.advance lead.length).advance (between capital v).length).size < place.size
    have hne : place.rest ≠ [] := by
      rw [h, between_append]
      simp
    rw [Cursor.advance_advance]
    apply Cursor.size_advance_lt _ hne
    simp only [between, List.length_append, List.length_cons]
    omega
  · intro taken
    have hgap : Scan.skipGap true true place = (true, place.advance lead.length) :=
      Scan.skipGap_blanks h hlead (isOpening_between v)
    have hmarker : (place.advance lead.length).atDocumentMarker = false :=
      Cursor.atDocumentMarker_of_pos (Nat.lt_of_lt_of_le hcolumn (Nat.le_add_right _ _))
    rw [scan, next_eq hgap (dropStale_of_fresh (by simp)),
      Scan.token_quote hmarker (by rw [← between_append]; exact hrest)]
    exact content_eq (saveKey_of_allowed rfl) (quoted_between hrest)

theorem behind_item {v : String} {lead : List Char} (hcolumn : 0 < place.column)
    (h : place.rest = lead ++ (between capital v ++ rest)) :
    ((place.advance lead.length).advance (between capital v).length).rest = rest ∧
      0 < ((place.advance lead.length).advance (between capital v).length).column := by
  refine ⟨Cursor.rest_advance_append (Cursor.rest_advance_append h), ?_⟩
  rw [Cursor.advance_advance]
  exact Nat.lt_of_lt_of_le hcolumn (Nat.le_add_right _ _)

theorem reads_items {lead : List Char} (v : String) (vs : List String)
    (hcolumn : 0 < place.column) (hlead : ∀ b ∈ lead, b = ' ')
    (h : place.rest = lead ++ (between capital v ++
      (vs.flatMap (fun w => ',' :: ' ' :: between capital w) ++ ']' :: rest))) :
    ∃ place', (Spot.mk true true true place).Reads (itemTokens (v :: vs))
      ⟨true, false, false, place'⟩ ∧ place'.rest = rest ∧ place'.line = place.line := by
  -- The first text is kept apart, so that each text of the induction has its mark behind it.
  induction vs generalizing place lead v with
  | nil =>
      obtain ⟨hmark, hcolumn'⟩ := behind_item hcolumn h
      rw [List.flatMap_nil, List.nil_append] at hmark
      refine ⟨_, reads_item hcolumn h hlead rfl ?_ ?_, Cursor.rest_advance_cons hmark, rfl⟩
      · exact Cursor.size_advance_lt (by decide) (by simp [hmark])
      · exact fun taken queue key hkey => next_bracketClose hcolumn' hmark hkey
  | cons w vs ih =>
      obtain ⟨hmark, hcolumn'⟩ := behind_item hcolumn h
      simp only [List.flatMap_cons, List.cons_append, List.append_assoc] at hmark
      obtain ⟨place', hreads, hrest, hsame⟩ := @ih _ [' '] w (Nat.succ_pos _) (by simp)
        (Cursor.rest_advance_cons hmark)
      refine ⟨place', @Reads.trans _ _ _ [.scalar .quoted v, .comma] _ ?_ hreads, hrest, hsame⟩
      apply reads_item hcolumn h hlead rfl
      · exact Cursor.size_advance_lt (by decide) (by simp [hmark])
      · exact fun taken queue key hkey => next_comma hcolumn' hmark hkey

/-- A list between brackets behind a colon. -/
theorem reads_list (vs : List String)
    (h : place.rest = ' ' :: (arrayText capital vs ++ '\n' :: rest))
    (hnext : ∀ x ∈ rest.head?, IsOpening x) :
    ∃ y : Spot, (Spot.mk true false false place).Reads (.bracketOpen :: itemTokens vs) y ∧
      y.opened = true ∧ y.StartsLine (place.line + 1) rest := by
  cases vs with
  | nil =>
      have hopen : place.rest = ' ' :: '[' :: (']' :: '\n' :: rest) := h
      have hclose : ((place.advance 1).advance 1).rest = ']' :: '\n' :: rest :=
        Cursor.rest_advance_cons (Cursor.rest_advance_cons hopen)
      have hlast : (Spot.mk true true true ((place.advance 1).advance 1)).Reads [.bracketClose]
          ⟨true, false, false, ((place.advance 1).advance 1).advance 1⟩ := by
        apply reads_of_next
        · exact Cursor.size_advance_lt (by decide) (by simp [hclose])
        · exact fun taken => next_bracketClose (Nat.succ_pos _) hclose (by simp)
      exact ⟨_, (reads_bracketOpen hopen).trans hlast, rfl,
        startsLine_newline (Cursor.rest_advance_cons hclose) rfl hnext⟩
  | cons v vs =>
      have hopen : place.rest = ' ' :: '[' :: (between capital v ++
          (vs.flatMap (fun w => ',' :: ' ' :: between capital w) ++ ']' :: '\n' :: rest)) := by
        rw [h, arrayText]
        simp
      obtain ⟨place', hreads, hrest, hsame⟩ := @reads_items capital _ ('\n' :: rest) [] v vs
        (Nat.succ_pos _) (by simp) (Cursor.rest_advance_cons (Cursor.rest_advance_cons hopen))
      exact ⟨_, (reads_bracketOpen hopen).trans hreads, rfl, startsLine_newline hrest hsame hnext⟩

end Quoted

/-- At the end of the text the mapping is closed, if there is one. -/
theorem run_end {line : Nat} (h : x.StartsLine line []) : (x.scan taken).run =
    ((if x.opened then [.blockEnd] else []) ++ [.streamEnd], true) := by
  obtain ⟨hflow, hgap, -⟩ := h
  have hnext : (x.scan taken).next = some
      { place := ⟨[], line, 0⟩, keyAllowed := false, taken, ended := true,
        queue := (if x.opened then [.blockEnd] else []) ++ [.streamEnd] } := by
    rw [← hflow] at hgap
    rw [scan, next_eq hgap (dropStale_of_fresh (by simp)), Scan.token]
    cases x.opened <;>
      simp [holding, Scan.endStream, Scan.closeBlocksTo, Scan.inFlow, hflow, margin,
        Scan.dropKey, Scan.push]
  have hemits : (x.scan taken).Emits [] _ :=
    Scan.emits_of_next rfl (dropStale_of_fresh (by simp)) release_of_none hnext (.inl rfl)
  rw [hemits, Scan.run_of_ended rfl rfl rfl]
  rfl

end Spot

end SyncPlan.Yaml
