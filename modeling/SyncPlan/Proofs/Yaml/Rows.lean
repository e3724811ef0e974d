import SyncPlan.Proofs.Yaml.Events
import SyncPlan.Proofs.Yaml.Pairs
import SyncPlan.Proofs.Yaml.Reading

/-!
Rows of a block mapping, each a key and a value on one line, and what is read of them: the tokens of
each row, the events of an entry from its key to the end of its value, and so a flat text with just
these pairs.
-/

namespace SyncPlan.Yaml
open Text

/-- A value as it is written: a plain scalar, a text between quotes, or a list of such texts between
brackets. -/
inductive Written
  | word (cs : List Char) (h : IsWord cs)
  | quoted (v : String)
  | list (vs : List String)

namespace Written

def text (capital : Bool) : Written → List Char
  | .word cs _ => cs
  | .quoted v => between capital v
  | .list vs => arrayText capital vs

def tokens : Written → List Token
  | .word cs _ => [.scalar .plain (String.ofList cs)]
  | .quoted v => [.scalar .quoted v]
  | .list vs => .bracketOpen :: itemTokens vs

def node : Written → Node
  | .word cs _ => .scalar ⟨none, none, .plain, String.ofList cs⟩
  | .quoted v => .scalar ⟨none, none, .quoted, v⟩
  | .list vs => .list none (vs.map fun v => ⟨none, none, .quoted, v⟩)

end Written

/-- A plain scalar that can be the key of a line. -/
structure IsKey (word : List Char) : Prop where
  isWord : IsWord word
  unmarked : ∀ c ∈ word.head?, c ≠ '-' ∧ c ≠ '.'
  length : word.length ≤ 1024

structure Row where
  key : List Char
  value : Written
  isKey : IsKey key

namespace Row

def text (capital : Bool) (r : Row) : List Char :=
  r.key ++ ':' :: ' ' :: (r.value.text capital ++ ['\n'])

def tokens (r : Row) : List Token :=
  .key :: .scalar .plain (String.ofList r.key) :: .value :: r.value.tokens

def entry (r : Row) : Entry := ⟨⟨none, none, .plain, String.ofList r.key⟩, r.value.node⟩

def pair (r : Row) : String × Node := r.entry.pair

end Row

/-- The tokens between the start and the end of the stream. -/
def blockTokens : List Row → List Token
  | [] => []
  | rows => .mappingOpen :: (rows.flatMap Row.tokens ++ [.blockEnd])

/-- The events of a text with these rows, none if there are none. -/
def blockEvents : List Row → List Event
  | [] => []
  | rows => .mappingStart none :: ((rows.map Row.entry).flatMap Entry.events ++ [.mappingEnd])

section Tokens

variable {capital : Bool} {place : Cursor} {line : Nat} {rest : List Char}

theorem reads_value (v : Written) (h : place.rest = ' ' :: (v.text capital ++ '\n' :: rest))
    (hnext : ∀ x ∈ rest.head?, IsOpening x) :
    ∃ y : Spot, (Spot.mk true false false place).Reads v.tokens y ∧
      y.opened = true ∧ y.StartsLine (place.line + 1) rest := by
  cases v with
  | word cs hword =>
      exact ⟨_, Spot.reads_word hword h hnext, rfl, Spot.startsLine_of_isOpening rfl hnext⟩
  | quoted v => exact Spot.reads_quoted h hnext
  | list vs => exact Spot.reads_list vs h hnext

/-- A row is read as the tokens of its entry, behind the one that opens the mapping if it is the
first row. -/
theorem reads_row {x : Spot} (r : Row) (h : x.StartsLine line (r.text capital ++ rest))
    (hnext : ∀ c ∈ rest.head?, IsOpening c) :
    ∃ y : Spot, x.Reads ((if x.opened then [] else [.mappingOpen]) ++ r.tokens) y ∧
      y.opened = true ∧ y.StartsLine (line + 1) rest := by
  have htext : r.text capital ++ rest =
      r.key ++ ':' :: ' ' :: (r.value.text capital ++ '\n' :: rest) := by simp [Row.text]
  rw [htext] at h
  have hkey := Spot.reads_key h r.isKey.isWord r.isKey.unmarked r.isKey.length
  obtain ⟨y, hvalue, hopened, hline⟩ := @reads_value capital
    ⟨' ' :: (r.value.text capital ++ '\n' :: rest), line, r.key.length + 1⟩ rest r.value rfl hnext
  refine ⟨y, ?_, hopened, hline⟩
  simpa [Row.tokens] using hkey.trans hvalue

theorem isOpening_rows_append (rows : List Row) (hrest : ∀ c ∈ rest.head?, IsOpening c) :
    ∀ c ∈ (rows.flatMap (Row.text capital) ++ rest).head?, IsOpening c := by
  cases rows with
  | nil => exact hrest
  | cons r rows =>
      have hopening := @IsWord.isOpening _ (':' :: ' ' :: (r.value.text capital ++ ['\n'] ++
        rows.flatMap (Row.text capital) ++ rest)) r.isKey.isWord
      simpa [Row.text] using hopening

/-- Rows are read up to the line behind them. -/
theorem reads_rows {x : Spot} (rows : List Row) (hopened : x.opened = true)
    (h : x.StartsLine line (rows.flatMap (Row.text capital) ++ rest))
    (hrest : ∀ c ∈ rest.head?, IsOpening c) :
    ∃ y : Spot, x.Reads (rows.flatMap Row.tokens) y ∧ y.opened = true ∧
      y.StartsLine (line + rows.length) rest := by
  induction rows generalizing x line with
  | nil => exact ⟨x, fun taken => rfl, hopened, h⟩
  | cons r rows ih =>
      rw [List.flatMap_cons, List.append_assoc] at h
      obtain ⟨y, hrow, hopened', hstart⟩ := reads_row r h (isOpening_rows_append rows hrest)
      obtain ⟨z, hrows, hopened'', hend⟩ := ih hopened' hstart
      rw [hopened] at hrow
      rw [Nat.add_right_comm] at hend
      exact ⟨z, hrow.trans hrows, hopened'', hend⟩

/-- The token that opens the mapping, before the first row. -/
def opening : List Row → List Token
  | [] => []
  | _ :: _ => [.mappingOpen]

/-- The first row opens the mapping, and all others find it open. -/
theorem reads_opening {x : Spot} (rows : List Row) (hopened : x.opened = false)
    (h : x.StartsLine line (rows.flatMap (Row.text capital) ++ rest))
    (hrest : ∀ c ∈ rest.head?, IsOpening c) :
    ∃ y : Spot, x.Reads (opening rows ++ rows.flatMap Row.tokens) y ∧ y.opened = !rows.isEmpty ∧
      y.StartsLine (line + rows.length) rest := by
  cases rows with
  | nil => exact ⟨x, fun taken => rfl, hopened, h⟩
  | cons r rows =>
      rw [List.flatMap_cons, List.append_assoc] at h
      obtain ⟨y, hrow, hopened', hstart⟩ := reads_row r h (isOpening_rows_append rows hrest)
      obtain ⟨z, hrows, hopened'', hend⟩ := reads_rows rows hopened' hstart hrest
      rw [hopened] at hrow
      rw [Nat.add_right_comm] at hend
      exact ⟨z, hrow.trans hrows, hopened'', hend⟩

theorem isLineChar_of_mem_text {v : Written} {c : Char} (h : c ∈ v.text capital) :
    IsLineChar c := by
  cases v with
  | word cs hword => exact .inr (hword.chars c h).1
  | quoted v => exact .inr (isPrintable_of_mem_between h)
  | list vs => exact .inr (isPrintable_of_mem_arrayText h)

theorem isLineChar_of_mem_rows {rows : List Row} {c : Char}
    (h : c ∈ rows.flatMap (Row.text capital)) : IsLineChar c := by
  obtain ⟨r, -, hc⟩ := List.mem_flatMap.1 h
  rw [Row.text, List.mem_append, List.mem_cons, List.mem_cons, List.mem_append] at hc
  rcases hc with hkey | rfl | rfl | hvalue | hend
  · exact .inr (r.isKey.isWord.chars c hkey).1
  · exact .inr (by decide)
  · exact .inr (by decide)
  · exact isLineChar_of_mem_text hvalue
  · exact .inl (List.mem_singleton.1 hend)

theorem isStreamChar_of_isLineChar {c : Char} (h : IsLineChar c) : isStreamChar c = true := by
  cases h with
  | inl hend =>
      subst hend
      decide
  | inr hprintable =>
      rw [isPrintable] at hprintable
      simp [isStreamChar, hprintable]

theorem all_isStreamChar_rows (rows : List Row) :
    (rows.flatMap (Row.text capital)).all isStreamChar = true := by
  rw [List.all_eq_true]
  exact fun c hc => isStreamChar_of_isLineChar (isLineChar_of_mem_rows hc)

/-- The start of a stream, behind which its first line begins. -/
theorem emits_start {cs : List Char} (h : ∀ c ∈ cs.head?, IsOpening c) :
    (Scan.start cs).Emits [.streamStart] ((Spot.mk false false true ⟨cs, 0, 0⟩).scan 1) := by
  have hmark : (cs.head? == some '\ufeff') = false := by
    rw [beq_eq_false_iff_ne]
    exact fun heq => (h '\ufeff' heq).2.2 rfl
  have hscan : Scan.start cs =
      (Spot.mk false false true ⟨cs, 0, 0⟩).holding 0 [.streamStart] none := by
    rw [Scan.start, hmark]
    rfl
  rw [hscan]
  exact Spot.emits_queue

/-- Rows are read as their tokens. -/
theorem tokens_rows (rows : List Row) : Yaml.tokens (rows.flatMap (Row.text capital)) =
    (.streamStart :: (blockTokens rows ++ [.streamEnd]), true) := by
  obtain ⟨cs, hcs⟩ : ∃ cs, rows.flatMap (Row.text capital) = cs := ⟨_, rfl⟩
  have hrows : rows.flatMap (Row.text capital) ++ [] = cs := by rw [List.append_nil, hcs]
  have hopening : ∀ c ∈ cs.head?, IsOpening c := hrows ▸ isOpening_rows_append rows (by simp)
  have hstart : (Spot.mk false false true ⟨cs, 0, 0⟩).StartsLine 0 cs :=
    Spot.startsLine_of_isOpening rfl hopening
  rw [hcs, Scan.tokens_of_all (hcs ▸ all_isStreamChar_rows rows), emits_start hopening]
  rw [← hrows] at hstart
  obtain ⟨y, hreads, hopened, hend⟩ := reads_opening rows rfl hstart (by simp)
  rw [hrows] at hreads
  rw [hreads 1, Spot.run_end hend, hopened]
  cases rows with
  | nil => rfl
  | cons r rows => simp [blockTokens, opening]

end Tokens

section Events
open Grammar

variable {rest : List Want}

theorem gives_items (vs : List String) :
    (expecting (.bracketItem :: rest)).Gives (itemTokens vs)
      (vs.map (.scalar none none .quoted) ++ [.sequenceEnd]) (expecting rest) := by
  have hmore (vs : List String) : (expecting (.bracketNext :: rest)).Gives
      (vs.flatMap (fun w => [.comma, .scalar .quoted w]) ++ [.bracketClose])
      (vs.map (.scalar none none .quoted) ++ [.sequenceEnd]) (expecting rest) := by
    induction vs with
    | nil => exact gives_of_take rfl rfl
    | cons w vs ih => exact (gives_comma.trans gives_item).trans ih
  cases vs with
  | nil => exact gives_of_take rfl rfl
  | cons v vs => exact gives_item.trans (hmore vs)

theorem gives_value (v : Written) : (expecting (.valueNode :: rest)).Gives v.tokens
    v.node.events (expecting (.key :: rest)) := by
  cases v with
  | word cs hword | quoted v => exact gives_scalar
  | list vs =>
      have hlist := gives_bracketOpen.trans (@gives_items (.key :: rest) vs)
      simpa [Written.tokens, Written.node, Node.events, Scalar.event, Function.comp_def] using hlist

theorem gives_rows (rows : List Row) : (expecting (.key :: rest)).Gives
    (rows.flatMap Row.tokens) ((rows.map Row.entry).flatMap Entry.events)
      (expecting (.key :: rest)) := by
  induction rows with
  | nil => exact Gives.nil _
  | cons r rows ih => exact (gives_key.trans (gives_value r.value)).trans ih

theorem ofText_rows (capital : Bool) (rows : List Row) :
    Document.ofText (rows.flatMap (Row.text capital)) = ⟨blockEvents rows, true⟩ := by
  have hstream : (expecting [.stream]).Gives (.streamStart :: (blockTokens rows ++ [.streamEnd]))
      (blockEvents rows) (expecting []) := by
    cases rows with
    | nil => exact gives_streamStart.trans (gives_of_take rfl rfl)
    | cons r rows =>
        have hend : (expecting [.key, .documentEnd]).Gives [.blockEnd] [.mappingEnd]
            (expecting [.documentEnd]) := gives_of_take rfl rfl
        have hlast : (expecting [.documentEnd]).Gives [.streamEnd] [] (expecting []) :=
          gives_of_pass rfl rfl rfl rfl
        have hblock := gives_mappingOpen.trans
          ((gives_rows (r :: rows)).trans (hend.trans hlast))
        simpa [blockTokens, blockEvents] using gives_streamStart.trans hblock
  have hrun := hstream []
  rw [List.append_nil] at hrun
  have hstart : ({} : Grammar) = expecting [.stream] := rfl
  rw [Document.ofText, tokens_rows]
  simp only [hstart, hrun]
  simp [expecting, run]

theorem ofText_of_runWithin {cs : List Char} {es : List Event} (n : Nat)
    (hchars : cs.all isStreamChar = true)
    (hrun : ((Scan.start cs).runWithin n).map (Prod.map (Grammar.run {}) id) =
      some ((es, true), true)) : Document.ofText cs = ⟨es, true⟩ := by
  rw [Option.map_eq_some_iff] at hrun
  obtain ⟨⟨ts, sound⟩, htokens, hevents⟩ := hrun
  obtain ⟨hrun, rfl⟩ := Prod.mk.inj hevents
  rw [Document.ofText, Scan.tokens_of_all hchars, Scan.run_of_runWithin htokens]
  simp only [hrun]
  rfl

end Events

/-- Rows are a flat text. -/
theorem isFlat_rows (capital : Bool) (rows : List Row) :
    IsFlat (rows.flatMap (Row.text capital)) (rows.map Row.pair) := by
  have hdocument := ofText_rows capital rows
  cases rows with
  | nil => exact .blank hdocument
  | cons r rows =>
      have hflat := IsFlat.mapping hdocument
      rwa [List.map_map] at hflat

end SyncPlan.Yaml
