import SyncPlan.Proofs.Yaml.Scalars
import SyncPlan.Yaml.Scan

/-!
The scanner at the spots where it holds no token back. What it reads from one spot to another is
told by the tokens alone: whether a token waits for a colon, is given up as a key because its line
goes on too long, or comes out at once makes no difference to their order.
-/

namespace SyncPlan.Yaml
open Text

/-- A character that no gap passes over. -/
def IsOpening (c : Char) : Prop := isGap c = false ∧ c ≠ '#' ∧ c ≠ '\ufeff'

instance : DecidablePred IsOpening := fun c =>
  inferInstanceAs (Decidable (isGap c = false ∧ c ≠ '#' ∧ c ≠ '\ufeff'))

namespace Scan

/-- A key is not given up within as many characters as one may have. -/
theorem isStale_advance {required : Bool} {number n : Nat} (c : Cursor) (h : n ≤ 1024) :
    isStale (c.advance n) ⟨required, number, c⟩ = false := by
  have hsize := c.size_advance n
  have hline : (c.advance n).line = c.line := rfl
  simp only [isStale, hsize, hline, Nat.lt_irrefl, decide_false, Bool.false_or,
    decide_eq_false_iff_not]
  omega

/-- The end of the part of a gap that is on its first line. -/
def lineGap (flow allowed : Bool) (c : Cursor) : Cursor :=
  let c := if c.column == 0 && c.rest.head? == some '\ufeff' then c.advance 1 else c
  let c := c.skipWhile fun x => x == ' ' || (x == '\t' && (flow || !allowed))
  if c.rest.head? = some '#' then c.skipWhile (!isBreak ·) else c

theorem skipGap_eq (flow allowed : Bool) (c : Cursor) :
    skipGap flow allowed c = match (lineGap flow allowed c).break? with
      | none => (allowed, lineGap flow allowed c)
      | some (_, d) => skipGap flow (allowed || !flow) d := by
  rw [skipGap]
  split <;> simp_all [lineGap]

theorem lineGap_blanks {flow allowed : Bool} {c : Cursor} {blanks rest : List Char}
    (h : c.rest = blanks ++ rest) (hblanks : ∀ b ∈ blanks, b = ' ')
    (hrest : ∀ x ∈ rest.head?, isBlank x = false ∧ x ≠ '#' ∧ x ≠ '\ufeff') :
    lineGap flow allowed c = c.advance blanks.length := by
  have hmark : (c.rest.head? == some '\ufeff') = false := by
    rw [h]
    cases blanks with
    | nil =>
        rw [beq_eq_false_iff_ne]
        exact fun heq => (hrest '\ufeff' heq).2.2 rfl
    | cons b blanks => simp [hblanks b List.mem_cons_self]
  have htake :
      c.rest.takeWhile (fun x => x == ' ' || (x == '\t' && (flow || !allowed))) = blanks := by
    rw [h, List.takeWhile_append_of_pos fun b hb => by simp [hblanks b hb]]
    cases rest with
    | nil => simp
    | cons x rest =>
        have hx := (hrest x rfl).1
        rw [isBlank, Bool.or_eq_false_iff] at hx
        simp [hx.1, hx.2]
  have hcomment : (c.advance blanks.length).rest.head? ≠ some '#' := by
    rw [Cursor.rest_advance_append h]
    exact fun heq => (hrest '#' heq).2.1 rfl
  simp [lineGap, hmark, Cursor.skipWhile, htake, hcomment]

/-- A gap within a line ends before the character that opens the next token. -/
theorem skipGap_blanks {flow allowed : Bool} {c : Cursor} {blanks rest : List Char}
    (h : c.rest = blanks ++ rest) (hblanks : ∀ b ∈ blanks, b = ' ')
    (hrest : ∀ x ∈ rest.head?, IsOpening x) :
    skipGap flow allowed c = (allowed, c.advance blanks.length) := by
  have hgap : lineGap flow allowed c = c.advance blanks.length := by
    apply lineGap_blanks h hblanks
    intro x hx
    obtain ⟨hgap, hvisible⟩ := hrest x hx
    rw [isGap, Bool.or_eq_false_iff] at hgap
    exact ⟨hgap.1, hvisible⟩
  have hbreak : (c.advance blanks.length).break? = none := by
    apply Cursor.break?_of_not_isBreak
    rw [Cursor.rest_advance_append h]
    intro x hx
    have hx := (hrest x hx).1
    rw [isGap, Bool.or_eq_false_iff] at hx
    exact hx.2
  rw [skipGap_eq, hgap, hbreak]

/-- A gap over the end of a line allows a key on the next one. -/
theorem skipGap_newline {allowed : Bool} {c : Cursor} {rest : List Char}
    (h : c.rest = '\n' :: rest) (hrest : ∀ x ∈ rest.head?, IsOpening x) :
    skipGap false allowed c = (true, c.wrap 1) := by
  have hgap : lineGap false allowed c = c :=
    @lineGap_blanks false allowed c [] _ h (by simp) (by simp [isBlank])
  have hwrap : (c.wrap 1).rest = [] ++ rest := by simp [Cursor.wrap, h]
  rw [skipGap_eq, hgap, Cursor.break?_newline h]
  simpa [Cursor.advance] using
    @skipGap_blanks false (allowed || !false) _ [] _ hwrap (by simp) hrest

/-- Reading one state gives some tokens and then those of another state. -/
def Emits (s : Scan) (ts : List Token) (t : Scan) : Prop := s.run = (ts ++ t.run.1, t.run.2)

theorem Emits.trans {s t u : Scan} {ts us : List Token} (h : s.Emits ts t) (h' : t.Emits us u) :
    s.Emits (ts ++ us) u := by
  rw [Emits, h, h', List.append_assoc]

/-- The tokens that are released and those behind the next token. -/
theorem emits_of_next {s kept held t : Scan} {ts : List Token} (hended : s.ended = false)
    (hkept : s.dropStale = some kept) (hrelease : kept.release = (ts, held))
    (hnext : held.next = some t) (hless : t.ended = true ∨ t.place.size < s.place.size) :
    s.Emits ts t := by
  rw [Emits, run.eq_def s, hkept]
  simp [hended, hrelease, hnext, hless]

/-- A state that differs from another one only by the tokens that it releases. -/
theorem emits_of_release {s s' kept kept' held : Scan} {ts : List Token}
    (hended : s.ended = s'.ended) (hsize : s.place.size = s'.place.size)
    (hkept : s.dropStale = some kept) (hkept' : s'.dropStale = some kept')
    (hrelease : kept.release = (ts, held)) (hrelease' : kept'.release = ([], held)) :
    s.Emits ts s' := by
  rw [Emits, run.eq_def s, run.eq_def s', hkept, hkept']
  simp only [hrelease, hrelease', hended, hsize]
  split
  · simp
  · cases held.next with
    | none => simp
    | some t =>
        simp only
        split <;> simp

/-- Behind the end of the stream nothing is read. -/
theorem run_of_ended {s : Scan} (h : s.ended = true) (hkey : s.key = none)
    (houter : s.outerKeys = []) : s.run = (s.queue, true) := by
  have hkept : s.dropStale = some s := by
    cases s
    simp_all [dropStale]
  have hrelease : s.release.1 = s.queue := by simp [release, hkey, houter]
  rw [run.eq_def, hkept]
  simp [h, hrelease]

/-- What is read in at most so many steps, if they are enough. -/
def runWithin : Nat → Scan → Option (List Token × Bool)
  | 0, _ => none
  | n + 1, s =>
    match s.dropStale with
    | none => some ([], false)
    | some kept =>
      let (tokens, held) := kept.release
      if s.ended then some (tokens, true)
      else match held.next with
      | none => some (tokens, false)
      | some t =>
        if t.ended ∨ t.place.size < s.place.size then
          (runWithin n t).map fun (more, sound) => (tokens ++ more, sound)
        else some (tokens, false)

/-- So the tokens of a given text can be computed. -/
theorem run_of_runWithin {n : Nat} {s : Scan} {r : List Token × Bool}
    (h : runWithin n s = some r) : s.run = r := by
  induction n generalizing s r with
  | zero => simp [runWithin] at h
  | succ n ih =>
      rw [runWithin] at h
      rw [run.eq_def]
      cases hkept : s.dropStale with
      | none => simpa [hkept] using h
      | some kept =>
          simp only [hkept] at h ⊢
          split at h
          · next hended => simpa [hended] using h
          · next hended =>
              cases hnext : kept.release.2.next with
              | none => simpa [hended, hnext] using h
              | some t =>
                  simp only [hnext] at h ⊢
                  split at h
                  · next hless =>
                      rw [Option.map_eq_some_iff] at h
                      obtain ⟨more, hmore, rfl⟩ := h
                      rw [if_neg hended, if_pos hless, ih hmore]
                  · next hless =>
                      rw [if_neg hended, if_neg hless]
                      exact Option.some.inj h

/-- All chunks of a stream without forbidden characters can be decoded. -/
theorem decodable_of_all {cs : List Char} (h : cs.all isStreamChar = true) (room : Nat)
    (chunk : List Char) : decodable room chunk cs = chunk.reverse ++ cs := by
  induction cs generalizing room chunk with
  | nil => simp [decodable]
  | cons c cs ih =>
      rw [List.all_cons, Bool.and_eq_true] at h
      rw [decodable, if_pos h.1, if_pos h.1]
      split
      · simp [ih h.2]
      · simp [ih h.2]

theorem tokens_of_all {cs : List Char} (h : cs.all isStreamChar = true) :
    tokens cs = (start cs).run := by
  rw [tokens, decodable_of_all h, h]
  rfl

end Scan

/-- A place between two tokens: whether the block mapping is open, whether brackets are, whether a
key is allowed, and the characters that are left. -/
structure Spot where
  opened : Bool
  flow : Bool
  allowed : Bool
  place : Cursor

namespace Spot

def margin (x : Spot) : Nat := if x.opened then 1 else 0

/-- The state of reading at a spot where some tokens are held back, perhaps by a pending key. -/
def holding (x : Spot) (taken : Nat) (queue : List Token) (key : Option PendingKey) : Scan where
  place := x.place
  margin := x.margin
  outerMargins := if x.opened then [0] else []
  keyAllowed := x.allowed
  key := key
  outerKeys := if x.flow then [none] else []
  queue := queue
  taken := taken

/-- The state of reading at a spot where no token is held back. -/
def scan (x : Spot) (taken : Nat) : Scan := x.holding taken [] none

variable {x y z : Spot} {taken : Nat} {queue : List Token} {key : Option PendingKey}
  {k : PendingKey}

theorem inFlow_holding : (x.holding taken queue key).inFlow = x.flow := by
  cases h : x.flow <;> simp [Scan.inFlow, holding, h]

theorem dropStale_of_fresh (h : ∀ k ∈ key, Scan.isStale x.place k = false) :
    (x.holding taken queue key).dropStale = some (x.holding taken queue key) := by
  cases key with
  | none => cases hf : x.flow <;> simp [Scan.dropStale, holding, hf]
  | some k =>
      have hk : Scan.isStale x.place k = false := h k rfl
      cases hf : x.flow <;> simp [Scan.dropStale, holding, hf, hk]

theorem dropStale_of_stale (hstale : Scan.isStale x.place k = true) (hfree : k.required = false) :
    (x.holding taken queue (some k)).dropStale = some (x.holding taken queue none) := by
  cases hf : x.flow <;> simp [Scan.dropStale, holding, hf, Option.filter, hstale, hfree]

theorem closeBlocksTo_succ (column : Nat) :
    Scan.closeBlocksTo (column + 1) (x.holding taken queue key) = x.holding taken queue key := by
  rw [Scan.closeBlocksTo, inFlow_holding]
  cases hf : x.flow <;> cases ho : x.opened <;> simp [holding, margin, hf, ho]

theorem release_of_pending (h : k.number = taken) :
    (x.holding taken queue (some k)).release = ([], x.holding taken queue (some k)) := by
  cases hf : x.flow <;> simp [Scan.release, holding, hf, h]

theorem release_of_none :
    (x.holding taken queue none).release = (queue, x.scan (taken + queue.length)) := by
  cases hf : x.flow <;> simp [Scan.release, scan, holding, hf]

/-- The next token is read behind the gap, at a spot where no block is left. -/
theorem next_eq {allowed : Bool} {place : Cursor} {key' : Option PendingKey}
    (hgap : Scan.skipGap x.flow x.allowed x.place = (allowed, place))
    (hkey : ({ x with allowed, place }.holding taken queue key).dropStale =
      some ({ x with allowed, place }.holding taken queue key')) :
    (x.holding taken queue key).next =
      ({ x with allowed, place }.holding taken queue key').token := by
  have hflow : (x.holding taken queue key).inFlow = x.flow := inFlow_holding
  have hclose := @closeBlocksTo_succ { x with allowed, place } taken queue key' place.column
  have hgap' : Scan.skipGap (x.holding taken queue key).inFlow
      (x.holding taken queue key).keyAllowed (x.holding taken queue key).place =
        (allowed, place) := by rw [hflow]; exact hgap
  rw [Scan.next, hgap']
  change (({ x with allowed, place }.holding taken queue key).dropStale.bind fun s => do
    guard (s.sees 4 place)
    let t ← (Scan.closeBlocksTo (place.column + 1) s).token
    guard (s.sees 1 t.place)
    some t) = _
  rw [hkey, Option.bind_some, hclose]
  -- The stream is whole, so that all that is looked at can be seen.
  cases ({ x with allowed, place }.holding taken queue key').token <;> rfl

/-- Tokens that nothing holds back come first. -/
theorem emits_queue : (x.holding taken queue none).Emits queue (x.scan (taken + queue.length)) := by
  have hkept := @dropStale_of_fresh x taken queue none (by simp)
  have hkept' := @dropStale_of_fresh x (taken + queue.length) [] none (by simp)
  have hrelease := @release_of_none x taken queue
  have hrelease' := @release_of_none x (taken + queue.length) []
  exact Scan.emits_of_release rfl rfl hkept hkept' hrelease hrelease'

/-- From one spot on some tokens are read, and then those from another spot on, however many were
read before. -/
def Reads (x : Spot) (ts : List Token) (y : Spot) : Prop :=
  ∀ taken, (x.scan taken).Emits ts (y.scan (taken + ts.length))

theorem Reads.trans {ts us : List Token} (h : x.Reads ts y) (h' : y.Reads us z) :
    x.Reads (ts ++ us) z := by
  intro taken
  rw [List.length_append, ← Nat.add_assoc]
  exact (h taken).trans (h' (taken + ts.length))

theorem reads_of_next {ts : List Token} (hless : y.place.size < x.place.size)
    (h : ∀ taken, (x.scan taken).next = some (y.holding taken ts none)) : x.Reads ts y := by
  intro taken
  have hnext : (x.scan taken).Emits [] (y.holding taken ts none) :=
    Scan.emits_of_next rfl (dropStale_of_fresh (by simp)) release_of_none (h taken) (.inr hless)
  exact hnext.trans emits_queue

/-- A token that a key may begin with is held back until a colon follows on the same line. -/
theorem reads_of_key {t : Token} {ts : List Token} (key : Nat → PendingKey)
    (hnumber : ∀ taken, (key taken).number = taken)
    (hfresh : ∀ taken, Scan.isStale y.place (key taken) = false)
    (hless : y.place.size < x.place.size) (hless' : z.place.size < y.place.size)
    (h : ∀ taken, (x.scan taken).next = some (y.holding taken [t] (some (key taken))))
    (h' : ∀ taken, (y.holding taken [t] (some (key taken))).next = some (z.holding taken ts none)) :
    x.Reads ts z := by
  intro taken
  have hnext : (x.scan taken).Emits [] (y.holding taken [t] (some (key taken))) :=
    Scan.emits_of_next rfl (dropStale_of_fresh (by simp)) release_of_none (h taken) (.inr hless)
  have hnext' : (y.holding taken [t] (some (key taken))).Emits [] (z.holding taken ts none) :=
    Scan.emits_of_next rfl (dropStale_of_fresh (by simp [hfresh]))
      (release_of_pending (hnumber taken)) (h' taken) (.inr hless')
  exact (hnext.trans hnext').trans emits_queue

/-- A token that no key begins with after all is held back at most until the next one is read, and
both come in their order. -/
theorem reads_of_item {t u : Token} (key : Nat → PendingKey)
    (hnumber : ∀ taken, (key taken).number = taken) (hfree : ∀ taken, (key taken).required = false)
    (hless : y.place.size < x.place.size) (hless' : z.place.size < y.place.size)
    (h : ∀ taken, (x.scan taken).next = some (y.holding taken [t] (some (key taken))))
    (h' : ∀ taken queue key, (∀ k ∈ key, k.required = false) →
      (y.holding taken queue key).next = some (z.holding taken (queue ++ [u]) none)) :
    x.Reads [t, u] z := by
  intro taken
  have hnext : (x.scan taken).Emits [] (y.holding taken [t] (some (key taken))) :=
    Scan.emits_of_next rfl (dropStale_of_fresh (by simp)) release_of_none (h taken) (.inr hless)
  -- Whether the key is given up before the mark depends on how long the text is.
  cases hstale : Scan.isStale y.place (key taken) with
  | true =>
      have hnext' : (y.holding taken [t] (some (key taken))).Emits [t]
          (z.holding (taken + 1) [u] none) :=
        Scan.emits_of_next rfl (dropStale_of_stale hstale (hfree taken)) release_of_none
          (h' (taken + 1) [] none (by simp)) (.inr hless')
      exact hnext.trans (hnext'.trans emits_queue)
  | false =>
      have hnext' : (y.holding taken [t] (some (key taken))).Emits []
          (z.holding taken ([t] ++ [u]) none) :=
        Scan.emits_of_next rfl (dropStale_of_fresh (by simp [hstale]))
          (release_of_pending (hnumber taken)) (h' taken [t] _ (by simp [hfree])) (.inr hless')
      exact hnext.trans (hnext'.trans emits_queue)

end Spot

namespace Scan

section Dispatch

variable {s : Scan} {c : Char} {rest : List Char} (hmarker : s.place.atDocumentMarker = false)
include hmarker

theorem token_plain (h : s.place.rest = c :: rest) (hgap : isGap c = false)
    (hc : isIndicator c = false ∨ c = '-' ∧ endsWord rest = false) : s.token = s.plain := by
  rw [Cursor.atDocumentMarker, Bool.or_eq_false_iff] at hmarker
  cases hc with
  | inl hindicator =>
      have hne {d : Char} (hd : isIndicator d = true) : c ≠ d := by
        rintro rfl
        rw [hindicator] at hd
        simp at hd
      have hbegins (flow : Bool) : beginsPlain flow c rest = true := by
        simp [beginsPlain, hgap, hindicator]
      rw [token, h]
      simp [hmarker.1, hmarker.2, hbegins, hne (show isIndicator '%' = true by decide),
        hne (show isIndicator '[' = true by decide), hne (show isIndicator '\x7b' = true by decide),
        hne (show isIndicator ']' = true by decide), hne (show isIndicator '\x7d' = true by decide),
        hne (show isIndicator ',' = true by decide), hne (show isIndicator '-' = true by decide),
        hne (show isIndicator '?' = true by decide), hne (show isIndicator ':' = true by decide),
        hne (show isIndicator '*' = true by decide), hne (show isIndicator '&' = true by decide),
        hne (show isIndicator '!' = true by decide), hne (show isIndicator '|' = true by decide),
        hne (show isIndicator '>' = true by decide), hne (show isIndicator '\'' = true by decide),
        hne (show isIndicator '"' = true by decide)]
  | inr hminus =>
      obtain ⟨rfl, hends⟩ := hminus
      have hblank : rest.head?.any isBlank = false := by
        cases rest with
        | nil => rfl
        | cons d ds =>
            simp only [endsWord, List.head?_cons, Option.all_some, isGap,
              Bool.or_eq_false_iff] at hends
            simp [hends.1]
      rw [token, h]
      simp [hmarker.1, hmarker.2, hends, beginsPlain, hblank]

theorem token_quote (h : s.place.rest = '"' :: rest) : s.token = s.content (quoted .double) := by
  rw [Cursor.atDocumentMarker, Bool.or_eq_false_iff] at hmarker
  rw [token, h]
  simp [hmarker.1, hmarker.2]

theorem token_bracketOpen (h : s.place.rest = '[' :: rest) :
    s.token = s.openBracket .bracketOpen := by
  rw [Cursor.atDocumentMarker, Bool.or_eq_false_iff] at hmarker
  rw [token, h]
  simp [hmarker.1, hmarker.2]

theorem token_bracketClose (h : s.place.rest = ']' :: rest) :
    s.token = s.closeBracket .bracketClose := by
  rw [Cursor.atDocumentMarker, Bool.or_eq_false_iff] at hmarker
  rw [token, h]
  simp [hmarker.1, hmarker.2]

theorem token_comma (h : s.place.rest = ',' :: rest) : s.token = s.comma := by
  rw [Cursor.atDocumentMarker, Bool.or_eq_false_iff] at hmarker
  rw [token, h]
  simp [hmarker.1, hmarker.2]

theorem token_colon (h : s.place.rest = ':' :: rest) (hends : endsWord rest = true) :
    s.token = s.colon := by
  rw [Cursor.atDocumentMarker, Bool.or_eq_false_iff] at hmarker
  rw [token, h]
  simp [hmarker.1, hmarker.2, hends]

end Dispatch

end Scan

namespace Spot

variable {x : Spot} {taken : Nat} {queue : List Token} {key : Option PendingKey} {t : Token}
  {place : Cursor}

theorem saveKey_of_not_allowed (h : x.allowed = false) :
    (x.holding taken queue none).saveKey = some (x.holding taken queue none) := by
  simp [Scan.saveKey, holding, h]

theorem saveKey_of_allowed (h : x.allowed = true) :
    (x.holding taken queue none).saveKey = some (x.holding taken queue
      (some ⟨!x.flow && x.margin == x.place.column + 1, taken + queue.length, x.place⟩)) := by
  have hflow := @inFlow_holding x taken queue none
  rw [Scan.saveKey, hflow]
  simp [Scan.dropKey, holding, h]

theorem dropKey_eq (h : ∀ k ∈ key, k.required = false) :
    (x.holding taken queue key).dropKey = some (x.holding taken queue none) := by
  cases key with
  | none => rfl
  | some k => simp [Scan.dropKey, holding, h k rfl]

theorem plain_eq {text : List Char} {broken : Bool}
    (hkey : (x.holding taken queue none).saveKey = some (x.holding taken queue key))
    (h : plainFrom x.flow x.margin x.place = some (text, broken, place)) :
    (x.holding taken queue none).plain = some ({ x with allowed := broken, place }.holding taken
      (queue ++ [Token.scalar .plain (String.ofList text)]) key) := by
  have hflow := @inFlow_holding x taken queue key
  rw [Scan.plain, hkey]
  change (plainFrom (x.holding taken queue key).inFlow x.margin x.place).bind _ = _
  rw [hflow, h]
  rfl

theorem content_eq {read : Cursor → Option (Token × Cursor)}
    (hkey : (x.holding taken queue none).saveKey = some (x.holding taken queue key))
    (h : read x.place = some (t, place)) :
    (x.holding taken queue none).content read = some
      ({ x with allowed := false, place }.holding taken (queue ++ [t]) key) := by
  rw [Scan.content, hkey]
  change (read x.place).bind _ = _
  rw [h]
  rfl

theorem openBracket_eq (hallowed : x.allowed = false) (hflow : x.flow = false) :
    (x.holding taken queue none).openBracket t = some
      (Spot.mk x.opened true true (x.place.advance 1) |>.holding taken (queue ++ [t]) none) := by
  rw [Scan.openBracket, saveKey_of_not_allowed hallowed]
  simp [holding, Scan.push, hflow, margin]

theorem closeBracket_eq (hflow : x.flow = true) (hkey : ∀ k ∈ key, k.required = false) :
    (x.holding taken queue key).closeBracket t = some
      (Spot.mk x.opened false false (x.place.advance 1) |>.holding taken (queue ++ [t]) none) := by
  rw [Scan.closeBracket, dropKey_eq hkey]
  simp [holding, Scan.push, hflow, margin]

theorem comma_eq (hkey : ∀ k ∈ key, k.required = false) :
    (x.holding taken queue key).comma = some
      ({ x with allowed := true, place := x.place.advance 1 }.holding taken (queue ++ [Token.comma])
        none) := by
  rw [Scan.comma, dropKey_eq hkey]
  rfl

theorem colon_eq {k : PendingKey} (hflow : x.flow = false) (hnumber : k.number = taken)
    (hcolumn : k.place.column = 0) :
    (x.holding taken queue (some k)).colon = some
      (Spot.mk true false false (x.place.advance 1) |>.holding taken
        ((if x.opened then [] else [.mappingOpen]) ++ (.key :: queue ++ [.value])) none) := by
  cases ho : x.opened <;>
    simp [Scan.colon, holding, Scan.insert, Scan.openBlock, Scan.inFlow, Scan.push, margin, hflow,
      hnumber, hcolumn, ho]

/-- A key that is not required may be given up before the next token. -/
theorem next_of_free {allowed : Bool} (hkey : ∀ k ∈ key, k.required = false)
    (hgap : Scan.skipGap x.flow x.allowed x.place = (allowed, place)) :
    ∃ key', (∀ k ∈ key', k.required = false) ∧ (x.holding taken queue key).next =
      ({ x with allowed, place }.holding taken queue key').token := by
  cases key with
  | none => exact ⟨none, hkey, next_eq hgap (dropStale_of_fresh (by simp))⟩
  | some k =>
      cases hstale : Scan.isStale place k with
      | true => exact ⟨none, by simp, next_eq hgap (dropStale_of_stale hstale (hkey k rfl))⟩
      | false =>
          refine ⟨some k, hkey, next_eq hgap (dropStale_of_fresh ?_)⟩
          simpa using hstale

end Spot

end SyncPlan.Yaml
