import Mathlib.Data.List.TakeWhile
import SyncPlan.Proofs.CommandLine.Items

/-!
Reading tokens against the items that they spell. Each token that is read spells some items, and
reading a token that spells items takes these items, whichever name it uses. A whole command line
is read exactly as the items that account for it are taken.
-/

namespace SyncPlan.CommandLine

theorem ofLong?_long : ∀ a ∈ Argument.named, Argument.ofLong? a.long = some a := by decide

theorem equals_notMem_long : ∀ a ∈ Argument.named, '=' ∉ a.long.toList := by decide

theorem ofShort?_of_short? {a : Argument} {c : Char} (h : a.short? = some c) :
    Argument.ofShort? c = some a ∧ c ≠ '-' := by
  rw [Argument.short?.eq_def] at h
  split at h <;> first | (simp at h; done) | (obtain rfl := Option.some.inj h; decide)

theorem ofShort?_eq_some_iff {a : Argument} {c : Char} :
    Argument.ofShort? c = some a ↔ a.short? = some c := by
  constructor
  · intro h
    have hshort := List.find?_some h
    simpa using hshort
  · intro h
    exact (ofShort?_of_short? h).1

theorem ofLong?_eq_some_iff {a : Argument} {name : String} :
    Argument.ofLong? name = some a ↔ a ∈ Argument.named ∧ a.long = name := by
  constructor
  · intro h
    have hlong := List.find?_some h
    exact ⟨List.mem_of_find?_eq_some h, by simpa using hlong⟩
  · intro h
    obtain ⟨hnamed, rfl⟩ := h
    exact ofLong?_long a hnamed

namespace Reading

variable {r r' : Reading}

theorem first_ne_dash {c : Char} {cs : List Char} {items : List Item} {next : Option Argument}
    (h : Cluster (c :: cs) items next) : c ≠ '-' := by
  cases h with
  | flag hshort _ _ => exact (ofShort?_of_short? hshort).2
  | value hshort _ _ => exact (ofShort?_of_short? hshort).2
  | last hshort _ => exact (ofShort?_of_short? hshort).2

theorem shortToken_eq_ok_iff {cs : List Char} {items : List Item} {next : Option Argument}
    (h : Cluster cs items next) (hstart : cs ≠ [] ∨ r.pending = none) :
    r.shortToken cs = .ok r' ↔ ∃ r₁, r.Takes items r₁ ∧ r' = r₁.opened next := by
  induction h generalizing r with
  | nil =>
      have hnone : r.pending = none := hstart.resolve_left fun hne => hne rfl
      simp [shortToken, takes_nil_iff, settle_of_pending hnone, opened, eq_comm]
  | @flag c cs a items next hshort hno hcluster ih =>
      rw [shortToken, ofShort?_eq_some_iff.2 hshort]
      simp only [hno, Bool.false_eq_true, if_false, bind_eq_ok_iff, flag_eq_ok_iff]
      constructor
      · intro h
        obtain ⟨r₁, hflag, hrest⟩ := h
        obtain ⟨r₂, htakes, heq⟩ := (ih (.inr hflag.pending)).1 hrest
        exact ⟨r₂, takes_cons_iff.2 ⟨r₁, hflag, htakes⟩, heq⟩
      · intro h
        obtain ⟨r₂, hboth, heq⟩ := h
        obtain ⟨r₁, hflag, htakes⟩ := takes_cons_iff.1 hboth
        exact ⟨r₁, hflag, (ih (.inr hflag.pending)).2 ⟨r₂, htakes, heq⟩⟩
  | @value c v a hshort hvalue hne =>
      have hattach : r.shortToken (c :: v) = r.attach a (String.ofList (withoutSign v)) := by
        rw [shortToken, ofShort?_eq_some_iff.2 hshort]
        simp only [hvalue, if_true]
        split
        · exact absurd rfl hne
        · rfl
        · next hsign => rw [withoutSign.eq_2 _ hsign]
      simp [hattach, attach_eq_ok_iff, opened]
  | @last c a hshort hvalue =>
      have hawait : r.shortToken [c] = r.await a := by
        rw [shortToken, ofShort?_eq_some_iff.2 hshort]
        simp [hvalue]
      simp [hawait, await_eq_ok_iff, takes_nil_iff]

theorem longToken_value {a : Argument} (hnamed : a ∈ Argument.named) (v : List Char) :
    r.longToken (a.long.toList ++ '=' :: v) =
      if a.takesValue then r.attach a (String.ofList v)
      else .error (.unwantedValue a (String.ofList v)) := by
  have hname : ∀ c ∈ a.long.toList, (c != '=') = true := by
    intro c hc
    simpa using fun heq : c = '=' => equals_notMem_long a hnamed (heq ▸ hc)
  simp [longToken, List.takeWhile_append_of_pos hname, List.dropWhile_append_of_pos hname,
    ofLong?_long a hnamed]

theorem longToken_name {a : Argument} (hnamed : a ∈ Argument.named) :
    r.longToken a.long.toList = if a.takesValue then r.await a else r.flag true a := by
  have hname : ∀ c ∈ a.long.toList, (c != '=') = true := by
    intro c hc
    simpa using fun heq : c = '=' => equals_notMem_long a hnamed (heq ▸ hc)
  simp [longToken, List.takeWhile_eq_self_iff.2 hname, List.dropWhile_eq_nil_iff.2 hname,
    ofLong?_long a hnamed]

theorem token_eq_ok_iff {t : String} {items : List Item} {next : Option Argument}
    (h : Spells t.toList items next) :
    r.token t = .ok r' ↔ ∃ r₁, r.Takes items r₁ ∧ r' = r₁.opened next := by
  generalize ht : t.toList = cs at h
  cases h with
  | @longValue a v hnamed hvalue =>
      rw [token, ht]
      simp [longToken_value hnamed, hvalue, attach_eq_ok_iff, opened]
  | @longLast a hnamed hvalue =>
      rw [token, ht]
      simp [longToken_name hnamed, hvalue, await_eq_ok_iff, takes_nil_iff]
  | @longFlag a hnamed hno =>
      rw [token, ht]
      simp [longToken_name hnamed, hno, flag_eq_ok_iff, opened]
  | @short cs items next hne hcluster =>
      obtain ⟨c, more, rfl⟩ := List.exists_cons_of_ne_nil hne
      have hdash : c ≠ '-' := first_ne_dash hcluster
      rw [← shortToken_eq_ok_iff hcluster (.inl hne), token, ht]
      split
      · next heq => simp_all
      · next heq => simp_all
      · next hno => exact absurd rfl (hno c more)
      · next hno _ => exact absurd rfl (hno c more)

theorem token_of_isOpen {t : String} {a : Argument} (h : IsPlain t)
    (hopen : r.pending = some (a, none)) :
    r.token t = .ok { r with pending := some (a, some t) } := by
  rw [token]
  split
  · next ht => simpa using h _ ht
  · next ht => simpa using h _ ht
  · simp_all
  · next hclosed => exact absurd hopen (hclosed a)

theorem token_of_isPlain {t : String} (h : IsPlain t) (hclosed : ¬r.IsOpen) :
    r.token t = .ok r' ↔ r.Takes [.place t] r' := by
  rw [← positional_eq_ok_iff, token]
  split
  · next ht => simpa using h _ ht
  · next ht => simpa using h _ ht
  · next a hopen _ _ => exact absurd ⟨a, hopen⟩ hclosed
  · rfl

theorem cluster_of_shortToken {cs : List Char} (h : r.shortToken cs = .ok r') :
    ∃ items next, Cluster cs items next := by
  induction cs generalizing r with
  | nil => exact ⟨[], none, .nil⟩
  | cons c cs ih =>
      rw [shortToken] at h
      split at h
      · simp at h
      · next a ha =>
          have hshort := ofShort?_eq_some_iff.1 ha
          split at h
          · next hvalue =>
              by_cases hnil : cs = []
              · subst hnil
                exact ⟨[], some a, .last hshort hvalue⟩
              · exact ⟨_, none, .value hshort hvalue hnil⟩
          · next hvalue =>
              obtain ⟨r₁, -, hrest⟩ := bind_eq_ok_iff.1 h
              obtain ⟨items, next, hcluster⟩ := ih hrest
              exact ⟨_, next, .flag hshort (by simpa using hvalue) hcluster⟩

theorem spells_of_longToken {cs : List Char} (h : r.longToken cs = .ok r') :
    ∃ items next, Spells ('-' :: '-' :: cs) items next := by
  have happend := List.takeWhile_append_dropWhile (p := (· != '=')) (l := cs)
  have hhead := List.head?_dropWhile_not (· != '=') cs
  rw [longToken] at h
  cases ha : Argument.ofLong? (String.ofList (cs.takeWhile (· != '='))) with
  | none => simp [ha] at h
  | some a =>
      obtain ⟨hnamed, hlong⟩ := ofLong?_eq_some_iff.1 ha
      have hname : a.long.toList = cs.takeWhile (· != '=') := by
        rw [hlong, String.toList_ofList]
      rw [← hname] at happend
      cases hdrop : cs.dropWhile (· != '=') with
      | nil =>
          obtain rfl : cs = a.long.toList := by simpa [hdrop] using happend.symm
          cases hvalue : a.takesValue with
          | true => exact ⟨_, _, .longLast hnamed hvalue⟩
          | false => exact ⟨_, _, .longFlag hnamed hvalue⟩
      | cons c v =>
          obtain rfl : c = '=' := by simpa [hdrop] using hhead
          have hvalue : a.takesValue = true := by
            by_contra hno
            simp [ha, hdrop, hno] at h
          have hspells := Spells.longValue (String.ofList v) hnamed hvalue
          rw [String.toList_ofList, ← hdrop, happend] at hspells
          exact ⟨_, _, hspells⟩

theorem spells_of_token {t : String} (h : r.token t = .ok r') :
    (∃ items next, Spells t.toList items next) ∨ IsPlain t := by
  rw [token] at h
  have hplain (hlong : ∀ cs, t.toList = '-' :: '-' :: cs → False)
      (hshort : ∀ c cs, t.toList = '-' :: c :: cs → False) : IsPlain t := by
    intro cs hcs
    cases cs with
    | nil => rfl
    | cons c cs => exact absurd hcs (hshort c cs)
  split at h
  · next cs hcs => exact .inl (hcs ▸ spells_of_longToken h)
  · next c cs _ hcs =>
      obtain ⟨items, next, hcluster⟩ := cluster_of_shortToken h
      exact .inl ⟨items, next, hcs ▸ .short (List.cons_ne_nil c cs) hcluster⟩
  · next hlong hshort => exact .inr (hplain hlong hshort)
  · next hlong hshort _ => exact .inr (hplain hlong hshort)

theorem ne_dashes_of_spells {t : String} {items : List Item} {next : Option Argument}
    (h : Spells t.toList items next) : t ≠ "--" := by
  intro heq
  rw [heq] at h
  have hlong : ∀ a ∈ Argument.named, a.long.toList ≠ [] := by decide
  generalize hcs : "--".toList = cs at h
  cases h with
  | longValue v _ _ => simp at hcs
  | longLast hnamed _ => exact hlong _ hnamed (by simpa using hcs.symm)
  | longFlag hnamed _ => exact hlong _ hnamed (by simpa using hcs.symm)
  | short _ hcluster =>
      obtain rfl := (List.cons.inj hcs).2
      exact first_ne_dash hcluster rfl

theorem ne_dashes_of_isPlain {t : String} (h : IsPlain t) : t ≠ "--" := by
  intro heq
  subst heq
  exact absurd (h ['-'] rfl) (by decide)

theorem tokens_cons_eq_ok_iff {t : String} {ts : List String} (h : t ≠ "--") :
    r.tokens (t :: ts) = .ok r' ↔ ∃ r₁, r.token t = .ok r₁ ∧ r₁.tokens ts = .ok r' := by
  rw [tokens, if_neg (by simpa using h), bind_eq_ok_iff]

theorem not_isOpen_of_pending (h : r.pending = none) : ¬r.IsOpen := by
  intro hopen
  obtain ⟨a, ha⟩ := hopen
  simp [h] at ha

theorem Takes.not_isOpen {items : List Item} (h : r.Takes items r') : ¬r.IsOpen := by
  intro hopen
  obtain ⟨r₀, hsettle, -⟩ := h
  exact settle_ne_ok_of_isOpen hopen hsettle

theorem positionals_eq_ok_iff {vs : List String} :
    vs.foldlM positional r >>= settle = .ok r' ↔ r.Takes (vs.map .place) r' := by
  induction vs generalizing r with
  | nil => exact takes_nil_iff.symm
  | cons v vs ih =>
      rw [List.foldlM_cons, bind_assoc, bind_eq_ok_iff, List.map_cons, takes_cons_iff]
      simp only [ih, positional_eq_ok_iff]

theorem settle_eq_ok_iff_effect {a : Argument} {v : String} (h : r.pending = none) :
    { r with pending := some (a, some v) }.settle = .ok r' ↔ r.Effect (.valued a v) r' := by
  simp only [settle, map_eq_ok_iff, Effect, h]
  exact exists_congr fun c => and_congr_right' eq_comm

theorem tokens_opened {a : Argument} {v : String} {ts : List String} {more : List Item}
    (hplain : IsPlain v) (hnone : r.pending = none)
    (hrest : ∀ {r₁ : Reading}, ¬r₁.IsOpen → (r₁.tokens ts = .ok r' ↔ r₁.Takes more r')) :
    (r.opened (some a)).tokens (v :: ts) = .ok r' ↔ r.Takes (.valued a v :: more) r' := by
  have hclosed : ¬{ r with pending := some (a, some v) }.IsOpen := by
    intro hopen
    obtain ⟨b, hb⟩ := hopen
    simp at hb
  have htoken := @token_of_isOpen (r.opened (some a)) v a hplain rfl
  simp only [tokens_cons_eq_ok_iff (ne_dashes_of_isPlain hplain), htoken, Except.ok.injEq,
    exists_eq_left']
  change { r with pending := some (a, some v) }.tokens ts = .ok r' ↔ _
  rw [hrest hclosed, takes_iff_run hnone, run_cons_iff]
  exact exists_congr fun r₂ => and_congr_left' (settle_eq_ok_iff_effect hnone)

/-- Reading tokens comes to taking the items that account for them. -/
theorem tokens_eq_ok_iff {ts : List String} {items : List Item} (h : Accounted ts items)
    (hclosed : ¬r.IsOpen) : r.tokens ts = .ok r' ↔ r.Takes items r' := by
  induction h generalizing r with
  | nil => exact takes_nil_iff.symm
  | rest vs =>
      rw [tokens, if_pos (by decide)]
      exact positionals_eq_ok_iff
  | named hspells _ ih =>
      rw [tokens_cons_eq_ok_iff (ne_dashes_of_spells hspells), takes_append_iff]
      simp only [token_eq_ok_iff hspells, opened]
      constructor
      · intro h
        obtain ⟨r₁, ⟨r₂, htakes, rfl⟩, hrest⟩ := h
        exact ⟨r₁, htakes, (ih (not_isOpen_of_pending htakes.pending)).1 hrest⟩
      · intro h
        obtain ⟨r₁, htakes, hrest⟩ := h
        exact ⟨r₁, ⟨r₁, htakes, rfl⟩, (ih (not_isOpen_of_pending htakes.pending)).2 hrest⟩
  | @followed t v ts items a more hspells hplain _ ih =>
      rw [tokens_cons_eq_ok_iff (ne_dashes_of_spells hspells), takes_append_iff]
      simp only [token_eq_ok_iff hspells]
      constructor
      · intro h
        obtain ⟨r₁, ⟨r₂, htakes, rfl⟩, hrest⟩ := h
        exact ⟨r₂, htakes, (tokens_opened hplain htakes.pending ih).1 hrest⟩
      · intro h
        obtain ⟨r₂, htakes, hrest⟩ := h
        exact ⟨_, ⟨r₂, htakes, rfl⟩, (tokens_opened hplain htakes.pending ih).2 hrest⟩
  | place hplain _ ih =>
      rw [tokens_cons_eq_ok_iff (ne_dashes_of_isPlain hplain), takes_cons_iff]
      simp only [token_of_isPlain hplain hclosed]
      constructor
      · intro h
        obtain ⟨r₁, htakes, hrest⟩ := h
        exact ⟨r₁, htakes, (ih (not_isOpen_of_pending htakes.pending)).1 hrest⟩
      · intro h
        obtain ⟨r₁, htakes, hrest⟩ := h
        exact ⟨r₁, htakes, (ih (not_isOpen_of_pending htakes.pending)).2 hrest⟩

theorem accounted_of_tokens {ts : List String} (h : r.tokens ts = .ok r') :
    (¬r.IsOpen → ∃ items, Accounted ts items) ∧
      (r.IsOpen → ∃ v more items, ts = v :: more ∧ IsPlain v ∧ Accounted more items) := by
  induction ts generalizing r with
  | nil => exact ⟨fun _ => ⟨[], .nil⟩, fun hopen => absurd h (settle_ne_ok_of_isOpen hopen)⟩
  | cons t ts ih =>
      by_cases hdashes : t = "--"
      · subst hdashes
        rw [tokens, if_pos (by decide)] at h
        exact ⟨fun _ => ⟨_, .rest ts⟩,
          fun hopen => absurd hopen (positionals_eq_ok_iff.1 h).not_isOpen⟩
      · obtain ⟨r₁, htoken, hrest⟩ := (tokens_cons_eq_ok_iff hdashes).1 h
        cases spells_of_token htoken with
        | inl hspells =>
            obtain ⟨items, next, hspells⟩ := hspells
            obtain ⟨r₂, htakes, rfl⟩ := (token_eq_ok_iff hspells).1 htoken
            refine ⟨fun _ => ?_, fun hopen => absurd hopen htakes.not_isOpen⟩
            cases next with
            | none =>
                obtain ⟨more, hmore⟩ := (ih hrest).1 (not_isOpen_of_pending htakes.pending)
                exact ⟨_, .named hspells hmore⟩
            | some a =>
                obtain ⟨v, ts, more, rfl, hplain, hmore⟩ := (ih hrest).2 ⟨a, rfl⟩
                exact ⟨_, .followed hspells hplain hmore⟩
        | inr hplain =>
            constructor
            · intro hclosed
              have htakes := (token_of_isPlain hplain hclosed).1 htoken
              obtain ⟨more, hmore⟩ := (ih hrest).1 (not_isOpen_of_pending htakes.pending)
              exact ⟨_, .place hplain hmore⟩
            · intro hopen
              obtain ⟨a, ha⟩ := hopen
              rw [token_of_isOpen hplain ha, Except.ok.injEq] at htoken
              subst htoken
              obtain ⟨more, hmore⟩ := (ih hrest).1 fun hopen => by
                obtain ⟨b, hb⟩ := hopen
                simp at hb
              exact ⟨t, ts, more, rfl, hplain, hmore⟩

end Reading

/-- A command line that is read has items that account for it. -/
theorem accounted_of_read {arguments : List String} {c : CommandLine} (h : read arguments = .ok c) :
    ∃ items, Accounted arguments items := by
  obtain ⟨r, hr, -⟩ := map_eq_ok_iff.1 h
  exact (Reading.accounted_of_tokens hr).1 (Reading.not_isOpen_of_pending rfl)

/-- What is read of a command line is what its items give, in whatever way they are spelled. -/
theorem read_eq_ok_iff {arguments : List String} {items : List Item} {c : CommandLine}
    (h : Accounted arguments items) :
    read arguments = .ok c ↔ ∃ r, Reading.Run {} items r ∧ r.given = c := by
  have hstart : ({} : Reading).pending = none := rfl
  rw [read, map_eq_ok_iff]
  simp only [Reading.tokens_eq_ok_iff h (Reading.not_isOpen_of_pending hstart),
    Reading.takes_iff_run hstart]

end SyncPlan.CommandLine
