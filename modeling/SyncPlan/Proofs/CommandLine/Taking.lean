import SyncPlan.Proofs.CommandLine.Meaning

/-!
Reading tokens as taking items, one after the other, where both succeed and where both fail. A
token does what the items do that it spells, and a value that has been put off until the next token
is settled before anything that could come of that token.
-/

namespace SyncPlan.CommandLine

theorem exists_fieldAt? {n : Nat} (h : n < 2) : ∃ f, Reading.fieldAt? n = some f := by
  match n with
  | 0 => exact ⟨_, rfl⟩
  | 1 => exact ⟨_, rfl⟩

theorem length_places_append (items more : List Item) :
    (places (items ++ more)).length = (places items).length + (places more).length := by
  simp [places]

namespace Reading

/-- Takes an item, or fails as the token does that spells it. -/
def take (r : Reading) : Item → Except CommandLineFault Reading
  | .valued a v => r.attach a v
  | .flag a => r.flag true a
  | .place v => r.positional v

/-- Leaves an argument without its value, if there is one. -/
def leave (r : Reading) : Option Argument → Except CommandLineFault Reading
  | none => pure r
  | some a => r.await a

theorem take_eq_ok_iff {r r' : Reading} {item : Item} :
    r.take item = .ok r' ↔ r.Takes [item] r' := by
  cases item with
  | valued a v => exact attach_eq_ok_iff
  | flag a => exact flag_eq_ok_iff
  | place v => exact positional_eq_ok_iff

theorem flag_switch (r : Reading) (long : Bool) (f : SwitchField) :
    r.flag long (.field (.switch f)) = r.take (.flag (.field (.switch f))) := rfl

/-- Settling twice comes to settling once. -/
theorem settle_bind_settle {α : Type} (r : Reading) (f : Reading → Except CommandLineFault α) :
    (r.settle >>= fun r₀ => r₀.settle >>= f) = r.settle >>= f := by
  cases hsettle : r.settle with
  | error fault => rfl
  | ok r₀ =>
      change r₀.settle >>= f = f r₀
      rw [settle_of_pending (settle_eq_ok hsettle).1]
      rfl

theorem positional_of_fieldAt? {r : Reading} {v : String} {f : TextField}
    (h : fieldAt? r.positions = some f) : r.positional v = r.settle >>= fun r₀ =>
      pure { r₀ with given := r₀.given.setText f v, positions := r₀.positions + 1 } := by
  rw [positional]
  cases fieldAt?_eq_some_iff.1 h with
  | inl hfirst =>
      obtain ⟨hzero, rfl⟩ := hfirst
      simp only [hzero]
  | inr hsecond =>
      obtain ⟨hone, rfl⟩ := hsecond
      simp only [hone]

/-- Taking an item begins with what is pending. Only a value without a place could fail before. -/
theorem take_eq_settle_bind {r : Reading} {item : Item}
    (h : r.positions + (places [item]).length ≤ 2) :
    r.take item = r.settle >>= fun r₀ => r₀.take item := by
  cases item with
  | valued a v => exact (settle_bind_settle r _).symm
  | flag a => exact (settle_bind_settle r _).symm
  | place v =>
      obtain ⟨f, hf⟩ := @exists_fieldAt? r.positions (Nat.lt_of_succ_le h)
      rw [take, positional_of_fieldAt? hf, ← settle_bind_settle]
      cases hsettle : r.settle with
      | error fault => rfl
      | ok r₀ =>
          have hf₀ : fieldAt? r₀.positions = some f := (settle_eq_ok hsettle).2.symm ▸ hf
          exact (positional_of_fieldAt? hf₀).symm

/-- Taking items begins with what is pending, which may be settled beforehand. -/
theorem foldlM_take_settle {r : Reading} {items : List Item}
    (h : r.positions + (places items).length ≤ 2) :
    items.foldlM take r >>= settle = r.settle >>= fun r₀ => items.foldlM take r₀ >>= settle := by
  cases items with
  | nil =>
      have hsettle := settle_bind_settle r pure
      simp only [bind_pure] at hsettle
      exact hsettle.symm
  | cons item items =>
      have hfirst : r.positions + (places [item]).length ≤ 2 := by
        rw [← List.singleton_append, length_places_append] at h
        omega
      simp only [List.foldlM_cons, take_eq_settle_bind hfirst, bind_assoc]

theorem positions_of_take {r r' : Reading} {item : Item} (h : r.take item = .ok r') :
    r'.positions = r.positions + (places [item]).length := by
  obtain ⟨r₀, hsettle, hrun⟩ := take_eq_ok_iff.1 h
  rw [← (settle_eq_ok hsettle).2]
  cases item with
  | valued a v =>
      obtain ⟨c, -, rfl⟩ := run_singleton_iff.1 hrun
      rfl
  | flag a =>
      obtain ⟨f, -, -, rfl⟩ := run_singleton_iff.1 hrun
      rfl
  | place v =>
      obtain ⟨f, -, rfl⟩ := run_singleton_iff.1 hrun
      rfl

theorem positions_of_foldlM_take {r r' : Reading} {items : List Item}
    (h : items.foldlM take r = .ok r') : r'.positions = r.positions + (places items).length := by
  induction items generalizing r with
  | nil => exact congrArg positions (Except.ok.inj h).symm
  | cons item items ih =>
      rw [List.foldlM_cons, bind_eq_ok_iff] at h
      obtain ⟨r₁, htake, hrest⟩ := h
      rw [ih hrest, positions_of_take htake, ← List.singleton_append (l := items),
        length_places_append, Nat.add_assoc]

theorem not_isOpen_of_foldlM_take {r r' : Reading} {items : List Item} (hclosed : ¬r.IsOpen)
    (h : items.foldlM take r = .ok r') : ¬r'.IsOpen := by
  induction items generalizing r with
  | nil => exact Except.ok.inj h ▸ hclosed
  | cons item items ih =>
      rw [List.foldlM_cons, bind_eq_ok_iff] at h
      obtain ⟨r₁, htake, hrest⟩ := h
      exact ih (not_isOpen_of_pending (take_eq_ok_iff.1 htake).pending) hrest

theorem take_singleton_leave (r : Reading) (item : Item) :
    ([item].foldlM take r >>= fun r₁ => r₁.leave none) = r.take item := by
  simp only [List.foldlM_cons, List.foldlM_nil, leave, bind_pure]

/-- The characters behind a dash are read as their items are taken. -/
theorem shortToken_eq {r : Reading} {cs : List Char} {items : List Item} {next : Option Argument}
    (h : Cluster cs items next) (hproper : ∀ item ∈ items, item.IsProper) :
    r.shortToken cs = items.foldlM take r >>= fun r₁ => r₁.leave next := by
  induction h generalizing r with
  | nil => rfl
  | @flag c cs a items next hshort hno hcluster ih =>
      obtain ⟨f, rfl⟩ := hproper _ List.mem_cons_self
      rw [shortToken, ofShort?_eq_some_iff.2 hshort]
      simp only [hno, Bool.false_eq_true, if_false, flag_switch, List.foldlM_cons, bind_assoc]
      congr 1
      funext r₁
      exact ih fun item hitem => hproper item (List.mem_cons_of_mem _ hitem)
  | @value c v a hshort hvalue hne =>
      rw [shortToken, ofShort?_eq_some_iff.2 hshort]
      simp only [hvalue, if_true, take_singleton_leave]
      split
      · exact absurd rfl hne
      · rfl
      · next hsign =>
          rw [withoutSign.eq_2 _ hsign]
          rfl
  | @last c a hshort hvalue =>
      rw [shortToken, ofShort?_eq_some_iff.2 hshort]
      simp only [hvalue, if_true]
      rfl

/-- A token with a name is read as its items are taken. -/
theorem token_eq {r : Reading} {t : String} {items : List Item} {next : Option Argument}
    (h : Spells t.toList items next) (hproper : ∀ item ∈ items, item.IsProper) :
    r.token t = items.foldlM take r >>= fun r₁ => r₁.leave next := by
  generalize ht : t.toList = cs at h
  cases h with
  | @longValue a v hnamed hvalue =>
      rw [token, ht]
      simp only [longToken_value hnamed, hvalue, if_true, String.ofList_toList,
        take_singleton_leave]
      rfl
  | @longLast a hnamed hvalue =>
      rw [token, ht]
      simp only [longToken_name hnamed, hvalue, if_true]
      rfl
  | @longFlag a hnamed hno =>
      rw [token, ht]
      obtain ⟨f, rfl⟩ := hproper _ (List.mem_singleton_self _)
      simp only [longToken_name hnamed, hno, Bool.false_eq_true, if_false, take_singleton_leave]
      rfl
  | @short cs items next hne hcluster =>
      obtain ⟨c, more, rfl⟩ := List.exists_cons_of_ne_nil hne
      have hdash : c ≠ '-' := first_ne_dash hcluster
      rw [← shortToken_eq hcluster hproper, token, ht]
      split
      · next heq => simp_all
      · next heq => simp_all
      · next hno => exact absurd rfl (hno c more)
      · next hno _ => exact absurd rfl (hno c more)

theorem tokens_cons {r : Reading} {t : String} {ts : List String} (h : t ≠ "--") :
    r.tokens (t :: ts) = r.token t >>= fun r₁ => r₁.tokens ts := by
  rw [tokens, if_neg (by simpa using h)]

theorem token_eq_positional {r : Reading} {t : String} (h : IsPlain t) (hclosed : ¬r.IsOpen) :
    r.token t = r.positional t := by
  rw [token]
  split
  · next ht => simpa using h _ ht
  · next ht => simpa using h _ ht
  · next a hopen _ _ => exact absurd ⟨a, hopen⟩ hclosed
  · rfl

/-- A value that follows its argument is taken as one that stands in the same token. -/
theorem tokens_followed {r : Reading} {a : Argument} {v : String} {ts : List String}
    {more : List Item} (hplain : IsPlain v) (hplaces : r.positions + (places more).length ≤ 2)
    (hrest : ∀ {r₁ : Reading}, r₁.positions + (places more).length ≤ 2 → ¬r₁.IsOpen →
      r₁.tokens ts = more.foldlM take r₁ >>= settle) :
    (r.leave (some a) >>= fun r₁ => r₁.tokens (v :: ts)) =
      (Item.valued a v :: more).foldlM take r >>= settle := by
  simp only [leave, await, take, attach, List.foldlM_cons, bind_assoc, pure_bind]
  apply bind_congr_of_ok
  intro r₀ hsettle
  have hnone : r₀.pending = none := (settle_eq_ok hsettle).1
  have hclosed : ¬{ r₀ with pending := some (a, some v) }.IsOpen := by
    intro hopen
    obtain ⟨b, hb⟩ := hopen
    simp at hb
  have htoken := @token_of_isOpen { r₀ with pending := some (a, none) } v a hplain rfl
  have hsame : { r₀ with pending := some (a, some v) }.positions + (places more).length ≤ 2 :=
    (settle_eq_ok hsettle).2.symm ▸ hplaces
  rw [tokens_cons (ne_dashes_of_isPlain hplain), htoken]
  change { r₀ with pending := some (a, some v) }.tokens ts = _
  rw [hrest hsame hclosed, foldlM_take_settle hsame]
  cases hgive : r₀.given.give a v with
  | error fault => simp [settle, hgive, Except.map, bind, Except.bind]
  | ok c => simp [settle, hgive, Except.map, bind, Except.bind, hnone]

/-- Reading tokens comes to taking the items that account for them, also where it fails. -/
theorem tokens_eq {r : Reading} {ts : List String} {items : List Item} (h : Accounted ts items)
    (hproper : ∀ item ∈ items, item.IsProper) (hplaces : r.positions + (places items).length ≤ 2)
    (hclosed : ¬r.IsOpen) : r.tokens ts = items.foldlM take r >>= settle := by
  -- The rest is compared only behind items that could be taken. These keep the count of places and
  -- leave no argument without its value.
  induction h generalizing r with
  | nil => rfl
  | rest vs =>
      rw [tokens, if_pos (by decide), List.foldlM_map]
      rfl
  | @named t ts items more hspells _ ih =>
      have hitems : ∀ item ∈ items, item.IsProper :=
        fun item hitem => hproper item (List.mem_append_left _ hitem)
      rw [tokens_cons (ne_dashes_of_spells hspells), token_eq hspells hitems, List.foldlM_append]
      simp only [leave, bind_assoc, pure_bind]
      apply bind_congr_of_ok
      intro r₁ htake
      rw [length_places_append] at hplaces
      apply ih (fun item hitem => hproper item (List.mem_append_right _ hitem))
      · rw [positions_of_foldlM_take htake]
        omega
      · exact not_isOpen_of_foldlM_take hclosed htake
  | @followed t v ts items a more hspells hplain _ ih =>
      have hitems : ∀ item ∈ items, item.IsProper :=
        fun item hitem => hproper item (List.mem_append_left _ hitem)
      have hmore : ∀ item ∈ more, item.IsProper := fun item hitem =>
        hproper item (List.mem_append_right _ (List.mem_cons_of_mem _ hitem))
      rw [tokens_cons (ne_dashes_of_spells hspells), token_eq hspells hitems, List.foldlM_append]
      simp only [bind_assoc]
      apply bind_congr_of_ok
      intro r₁ htake
      rw [length_places_append] at hplaces
      apply tokens_followed hplain
      · rw [positions_of_foldlM_take htake]
        exact (Nat.add_assoc _ _ _).symm ▸ hplaces
      · exact fun hsame hnot => ih hmore hsame hnot
  | @place v ts more hplain _ ih =>
      have htoken : r.token v = r.take (.place v) := token_eq_positional hplain hclosed
      rw [tokens_cons (ne_dashes_of_isPlain hplain), htoken, List.foldlM_cons, bind_assoc]
      apply bind_congr_of_ok
      intro r₁ htake
      rw [← List.singleton_append, length_places_append] at hplaces
      apply ih (fun item hitem => hproper item (List.mem_cons_of_mem _ hitem))
      · rw [positions_of_take htake]
        omega
      · exact not_isOpen_of_pending (take_eq_ok_iff.1 htake).pending

theorem foldlM_take_eq_ok_iff {r r' : Reading} {items : List Item} (h : r.pending = none) :
    items.foldlM take r = .ok r' ↔ Run r items r' := by
  induction items generalizing r with
  | nil => simp [run_nil_iff, pure_eq_ok_iff]
  | cons item items ih =>
      have htake : ∀ r₁, r.take item = .ok r₁ ↔ r.Effect item r₁ := by
        intro r₁
        rw [take_eq_ok_iff, takes_iff_run h, run_singleton_iff]
      rw [List.foldlM_cons, bind_eq_ok_iff, run_cons_iff]
      simp only [htake]
      constructor
      · intro hboth
        obtain ⟨r₁, heffect, hrest⟩ := hboth
        exact ⟨r₁, heffect, (ih (heffect.pending.trans h)).1 hrest⟩
      · intro hboth
        obtain ⟨r₁, heffect, hrest⟩ := hboth
        exact ⟨r₁, heffect, (ih (heffect.pending.trans h)).2 hrest⟩

end Reading

end SyncPlan.CommandLine
