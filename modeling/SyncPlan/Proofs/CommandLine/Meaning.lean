import Mathlib.Data.List.Nodup
import SyncPlan.Proofs.CommandLine.Given

/-!
What the items of a command line mean as a whole, and that a command line which can be read has
exactly one list of items. Its tokens can be split into items in one way only, each of them belongs
to one item, and everything that is read is what these items say.
-/

namespace SyncPlan.CommandLine

/-- The argument of an item, if it can be given only once. -/
def Item.once? : Item → Option Argument
  | .valued (.field (.list _)) _ => none
  | .valued a _ => some a
  | .flag a => some a
  | .place _ => none

/-- The arguments that items give and that can be given only once. -/
def onces (items : List Item) : List Argument := items.filterMap Item.once?

/-- An item of an argument that has a name and takes a value, or of a switch, or without a name. -/
def Item.IsProper : Item → Prop
  | .valued a _ => a ∈ Argument.named ∧ a.takesValue = true
  | .flag a => ∃ f, a = .field (.switch f)
  | .place _ => True

/-- A command line gives what its items say and nothing else. Nothing that takes one value or none
is given twice, and at most two values have no name. -/
structure Means (items : List Item) (c : CommandLine) : Prop where
  proper : ∀ item ∈ items, item.IsProper
  once : (onces items).Nodup
  length_le : (places items).length ≤ 2
  shows : ∀ a, c.Shows a (given items a)
  switch : ∀ f, c.switch f = true ↔ .flag (.field (.switch f)) ∈ items
  searchStart : c.searchStart = (given items .configDirectory).head?.getD "."
  outputFormat : c.outputFormat.name = (given items .format).head?.getD "human"

section Once

variable {items : List Item} {a : Argument}

theorem onces_append (items more : List Item) : onces (items ++ more) = onces items ++ onces more :=
  List.filterMap_append

theorem onces_concat_of_once? {item : Item} (h : item.once? = some a) :
    onces (items ++ [item]) = onces items ++ [a] := by
  rw [onces_append]
  simp [onces, h]

theorem once?_valued_of_ne_list (v : String) (h : ∀ f, a ≠ .field (.list f)) :
    (Item.valued a v).once? = some a := by
  cases a with
  | field f =>
      cases f with
      | list f => exact absurd rfl (h f)
      | _ => rfl
  | _ => rfl

theorem argument_of_once? {item : Item} (h : item.once? = some a) :
    (∀ f, a ≠ .field (.list f)) ∨ item = .flag a := by
  rw [Item.once?.eq_def] at h
  split at h
  · simp at h
  · next hlist =>
      rw [← Option.some.inj h]
      exact .inl hlist
  · exact .inr (congrArg Item.flag (Option.some.inj h))
  · simp at h

theorem eq_of_once?_valued {b : Argument} {v : String} (h : (Item.valued b v).once? = some a) :
    b = a := by
  rw [Item.once?.eq_def] at h
  split at h <;> simp_all

theorem mem_onces_iff (hlist : ∀ f, a ≠ .field (.list f)) :
    a ∈ onces items ↔ (∃ v, .valued a v ∈ items) ∨ .flag a ∈ items := by
  rw [onces, List.mem_filterMap]
  constructor
  · intro h
    obtain ⟨item, hitem, honce⟩ := h
    cases item with
    | valued b v => exact .inl ⟨v, eq_of_once?_valued honce ▸ hitem⟩
    | flag b => exact .inr (Option.some.inj honce ▸ hitem)
    | place v => simp [Item.once?] at honce
  · intro h
    cases h with
    | inl hvalued =>
        obtain ⟨v, hv⟩ := hvalued
        exact ⟨_, hv, once?_valued_of_ne_list v hlist⟩
    | inr hflag => exact ⟨_, hflag, rfl⟩

theorem ne_source_of_named (h : a ∈ Argument.named) : a ≠ .field (.text .source) := by
  intro heq
  exact absurd (heq ▸ h) (by decide)

theorem ne_target_of_named (h : a ∈ Argument.named) : a ≠ .field (.text .target) := by
  intro heq
  exact absurd (heq ▸ h) (by decide)

theorem mem_given_iff {v : String} (h : a ∈ Argument.named) :
    v ∈ given items a ↔ .valued a v ∈ items := by
  rw [given_of_ne (ne_source_of_named h) (ne_target_of_named h), List.mem_filterMap]
  constructor
  · intro hmem
    obtain ⟨item, hitem, hvalue⟩ := hmem
    cases item with
    | valued b w =>
        obtain ⟨rfl, rfl⟩ : b = a ∧ w = v := by simpa [Item.valueFor?] using hvalue
        exact hitem
    | flag b => simp [Item.valueFor?] at hvalue
    | place w => simp [Item.valueFor?] at hvalue
  · intro hitem
    exact ⟨_, hitem, if_pos rfl⟩

theorem given_ne_nil_iff (h : a ∈ Argument.named) :
    given items a ≠ [] ↔ ∃ v, .valued a v ∈ items := by
  simp only [← mem_given_iff h]
  exact ⟨List.exists_mem_of_ne_nil _, fun ⟨_, hv⟩ => List.ne_nil_of_mem hv⟩

theorem IsSetBy.isSome_iff {α : Type} {denotes : String → α → Prop} {vs : List String}
    {x : Option α} (h : IsSetBy denotes vs x) : x.isSome = true ↔ vs ≠ [] := by
  cases h with
  | inl hnone =>
      obtain ⟨rfl, rfl⟩ := hnone
      simp
  | inr hsome =>
      obtain ⟨v, b, rfl, rfl, -⟩ := hsome
      simp

/-- What has been given of the arguments that can be given only once are those of the items. -/
theorem Says.has_iff {r : Reading} (h : Says items r)
    (hproper : ∀ item ∈ items, item.IsProper) (hnamed : a ∈ Argument.named)
    (hlist : ∀ f, a ≠ .field (.list f)) : r.given.has a = true ↔ a ∈ onces items := by
  have hshows := h.shows a
  have hset {α : Type} {denotes : String → α → Prop} {x : Option α}
      (hno : ∀ f, a ≠ .field (.switch f)) (hx : IsSetBy denotes (given items a) x) :
      x.isSome = true ↔ a ∈ onces items := by
    rw [hx.isSome_iff, given_ne_nil_iff hnamed, mem_onces_iff hlist, iff_self_or]
    intro hflag
    obtain ⟨f, hf⟩ := hproper _ hflag
    exact absurd hf (hno f)
  have hnever (hno : ∀ f, a ≠ .field (.switch f)) (hnil : given items a = []) :
      a ∉ onces items := by
    rw [mem_onces_iff hlist, not_or]
    refine ⟨fun hv => (given_ne_nil_iff hnamed).2 hv hnil, ?_⟩
    intro hflag
    obtain ⟨f, hf⟩ := hproper _ hflag
    exact hno f hf
  cases a with
  | config | configDirectory | format => exact hset (fun f => by simp) hshows
  | help | version => simpa [has] using hnever (fun f => by simp) hshows
  | field f =>
      cases f with
      | text f | count f | number f => exact hset (fun f => by simp) hshows
      | list f => exact absurd rfl (hlist f)
      | switch f =>
          have hvalued : ¬∃ v, .valued (.field (.switch f)) v ∈ items :=
            fun hv => (given_ne_nil_iff hnamed).2 hv hshows
          rw [mem_onces_iff hlist, or_iff_right hvalued, ← List.count_pos_iff, h.switches f]
          cases hon : r.given.switch f <;> simp [has, hon]

end Once

section Run

variable {r r' : Reading} {item : Item} {items : List Item}

theorem isProper_of_effect (hnamed : item.IsNamed) (h : r.Effect item r') : item.IsProper := by
  cases item with
  | valued a v =>
      obtain ⟨c, hgive, -⟩ := h
      refine ⟨hnamed, ?_⟩
      have hgives := (give_eq_ok_iff.1 hgive).2
      cases a with
      | help | version => exact hgives.elim
      | config | configDirectory | format => rfl
      | field f =>
          cases f with
          | switch f => exact hgives.elim
          | _ => rfl
  | flag a =>
      obtain ⟨f, hf, -⟩ := h
      exact ⟨f, hf⟩
  | place v => trivial

theorem has_of_effect {a : Argument} (h : r.Effect item r') (honce : item.once? = some a) :
    r.given.has a = false := by
  cases item with
  | valued b v =>
      obtain ⟨c, hgive, -⟩ := h
      exact eq_of_once?_valued honce ▸ (give_eq_ok_iff.1 hgive).1
  | flag b =>
      obtain ⟨f, rfl, hoff, -⟩ := h
      exact Option.some.inj honce ▸ hoff
  | place v => simp [Item.once?] at honce

theorem mem_named_of_once? {a : Argument} (hproper : item.IsProper) (honce : item.once? = some a) :
    a ∈ Argument.named := by
  cases item with
  | valued b v => exact eq_of_once?_valued honce ▸ hproper.1
  | flag b =>
      obtain ⟨f, rfl⟩ := hproper
      rw [← Option.some.inj honce]
      cases f <;> decide
  | place v => simp [Item.once?] at honce

theorem ne_list_of_once? {a : Argument} (hproper : item.IsProper) (honce : item.once? = some a)
    (f : ListField) : a ≠ .field (.list f) := by
  cases argument_of_once? honce with
  | inl hne => exact hne f
  | inr hflag =>
      subst hflag
      obtain ⟨g, rfl⟩ := hproper
      simp

/-- An item leaves no argument given twice that can be given only once. -/
theorem nodup_concat_of_effect (h : Says items r) (hproper : ∀ other ∈ items, other.IsProper)
    (hnodup : (onces items).Nodup) (hitem : item.IsProper) (heffect : r.Effect item r') :
    (onces (items ++ [item])).Nodup := by
  cases honce : item.once? with
  | none =>
      rw [onces_append]
      simpa [onces, honce] using hnodup
  | some a =>
      have hmem : a ∉ onces items := by
        rw [← h.has_iff hproper (mem_named_of_once? hitem honce) (ne_list_of_once? hitem honce),
          has_of_effect heffect honce]
        simp
      rw [onces_concat_of_once? honce]
      rw [← List.concat_eq_append, List.nodup_concat]
      exact ⟨hmem, hnodup⟩

/-- All items that have been taken are proper, and none of them repeats another. -/
theorem proper_and_nodup_of_run {before : List Item} (h : Says before r)
    (hproper : ∀ item ∈ before, item.IsProper) (hnodup : (onces before).Nodup)
    (hnamed : ∀ item ∈ items, item.IsNamed) (hrun : Reading.Run r items r') :
    (∀ item ∈ before ++ items, item.IsProper) ∧ (onces (before ++ items)).Nodup := by
  -- The invariant is that the reading says what the items taken so far do, and these are proper.
  induction hrun generalizing before with
  | nil => simpa using ⟨hproper, hnodup⟩
  | @cons r item r₁ items r' heffect _ ih =>
      have hfirst := hnamed item List.mem_cons_self
      have hitem := isProper_of_effect hfirst heffect
      rw [← List.singleton_append, ← List.append_assoc]
      apply ih (h.concat hfirst heffect)
      · intro other hother
        cases List.mem_append.1 hother with
        | inl hmem => exact hproper other hmem
        | inr hmem => exact List.mem_singleton.1 hmem ▸ hitem
      · exact nodup_concat_of_effect h hproper hnodup hitem heffect
      · exact fun other hother => hnamed other (List.mem_cons_of_mem item hother)

theorem searchStart_of_shows {c : CommandLine} {vs : List String}
    (h : c.Shows .configDirectory vs) : c.searchStart = vs.head?.getD "." := by
  rw [searchStart, IsSetBy.eq_head? h]

theorem outputFormat_of_shows {c : CommandLine} {vs : List String} (h : c.Shows .format vs) :
    c.outputFormat.name = vs.head?.getD "human" := by
  cases h with
  | inl hnone =>
      obtain ⟨rfl, hc⟩ := hnone
      rw [outputFormat, hc]
      rfl
  | inr hsome =>
      obtain ⟨v, f, rfl, hc, rfl⟩ := hsome
      rw [outputFormat, hc]
      rfl

/-- Items that can be taken from the start on mean what they come to. -/
theorem means_of_run (hnamed : ∀ item ∈ items, item.IsNamed) (hrun : Reading.Run {} items r) :
    Means items r.given := by
  have hsaid : Says items r := says_nil.append hnamed hrun
  have htaken : (∀ item ∈ items, item.IsProper) ∧ (onces items).Nodup :=
    proper_and_nodup_of_run says_nil (by simp) List.nodup_nil hnamed hrun
  refine ⟨htaken.1, htaken.2, hsaid.length_le, hsaid.shows, ?_, ?_, ?_⟩
  · intro f
    rw [← List.count_pos_iff, hsaid.switches f]
    cases r.given.switch f <;> simp
  · exact searchStart_of_shows (hsaid.shows .configDirectory)
  · exact outputFormat_of_shows (hsaid.shows .format)

end Run

end SyncPlan.CommandLine
