import Mathlib.Data.List.Forall2
import Mathlib.Data.List.Nodup
import SyncPlan.ConfigFile.Loading
import SyncPlan.Proofs.Settings

/-!
The pairs of a config file, each a key and a value, and what they come to in whatever format. All of
them are settled or none: either each has the key of a field of its own and a value that gives a
setting of that field, and then the options are these settings, or the first pair that does not fit
is the defect of the file.
-/

namespace SyncPlan

variable {V : Type} {take : Field → V → Except Defect Setting} {Gives : V → Setting → Prop}
  {Blames : Field → V → Defect → Prop}

/-- Settles pairs one after the other. `seen` are the fields already set. -/
def settle (take : Field → V → Except Defect Setting) (seen : List Field) (o : Options) :
    List (String × V) → Except Defect Options
  | [] => .ok o
  | (key, v) :: pairs =>
    match Field.ofKey? key with
    | none => .error (.unknownField key)
    | some f =>
      if seen.contains f then .error (.duplicateField f)
      else
        match take f v with
        | .error d => .error d
        | .ok s => settle take (f :: seen) (o.set s) pairs

/-- A reader of values against what is said of them: the settings that they give, and what is to
blame for a field of which they give none. -/
structure Decides (take : Field → V → Except Defect Setting) (Gives : V → Setting → Prop)
    (Blames : Field → V → Defect → Prop) : Prop where
  gives : ∀ {v s}, Gives v s → take s.field v = .ok s
  blames : ∀ {f v d}, Blames f v d → take f v = .error d
  total : ∀ f v, (∃ s : Setting, s.field = f ∧ Gives v s) ∨ ∃ d, Blames f v d
  className : ∀ {f v d}, Blames f v d → d.className = "invalid_type" ∨ d.className = "invalid_value"

/-- Pairs of distinct fields with values that give these settings. -/
structure Accepts (Gives : V → Setting → Prop) (pairs : List (String × V))
    (settings : List Setting) : Prop where
  pairs : List.Forall₂ (fun p s => p.1 = s.field.key ∧ Gives p.2 s) pairs settings
  nodup : (settings.map Setting.field).Nodup

/-- What is wrong with a pair behind earlier ones. An unknown key is wrong whatever its value, and
so is a key that stands there for the second time. -/
inductive Offends (Blames : Field → V → Defect → Prop) (earlier : List (String × V)) :
    String × V → Defect → Prop
  | unknown {key : String} {v : V} : (∀ f : Field, f.key ≠ key) →
      Offends Blames earlier (key, v) (.unknownField key)
  | repeated {f : Field} {v : V} : f.key ∈ earlier.map Prod.fst →
      Offends Blames earlier (f.key, v) (.duplicateField f)
  | value {f : Field} {v : V} {d : Defect} : f.key ∉ earlier.map Prod.fst → Blames f v d →
      Offends Blames earlier (f.key, v) d

/-- The first pair that does not fit, and what is wrong with it. -/
def FirstOffends (Gives : V → Setting → Prop) (Blames : Field → V → Defect → Prop)
    (pairs : List (String × V)) (d : Defect) : Prop :=
  ∃ before p after, pairs = before ++ p :: after ∧ (∃ settings, Accepts Gives before settings) ∧
    Offends Blames before p d

theorem Accepts.keys {pairs : List (String × V)} {settings : List Setting}
    (h : Accepts Gives pairs settings) :
    pairs.map Prod.fst = (settings.map Setting.field).map Field.key := by
  have hpairs := h.pairs
  clear h
  induction hpairs with
  | nil => rfl
  | cons hfirst _ ih => simp only [List.map_cons, hfirst.1, ih]

theorem Accepts.key_mem_iff {pairs : List (String × V)} {settings : List Setting} {f : Field}
    (h : Accepts Gives pairs settings) :
    f.key ∈ pairs.map Prod.fst ↔ f ∈ settings.map Setting.field := by
  rw [h.keys]
  constructor
  · intro hmem
    obtain ⟨g, hg, hkey⟩ := List.mem_map.1 hmem
    exact key_injective hkey ▸ hg
  · exact List.mem_map_of_mem

theorem Accepts.concat {pairs : List (String × V)} {settings : List Setting} {v : V} {s : Setting}
    (h : Accepts Gives pairs settings) (hnew : s.field.key ∉ pairs.map Prod.fst)
    (hgives : Gives v s) : Accepts Gives (pairs ++ [(s.field.key, v)]) (settings ++ [s]) := by
  refine ⟨List.rel_append h.pairs (.cons ⟨rfl, hgives⟩ .nil), ?_⟩
  rw [h.key_mem_iff] at hnew
  rw [List.map_append, List.map_singleton, ← List.concat_eq_append, List.nodup_concat]
  exact ⟨hnew, h.nodup⟩

theorem Accepts.exists_of_mem {pairs : List (String × V)} {settings : List Setting}
    {p : String × V} (h : Accepts Gives pairs settings)
    (hp : p ∈ pairs) : ∃ s ∈ settings, p.1 = s.field.key ∧ Gives p.2 s := by
  have hpairs := h.pairs
  clear h
  induction hpairs with
  | nil => exact absurd hp List.not_mem_nil
  | cons hfirst _ ih =>
      cases List.mem_cons.1 hp with
      | inl heq => exact ⟨_, List.mem_cons_self, heq ▸ hfirst⟩
      | inr hmem =>
          obtain ⟨s, hs, hgives⟩ := ih hmem
          exact ⟨s, List.mem_cons_of_mem _ hs, hgives⟩

/-- What is left under other names once the pairs of one name are taken out. -/
theorem lookup_filter_ne (es : List (String × V)) (name other : String) :
    (es.filter (·.1 != name)).lookup other = if other = name then none else es.lookup other := by
  induction es with
  | nil => simp
  | cons e es ih =>
      obtain ⟨key, u⟩ := e
      rw [List.lookup_cons]
      by_cases hkey : key = name
      · rw [List.filter_cons_of_neg (by simp [hkey]), ih]
        by_cases hother : other = name
        · rw [if_pos hother, if_pos hother]
        · have hne : (other == key) = false := by simpa [hkey] using hother
          rw [if_neg hother, if_neg hother, hne]
      · rw [List.filter_cons_of_pos (by simpa using hkey), List.lookup_cons, ih]
        cases hsame : other == key with
        | true =>
            have hne : other ≠ name := beq_iff_eq.1 hsame ▸ hkey
            simp only [if_neg hne]
        | false => rfl

theorem key_of_ofKey? {key : String} {f : Field} (h : Field.ofKey? key = some f) :
    f.key = key := by
  simpa using List.find?_some h

theorem ofKey?_eq_none_iff {key : String} : Field.ofKey? key = none ↔ ∀ f : Field, f.key ≠ key := by
  constructor
  · intro h f heq
    rw [← heq, Field.ofKey?_key] at h
    simp at h
  · intro h
    cases hkey : Field.ofKey? key with
    | none => rfl
    | some f => exact absurd (key_of_ofKey? hkey) (h f)

section Settling

variable {pairs rest : List (String × V)} {settings : List Setting} {seen : List Field}
  {o : Options}

theorem settle_cons (hd : Decides take Gives Blames) {s : Setting} {v : V}
    (hnew : s.field ∉ seen) (hgives : Gives v s) :
    settle take seen o ((s.field.key, v) :: rest) =
      settle take (s.field :: seen) (o.set s) rest := by
  have hseen : seen.contains s.field = false := by simpa using hnew
  simp only [settle, Field.ofKey?_key, hseen, Bool.false_eq_true, if_false, hd.gives hgives]

/-- Pairs that are accepted make their settings, and the pairs behind them are settled then. -/
theorem settle_append (hd : Decides take Gives Blames) (h : Accepts Gives pairs settings)
    (hnew : ∀ s ∈ settings, s.field ∉ seen) :
    settle take seen o (pairs ++ rest) =
      settle take ((settings.map Setting.field).reverse ++ seen) (o.setAll settings) rest := by
  obtain ⟨hpairs, hnodup⟩ := h
  induction hpairs generalizing seen o with
  | nil => rfl
  | cons hfirst hpairs ih =>
      next p s pairs settings =>
      obtain ⟨key, v⟩ := p
      obtain ⟨rfl, hgives⟩ := hfirst
      rw [List.map_cons, List.nodup_cons] at hnodup
      have hrest : ∀ t ∈ settings, t.field ∉ s.field :: seen := by
        intro t ht
        rw [List.mem_cons, not_or]
        exact ⟨fun heq => hnodup.1 (heq ▸ List.mem_map_of_mem ht),
          hnew t (List.mem_cons_of_mem _ ht)⟩
      rw [List.cons_append, settle_cons hd (hnew s List.mem_cons_self) hgives,
        ih hrest hnodup.2, List.map_cons, List.reverse_cons, List.append_assoc,
        List.singleton_append]
      rfl

/-- A pair that does not fit is the end. -/
theorem settle_of_offends (hd : Decides take Gives Blames) {p : String × V} {d : Defect}
    (hseen : ∀ f, f ∈ seen ↔ f.key ∈ pairs.map Prod.fst) (h : Offends Blames pairs p d) :
    settle take seen o (p :: rest) = .error d := by
  cases h with
  | unknown hkey => simp only [settle, ofKey?_eq_none_iff.2 hkey]
  | repeated hmem =>
      have hcontains := List.contains_iff_mem.2 ((hseen _).2 hmem)
      simp only [settle, Field.ofKey?_key, hcontains, if_true]
  | value hnew hblames =>
      next f _ =>
      have hcontains : seen.contains f = false := by
        simpa using fun h => hnew ((hseen f).1 h)
      simp only [settle, Field.ofKey?_key, hcontains, Bool.false_eq_true, if_false,
        hd.blames hblames]

/-- A pair gives a setting of a field that is new, or it does not fit. -/
theorem accepts_or_offends_pair (hd : Decides take Gives Blames) (pairs : List (String × V))
    (p : String × V) :
    (∃ s : Setting, p.1 = s.field.key ∧ s.field.key ∉ pairs.map Prod.fst ∧ Gives p.2 s) ∨
      ∃ d, Offends Blames pairs p d := by
  obtain ⟨key, v⟩ := p
  cases hkey : Field.ofKey? key with
  | none => exact .inr ⟨_, .unknown (ofKey?_eq_none_iff.1 hkey)⟩
  | some f =>
      obtain rfl := key_of_ofKey? hkey
      by_cases hmem : f.key ∈ pairs.map Prod.fst
      · exact .inr ⟨_, .repeated hmem⟩
      · cases hd.total f v with
        | inl hgives =>
            obtain ⟨s, rfl, hs⟩ := hgives
            exact .inl ⟨s, rfl, hmem, hs⟩
        | inr hblames =>
            obtain ⟨d, h⟩ := hblames
            exact .inr ⟨d, .value hmem h⟩

/-- Pairs are accepted, or one of them is the first that does not fit. -/
theorem accepts_or_offends (hd : Decides take Gives Blames) (pairs : List (String × V)) :
    (∃ settings, Accepts Gives pairs settings) ∨ ∃ d, FirstOffends Gives Blames pairs d := by
  induction pairs using List.reverseRecOn with
  | nil => exact .inl ⟨[], .nil, List.nodup_nil⟩
  | append_singleton pairs p ih =>
      cases ih with
      | inl haccepts =>
          obtain ⟨settings, h⟩ := haccepts
          cases accepts_or_offends_pair hd pairs p with
          | inl hfits =>
              obtain ⟨s, hkey, hnew, hgives⟩ := hfits
              obtain ⟨key, v⟩ := p
              obtain rfl : key = s.field.key := hkey
              exact .inl ⟨_, h.concat hnew hgives⟩
          | inr hoffends =>
              obtain ⟨d, hd⟩ := hoffends
              exact .inr ⟨d, pairs, p, [], rfl, ⟨settings, h⟩, hd⟩
      | inr hoffends =>
          obtain ⟨d, before, q, after, rfl, haccepts, hq⟩ := hoffends
          refine .inr ⟨d, before, q, after ++ [p], by simp, haccepts, hq⟩

end Settling

/-- All pairs make their settings, or the first that does not fit is reported. -/
theorem settle_iff (hd : Decides take Gives Blames) (o : Options) (pairs : List (String × V)) :
    (∀ o', settle take [] o pairs = .ok o' ↔
      ∃ settings, Accepts Gives pairs settings ∧ o' = o.setAll settings) ∧
    ∀ d, settle take [] o pairs = .error d ↔ FirstOffends Gives Blames pairs d := by
  have haccepted {settings : List Setting} (h : Accepts Gives pairs settings) :
      settle take [] o pairs = .ok (o.setAll settings) := by
    have happend := @settle_append V take Gives Blames pairs [] settings [] o hd h (by simp)
    rwa [List.append_nil] at happend
  have hoffended {d : Defect} (h : FirstOffends Gives Blames pairs d) :
      settle take [] o pairs = .error d := by
    obtain ⟨before, p, after, rfl, ⟨settings, h⟩, hoffends⟩ := h
    rw [settle_append hd h (by simp)]
    refine settle_of_offends hd ?_ hoffends
    intro f
    rw [h.key_mem_iff]
    simp
  refine ⟨fun o' => ⟨?_, ?_⟩, fun d => ⟨?_, hoffended⟩⟩
  · intro hok
    cases accepts_or_offends hd pairs with
    | inl haccepts =>
        obtain ⟨settings, h⟩ := haccepts
        exact ⟨settings, h, Except.ok.inj (hok.symm.trans (haccepted h))⟩
    | inr hoffends =>
        obtain ⟨d, h⟩ := hoffends
        simp [hoffended h] at hok
  · intro haccepts
    obtain ⟨settings, h, rfl⟩ := haccepts
    exact haccepted h
  · intro herror
    cases accepts_or_offends hd pairs with
    | inl haccepts =>
        obtain ⟨settings, h⟩ := haccepts
        simp [haccepted h] at herror
    | inr hoffends =>
        obtain ⟨e, h⟩ := hoffends
        rw [hoffended h] at herror
        exact Except.error.inj herror ▸ h

end SyncPlan
