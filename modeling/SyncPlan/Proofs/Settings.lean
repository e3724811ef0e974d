import SyncPlan.Options
import SyncPlan.Proofs.Text.Decimal

/-!
Options as the settings that they are made of, one for each field. Setting a field gives it its
value and leaves the others, so that settings of distinct fields can be made in any order, and
options are given back by all of their settings. Options may be the same but for one switch, which
stays so whatever is set in both.
-/

namespace SyncPlan
open Text

/-- The characters in the names of fields. -/
def isKeyChar (c : Char) : Bool := c.isLower || c.isDigit || c == '_'

theorem isKeyChar_of_mem_key (f : Field) : ∀ c ∈ f.key.toList, isKeyChar c = true := by
  rw [← List.all_eq_true]
  rcases f with f | f | f | f | f <;> cases f <;> decide

theorem toList_key_ne_nil (f : Field) : f.key.toList ≠ [] := by
  rcases f with f | f | f | f | f <;> cases f <;> exact List.cons_ne_nil _ _

theorem key_injective {f g : Field} (h : f.key = g.key) : f = g :=
  Option.some.inj ((Field.ofKey?_key f).symm.trans (h ▸ Field.ofKey?_key g))

theorem isAlphanum_of_isKeyChar {c : Char} (h : isKeyChar c = true) :
    c.isAlphanum = true ∨ c = '_' := by
  simp only [isKeyChar, Bool.or_eq_true, beq_iff_eq] at h
  rcases h with (hlower | hdigit) | hline
  · exact .inl (isAlphanum_iff.2 (.inr (.inl hlower)))
  · exact .inl (isAlphanum_iff.2 (.inr (.inr hdigit)))
  · exact .inr hline

theorem countOf?_eq_some_iff {n : Int} {k : UInt32} : countOf? n = some k ↔ n = k.toNat := by
  have hbound : boundOfBits 32 = 2 ^ 32 := rfl
  have hlt := k.toNat_lt
  simp only [countOf?, hbound, Option.ite_none_right_eq_some, Option.some.injEq]
  constructor
  · intro h
    obtain ⟨⟨hle, hlt⟩, rfl⟩ := h
    rw [UInt32.toNat_ofNat']
    omega
  · intro h
    subst h
    refine ⟨⟨by omega, by omega⟩, ?_⟩
    simp

theorem countOf?_toNat (v : UInt32) : countOf? v.toNat = some v := countOf?_eq_some_iff.2 rfl

theorem countOf?_eq_none_iff {n : Int} :
    countOf? n = none ↔ ¬(0 ≤ n ∧ n < boundOfBits 32) := by
  rw [countOf?, ite_eq_right_iff]
  simp

theorem numberOf?_eq_some_iff {n : Int} {k : Int64} : numberOf? n = some k ↔ n = k.toInt := by
  have hlow := k.le_toInt
  have hhigh := k.toInt_lt
  have hbound : (boundOfBits 63 : Int) = 9223372036854775808 := rfl
  simp only [numberOf?, Option.ite_none_right_eq_some, Option.some.injEq]
  constructor
  · intro h
    obtain ⟨⟨hle, hlt⟩, rfl⟩ := h
    exact (Int64.toInt_ofInt_of_le (by omega) (by omega)).symm
  · intro h
    subst h
    exact ⟨⟨by omega, by omega⟩, by simp⟩

theorem numberOf?_toInt (v : Int64) : numberOf? v.toInt = some v := numberOf?_eq_some_iff.2 rfl

theorem numberOf?_eq_none_iff {n : Int} :
    numberOf? n = none ↔ ¬(-boundOfBits 63 ≤ n ∧ n < boundOfBits 63) := by
  rw [numberOf?, ite_eq_right_iff]
  simp

namespace Options

/-- The setting that options hold of a field. -/
def setting (o : Options) : Field → Setting
  | .text f => .text f (o.text f)
  | .count f => .count f (o.count f)
  | .number f => .number f (o.number f)
  | .switch f => .switch f (o.switch f)
  | .list f => .list f (o.list f)

/-- All settings of options. -/
def settings (o : Options) : List Setting := Field.all.map o.setting

/-- Makes settings, one after the other. -/
def setAll (o : Options) (settings : List Setting) : Options := settings.foldl set o

@[simp] theorem field_setting (o : Options) (f : Field) : (o.setting f).field = f := by
  cases f <;> rfl

theorem ext_setting {o p : Options} (h : ∀ f, o.setting f = p.setting f) : o = p := by
  cases o with
  | mk text count number switch list =>
      cases p with
      | mk text' count' number' switch' list' =>
          congr
          · funext f
            simpa [setting] using h (.text f)
          · funext f
            simpa [setting] using h (.count f)
          · funext f
            simpa [setting] using h (.number f)
          · funext f
            simpa [setting] using h (.switch f)
          · funext f
            simpa [setting] using h (.list f)

theorem setting_set_self (o : Options) (s : Setting) : (o.set s).setting s.field = s := by
  cases s <;> simp [set, setting, Setting.field]

theorem setting_set_of_ne (o : Options) {s : Setting} {f : Field} (h : f ≠ s.field) :
    (o.set s).setting f = o.setting f := by
  cases s <;> cases f <;> simp_all [set, setting, Setting.field]

theorem setting_setAll_of_notMem (o : Options) {settings : List Setting} {f : Field}
    (h : f ∉ settings.map Setting.field) : (o.setAll settings).setting f = o.setting f := by
  induction settings generalizing o with
  | nil => rfl
  | cons s settings ih =>
      rw [List.map_cons, List.mem_cons, not_or] at h
      exact (ih (o.set s) h.2).trans (setting_set_of_ne o h.1)

theorem setting_setAll_of_mem (o : Options) {settings : List Setting} {s : Setting}
    (hnodup : (settings.map Setting.field).Nodup) (h : s ∈ settings) :
    (o.setAll settings).setting s.field = s := by
  induction settings generalizing o with
  | nil => simp at h
  | cons first settings ih =>
      rw [List.map_cons, List.nodup_cons] at hnodup
      cases List.mem_cons.1 h with
      | inl heq =>
          subst heq
          exact (setting_setAll_of_notMem (o.set s) hnodup.1).trans (setting_set_self o s)
      | inr hmem => exact ih (o.set first) hnodup.2 hmem

theorem map_field_settings (o : Options) : o.settings.map Setting.field = Field.all := by
  simp [settings, Function.comp_def]

theorem nodup_settings (o : Options) : (o.settings.map Setting.field).Nodup := by
  rw [map_field_settings]
  decide

/-- Options are given back by their settings, whatever they are made upon. -/
theorem setAll_settings (base o : Options) : base.setAll o.settings = o := by
  apply ext_setting
  intro f
  have hmem : o.setting f ∈ o.settings := List.mem_map_of_mem (Field.mem_all f)
  simpa using setting_setAll_of_mem base o.nodup_settings hmem

section Without

/-- Options with one switch left out of account, which is turned off. -/
def without (o : Options) (g : SwitchField) : Options := o.set (.switch g false)

variable {o o' : Options} {g : SwitchField}

theorem without_eq_iff :
    o.without g = o'.without g ↔ ∀ f ≠ .switch g, o.setting f = o'.setting f := by
  constructor
  · intro h f hf
    have hsetting := congrArg (setting · f) h
    rwa [without, without, setting_set_of_ne o hf, setting_set_of_ne o' hf] at hsetting
  · intro h
    refine ext_setting fun f => ?_
    by_cases hf : f = .switch g
    · subst hf
      exact (setting_set_self o (.switch g false)).trans
        (setting_set_self o' (.switch g false)).symm
    · rw [without, without, setting_set_of_ne o hf, setting_set_of_ne o' hf, h f hf]

theorem without_set_congr (h : o.without g = o'.without g) (s : Setting) :
    (o.set s).without g = (o'.set s).without g := by
  rw [without_eq_iff] at h ⊢
  intro f hf
  by_cases hs : f = s.field
  · rw [hs, setting_set_self, setting_set_self]
  · rw [setting_set_of_ne o hs, setting_set_of_ne o' hs, h f hf]

end Without

end Options

/-- The same failure, or options that are the same but for a switch. -/
inductive SameBut {ε : Type} (g : SwitchField) : Except ε Options → Except ε Options → Prop
  | failed (e : ε) : SameBut g (.error e) (.error e)
  | given {o o' : Options} : o.without g = o'.without g → SameBut g (.ok o) (.ok o')

theorem SameBut.refl {ε : Type} (g : SwitchField) (x : Except ε Options) : SameBut g x x := by
  cases x with
  | error e => exact .failed e
  | ok o => exact .given rfl

theorem SameBut.trans {ε : Type} {g : SwitchField} {x y z : Except ε Options} (h : SameBut g x y)
    (h' : SameBut g y z) : SameBut g x z := by
  cases h with
  | failed e => exact h'
  | given ho =>
      cases h' with
      | given ho' => exact .given (ho.trans ho')

end SyncPlan
