import SyncPlan.Proofs.ConfigFile.Pairs
import SyncPlan.Proofs.Toml.Writing
import SyncPlan.Toml.Options

/-!
TOML documents that are flat: pairs of one key each, and no sections. A value has one kind, and it
gives a setting of a field exactly when it is of the kind of this field and in its range.
-/

namespace SyncPlan.Toml
open Text

/-- A value gives the settings that are written as it. -/
def Gives (v : Value) (s : Setting) : Prop := v = valueOf s

/-- Whether a value is of the kind of a field, in range or not. -/
def isOfKind : Field → Value → Bool
  | .text _, .string _ => true
  | .count _, .integer _ | .number _, .integer _ => true
  | .switch _, .boolean _ => true
  | .list _, .array _ => true
  | _, _ => false

def isString : Value → Bool
  | .string _ => true
  | _ => false

/-- What is wrong with a value for a field: its kind, or its range, or the first item of a list that
is no text. -/
inductive Blames : Field → Value → Defect → Prop
  | kind {f : Field} {v : Value} : isOfKind f v = false →
      Blames f v (.wrongType v.given f.wanted)
  | count {f : CountField} {n : Int} : ¬(0 ≤ n ∧ n < boundOfBits 32) →
      Blames (.count f) (.integer n) (.wrongValue (.integer n) .count)
  | number {f : NumberField} {n : Int} : ¬(-boundOfBits 63 ≤ n ∧ n < boundOfBits 63) →
      Blames (.number f) (.integer n) (.wrongValue (.integer n) .number)
  | item {f : ListField} {texts : List String} {v : Value} {rest : List Value} :
      isString v = false →
      Blames (.list f) (.array (texts.map .string ++ v :: rest)) (.wrongType v.given .text)

/-- What is read of a value for a field. -/
def take (f : Field) (v : Value) : Except Defect Setting := settingOf f (.value v)

theorem textsOf_string (vs : List String) :
    textsOf ((vs.map Value.string).map Value.given) = .ok vs := by
  induction vs with
  | nil => rfl
  | cons v vs ih =>
      rw [List.map_cons, List.map_cons, Value.given, textsOf, ih]
      rfl

/-- An entry gives the setting that it was written for. -/
theorem settingOf_valueOf (s : Setting) : settingOf s.field (.value (valueOf s)) = .ok s := by
  cases s with
  | text f v => rfl
  | count f v =>
      change integerSetting (.count f) v.toNat ((countOf? v.toNat).map (.count f)) = _
      rw [countOf?_toNat]
      rfl
  | number f v =>
      change integerSetting (.number f) v.toInt ((numberOf? v.toInt).map (.number f)) = _
      rw [numberOf?_toInt]
      rfl
  | switch f v => rfl
  | list f vs =>
      simp only [settingOf, Setting.field, valueOf, Tree.items?, textsOf_string]
      rfl

theorem textsOf_append {texts : List String} {v : Value} (h : isString v = false)
    (rest : List Value) : textsOf ((texts.map Value.string ++ v :: rest).map Value.given) =
      .error (.wrongType v.given .text) := by
  induction texts with
  | nil => cases v <;> first | rfl | simp [isString] at h
  | cons s texts ih =>
      change (textsOf ((texts.map Value.string ++ v :: rest).map Value.given)).map (s :: ·) = _
      rw [ih]
      rfl

/-- The items of a list are texts, or one of them is the first that is none. -/
theorem texts_or_item (items : List Value) : (∃ texts : List String, items = texts.map .string) ∨
    ∃ (texts : List String) (v : Value) (rest : List Value),
      items = texts.map .string ++ v :: rest ∧ isString v = false := by
  induction items with
  | nil => exact .inl ⟨[], rfl⟩
  | cons v items ih =>
      cases hv : isString v with
      | false => exact .inr ⟨[], v, items, rfl, hv⟩
      | true =>
          obtain ⟨s, rfl⟩ : ∃ s, v = .string s := by cases v <;> simp_all [isString]
          cases ih with
          | inl hall =>
              obtain ⟨texts, rfl⟩ := hall
              exact .inl ⟨s :: texts, rfl⟩
          | inr hitem =>
              obtain ⟨texts, w, rest, rfl, hw⟩ := hitem
              exact .inr ⟨s :: texts, w, rest, rfl, hw⟩

theorem take_of_blames {f : Field} {v : Value} {d : Defect} (h : Blames f v d) :
    take f v = .error d := by
  cases h with
  | kind hkind => cases f <;> cases v <;> first | rfl | simp [isOfKind] at hkind
  | count hrange =>
      next g n =>
      change integerSetting (.count g) n ((countOf? n).map (.count g)) = _
      rw [countOf?_eq_none_iff.2 hrange]
      rfl
  | number hrange =>
      next g n =>
      change integerSetting (.number g) n ((numberOf? n).map (.number g)) = _
      rw [numberOf?_eq_none_iff.2 hrange]
      rfl
  | item hitem =>
      next g texts w rest =>
      change (textsOf ((texts.map Value.string ++ w :: rest).map Value.given)).map
        (Setting.list g) = _
      rw [textsOf_append hitem]
      rfl

theorem gives_or_blames (f : Field) (v : Value) :
    (∃ s : Setting, s.field = f ∧ Gives v s) ∨ ∃ d, Blames f v d := by
  cases hkind : isOfKind f v with
  | false => exact .inr ⟨_, .kind hkind⟩
  | true =>
      cases f with
      | text g => cases v <;> first | exact .inl ⟨.text g _, rfl, rfl⟩ | simp [isOfKind] at hkind
      | switch g =>
          cases v <;> first | exact .inl ⟨.switch g _, rfl, rfl⟩ | simp [isOfKind] at hkind
      | count g =>
          obtain ⟨n, rfl⟩ : ∃ n, v = .integer n := by cases v <;> simp_all [isOfKind]
          cases hn : countOf? n with
          | some k => exact .inl ⟨.count g k, rfl, congrArg _ (countOf?_eq_some_iff.1 hn)⟩
          | none => exact .inr ⟨_, .count (countOf?_eq_none_iff.1 hn)⟩
      | number g =>
          obtain ⟨n, rfl⟩ : ∃ n, v = .integer n := by cases v <;> simp_all [isOfKind]
          cases hn : numberOf? n with
          | some k => exact .inl ⟨.number g k, rfl, congrArg _ (numberOf?_eq_some_iff.1 hn)⟩
          | none => exact .inr ⟨_, .number (numberOf?_eq_none_iff.1 hn)⟩
      | list g =>
          obtain ⟨items, rfl⟩ : ∃ items, v = .array items := by cases v <;> simp_all [isOfKind]
          cases texts_or_item items with
          | inl hall =>
              obtain ⟨texts, rfl⟩ := hall
              exact .inl ⟨.list g texts, rfl, rfl⟩
          | inr hitem =>
              obtain ⟨texts, w, rest, rfl, hw⟩ := hitem
              exact .inr ⟨_, .item hw⟩

theorem decides_take : Decides take Gives Blames where
  gives := by
    intro v s h
    rw [h]
    exact settingOf_valueOf s
  blames := take_of_blames
  total := gives_or_blames
  className := by
    intro f v d h
    cases h with
    | kind _ | item _ => exact .inl rfl
    | count _ | number _ => exact .inr rfl

/-- The entries of pairs of one key each. -/
def entriesOfPairs (pairs : List (String × Value)) : Entries :=
  pairs.map fun p => (p.1, .value p.2)

theorem lookup_entriesOfPairs {pairs : List (String × Value)} {k : String}
    (h : k ∉ pairs.map Prod.fst) : (entriesOfPairs pairs).lookup k = none := by
  induction pairs with
  | nil => rfl
  | cons p pairs ih =>
      rw [List.map_cons, List.mem_cons, not_or] at h
      have hkey : (k == p.1) = false := beq_eq_false_iff_ne.2 h.1
      rw [entriesOfPairs, List.map_cons, List.lookup_cons, hkey]
      exact ih h.2

theorem addPair_key {es : Entries} {k : String} (h : es.lookup k = none) (v : Value) :
    addPair es [k] v = some (es ++ [(k, .value v)]) := by
  simp [addPair, descend, h]

theorem addPairs_cons (es : Entries) (path : List String) (v : Value)
    (pairs : List (List String × Value)) :
    addPairs es ((path, v) :: pairs) = (addPair es path v).bind fun es => addPairs es pairs := rfl

/-- The pairs of distinct keys become entries in their order. -/
theorem addPairs_of_nodup {before pairs : List (String × Value)}
    (h : ((before ++ pairs).map Prod.fst).Nodup) :
    addPairs (entriesOfPairs before) (pairs.map fun p => ([p.1], p.2)) =
      some (entriesOfPairs (before ++ pairs)) := by
  induction pairs generalizing before with
  | nil => simp [addPairs]
  | cons p pairs ih =>
      have hnew : p.1 ∉ before.map Prod.fst := by
        rw [List.map_append, List.map_cons, List.nodup_middle, List.nodup_cons] at h
        exact fun hmem => h.1 (List.mem_append_left _ hmem)
      have hconcat : entriesOfPairs before ++ [(p.1, .value p.2)] =
          entriesOfPairs (before ++ [p]) := by
        simp [entriesOfPairs]
      rw [← List.singleton_append, ← List.append_assoc] at h
      rw [List.map_cons, addPairs_cons, addPair_key (lookup_entriesOfPairs hnew),
        Option.bind_some, hconcat, ih h, List.append_assoc, List.singleton_append]

/-- A text whose lines are pairs of distinct keys and nothing else. A byte order mark may stand
before them. -/
def IsFlat (cs : List Char) (pairs : List (String × Value)) : Prop :=
  lines? (if cs.head? == some '\ufeff' then cs.drop 1 else cs) =
      some (pairs.map fun p => ([p.1], p.2), []) ∧
    (pairs.map Prod.fst).Nodup

/-- Lines with distinct keys are a flat text. -/
theorem isFlat_rows {rows : List Row} (h : ((rows.map Row.pair).map Prod.fst).Nodup) :
    IsFlat (rows.flatMap Row.line) (rows.map Row.pair) := by
  have hmark : ((rows.flatMap Row.line).head? == some '\ufeff') = false := by
    simpa using head?_rows rows
  rw [IsFlat, hmark]
  exact ⟨lines?_rows rows, h⟩

theorem entriesOptions_eq_settle {pairs : List (String × Value)} {seen : List Field} (o : Options)
    (hnodup : (pairs.map Prod.fst).Nodup) (hseen : ∀ f ∈ seen, f.key ∉ pairs.map Prod.fst) :
    entriesOptions o (entriesOfPairs pairs) = settle take seen o pairs := by
  induction pairs generalizing seen o with
  | nil => rfl
  | cons p pairs ih =>
      obtain ⟨key, v⟩ := p
      rw [List.map_cons, List.nodup_cons] at hnodup
      rw [entriesOfPairs, List.map_cons, entriesOptions, settle]
      cases hkey : Field.ofKey? key with
      | none => rfl
      | some f =>
          obtain rfl := key_of_ofKey? hkey
          have hnew : seen.contains f = false := by
            simpa using fun hmem => hseen f hmem List.mem_cons_self
          have hrest : ∀ g ∈ f :: seen, g.key ∉ pairs.map Prod.fst := by
            intro g hg
            cases List.mem_cons.1 hg with
            | inl heq => exact heq ▸ hnodup.1
            | inr hmem => exact fun h => hseen g hmem (List.mem_cons_of_mem _ h)
          simp only [hnew, Bool.false_eq_true, if_false, take]
          cases settingOf f (.value v) with
          | error d => rfl
          | ok s => exact ih (o.set s) hnodup.2 hrest

/-- A flat text comes to what its pairs are settled to. -/
theorem ofToml_of_isFlat {cs : List Char} {pairs : List (String × Value)} (h : IsFlat cs pairs) :
    Options.ofToml cs = settle take [] .default pairs := by
  obtain ⟨hlines, hnodup⟩ := h
  have hread : read cs = some (entriesOfPairs pairs) := by
    have hpairs : addPairs [] (pairs.map fun p => ([p.1], p.2)) = some (entriesOfPairs pairs) :=
      @addPairs_of_nodup [] pairs hnodup
    rw [read, hlines]
    simp [document?, hpairs]
  rw [Options.ofToml, hread]
  exact entriesOptions_eq_settle .default hnodup (by simp)

end SyncPlan.Toml
