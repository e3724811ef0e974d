import SyncPlan.Proofs.CommandLine.Outcome
import SyncPlan.Proofs.ConfigFile.Flat
import SyncPlan.Proofs.Toml.Integers
import SyncPlan.Proofs.Toml.RoundTrip
import SyncPlan.Proofs.Yaml.RoundTrip

/-!
Integers in base ten as the values of options, given to an argument or on a line of a config file of
either format. Each of the three takes exactly the integers in the range of the option, and takes
them as they are; every other integer is refused, whatever the width of the reader that meets it.
-/

namespace SyncPlan
open Text

/-- An option that holds an integer. -/
inductive IntegerField
  | count (f : CountField)
  | number (f : NumberField)
  deriving DecidableEq, Repr

namespace IntegerField

def field : IntegerField → Field
  | .count f => .count f
  | .number f => .number f

def argument (f : IntegerField) : Argument := .field f.field

/-- The range of an option: thirty-two bits without a sign, or sixty-four with one. -/
def Fits : IntegerField → Int → Prop
  | .count _, n => 0 ≤ n ∧ n < 4294967296
  | .number _, n => -9223372036854775808 ≤ n ∧ n < 9223372036854775808

/-- The integer that options hold. -/
def valueIn (o : Options) : IntegerField → Int
  | .count f => (o.count f).toNat
  | .number f => (o.number f).toInt

/-- The setting of an option to an integer, if it is in range. -/
inductive Sets : IntegerField → Int → Setting → Prop
  | count (f : CountField) (k : UInt32) : Sets (.count f) k.toNat (.count f k)
  | number (f : NumberField) (k : Int64) : Sets (.number f) k.toInt (.number f k)

/-- The argument with an integer in the same token. -/
def token (f : IntegerField) (n : Int) : String := "--" ++ f.argument.long ++ "=" ++ toString n

def tomlLine (f : IntegerField) (n : Int) : List Char := Toml.integerLine f.field.key.toList n

def yamlLine (f : IntegerField) (n : Int) : List Char :=
  f.field.key.toList ++ ':' :: ' ' :: (decimal n ++ ['\n'])

/-- Options are given exactly if an integer is in range, and then hold just this integer. -/
structure TakenExactly {ε : Type} (f : IntegerField) (n : Int) (result : Except ε Options) :
    Prop where
  fits : (∃ o, result = .ok o) ↔ f.Fits n
  value : ∀ o, result = .ok o → f.valueIn o = n

variable {f : IntegerField} {n : Int} {s : Setting}

theorem exists_sets_iff : (∃ s, f.Sets n s) ↔ f.Fits n := by
  constructor
  · intro h
    obtain ⟨s, hs⟩ := h
    cases hs with
    | count g k => exact ⟨Int.natCast_nonneg _, Int.ofNat_lt.2 k.toNat_lt⟩
    | number g k => exact ⟨k.le_toInt, k.toInt_lt⟩
  · intro h
    cases f with
    | count g =>
        cases hk : countOf? n with
        | some k =>
            obtain rfl := countOf?_eq_some_iff.1 hk
            exact ⟨_, .count g k⟩
        | none => exact absurd h (countOf?_eq_none_iff.1 hk)
    | number g =>
        cases hk : numberOf? n with
        | some k =>
            obtain rfl := numberOf?_eq_some_iff.1 hk
            exact ⟨_, .number g k⟩
        | none => exact absurd h (numberOf?_eq_none_iff.1 hk)

theorem Sets.field (h : f.Sets n s) : s.field = f.field := by
  cases h <;> rfl

theorem Sets.valueIn {o : Options} (h : f.Sets n s) (ho : o.setting s.field = s) :
    f.valueIn o = n := by
  cases h with
  | count g k =>
      have hk : o.count g = k := by simpa [Options.setting, Setting.field] using ho
      rw [IntegerField.valueIn, hk]
  | number g k =>
      have hk : o.number g = k := by simpa [Options.setting, Setting.field] using ho
      rw [IntegerField.valueIn, hk]

/-- Whatever is given holds the setting to an integer, and something is given if this fits. -/
theorem takenExactly_of {ε : Type} {result : Except ε Options}
    (hsets : ∀ o, result = .ok o → ∃ s, f.Sets n s ∧ o.setting s.field = s)
    (hok : ∀ s, f.Sets n s → ∃ o, result = .ok o) : f.TakenExactly n result where
  fits := by
    rw [← exists_sets_iff]
    constructor
    · intro h
      obtain ⟨o, ho⟩ := h
      obtain ⟨s, hs, -⟩ := hsets o ho
      exact ⟨s, hs⟩
    · intro h
      obtain ⟨s, hs⟩ := h
      exact hok s hs
  value := by
    intro o ho
    obtain ⟨s, hs, hsetting⟩ := hsets o ho
    exact hs.valueIn hsetting

section Arguments
open CommandLine

theorem argument_mem_named (f : IntegerField) : f.argument ∈ Argument.named := by
  cases f with
  | count g => cases g <;> decide
  | number g => cases g <;> decide

theorem spells_token (f : IntegerField) (n : Int) :
    Spells (f.token n).toList [.valued f.argument (toString n)] none := by
  have hvalue : f.argument.takesValue = true := by cases f <;> rfl
  have htext : (f.token n).toList =
      '-' :: '-' :: (f.argument.long.toList ++ '=' :: (toString n).toList) := by
    simp [token, String.toList_append]
  rw [htext]
  exact .longValue (toString n) f.argument_mem_named hvalue

theorem isValid_of_sets (h : f.Sets n s) :
    (Item.valued f.argument (toString n)).IsValid := by
  refine ⟨f.argument_mem_named, ?_⟩
  cases h with
  | count g k => exact ⟨k, isInteger_decimal _⟩
  | number g k => exact ⟨k, isInteger_decimal _⟩

/-- What a command line shows of an option is the integer that it is given. -/
theorem sets_of_shows {c : CommandLine} {vs : List String} (h : c.Shows f.argument vs)
    (hmem : toString n ∈ vs) (base : Options) :
    ∃ s, f.Sets n s ∧ (c.overlay base).setting s.field = s := by
  cases f with
  | count g =>
      obtain ⟨k, hc, hk⟩ := IsSetBy.denotes_of_mem h hmem
      obtain rfl := IsInteger.unique (by decide) (isInteger_decimal n) hk
      exact ⟨_, .count g k, by simp [Options.setting, Setting.field, overlay, hc]⟩
  | number g =>
      obtain ⟨k, hc, hk⟩ := IsSetBy.denotes_of_mem h hmem
      obtain rfl := IsInteger.unique (by decide) (isInteger_decimal n) hk
      exact ⟨_, .number g k, by simp [Options.setting, Setting.field, overlay, hc]⟩

variable {front back : List String} {before after : List Item}

theorem takenExactly_read (hfront : Accounted front before) (hdashes : "--" ∉ front)
    (hback : Accounted back after) (hvalid : ∀ item ∈ before ++ after, item.IsValid)
    (hplaces : (places (before ++ after)).length ≤ 2)
    (honce : (onces (before ++ .valued f.argument (toString n) :: after)).Nodup)
    (base : Options) :
    f.TakenExactly n ((read (front ++ f.token n :: back)).map (·.overlay base)) := by
  have haccounted : Accounted (front ++ f.token n :: back)
      (before ++ .valued f.argument (toString n) :: after) :=
    hfront.append hdashes (.named (f.spells_token n) hback)
  apply takenExactly_of
  · intro o ho
    obtain ⟨c, hc, rfl⟩ := map_eq_ok_iff.1 ho
    obtain ⟨r, hrun, rfl⟩ := (read_eq_ok_iff haccounted).1 hc
    have hmeans := means_of_run haccounted.isNamed hrun
    exact sets_of_shows (hmeans.shows f.argument)
      ((mem_given_iff f.argument_mem_named).2 (by simp)) base
  · intro s hs
    have hall : ∀ item ∈ before ++ .valued f.argument (toString n) :: after, item.IsValid := by
      intro item hitem
      rw [List.mem_append, List.mem_cons] at hitem
      obtain hitem | rfl | hitem := hitem
      · exact hvalid item (List.mem_append_left _ hitem)
      · exact isValid_of_sets hs
      · exact hvalid item (List.mem_append_right _ hitem)
    have hsame : places (.valued f.argument (toString n) :: after) = places after := rfl
    have hlength : (places (before ++ .valued f.argument (toString n) :: after)).length ≤ 2 := by
      rwa [length_places_append, hsame, ← length_places_append]
    obtain ⟨r, hrun⟩ := exists_run says_nil (by simp) hall hlength honce
    exact ⟨_, map_eq_ok_iff.2 ⟨_, (read_eq_ok_iff haccounted).2 ⟨r, hrun, rfl⟩, rfl⟩⟩

end Arguments

section Files

variable {V : Type} {Gives : V → Setting → Prop} {Blames : Field → V → Defect → Prop}
  {path : String} {result : Except ConfigFile.Failure Options}

/-- A file one of whose pairs has the option as its key takes an integer exactly, if the value of
this pair gives the settings to the integer and no others. -/
theorem takenExactly_of_loadsAs {before after : List (String × V)} {first last : List Setting}
    {v : V} (hload : LoadsAs Gives Blames path (before ++ (f.field.key, v) :: after) result)
    (hbefore : Accepts Gives before first) (hafter : Accepts Gives after last)
    (hnodup : (first.map Setting.field ++ f.field :: last.map Setting.field).Nodup)
    (hgives : ∀ s : Setting, s.field = f.field → (Gives v s ↔ f.Sets n s)) :
    f.TakenExactly n result := by
  apply takenExactly_of
  · intro o ho
    obtain ⟨settings, haccepts, rfl⟩ := (hload.accepted o).1 ho
    obtain ⟨s, hs, hkey, hv⟩ := haccepts.exists_of_mem (List.mem_append_right _ List.mem_cons_self)
    exact ⟨s, (hgives s (key_injective hkey).symm).1 hv,
      Options.setting_setAll_of_mem _ haccepts.nodup hs⟩
  · intro s hs
    refine ⟨_, (hload.accepted _).2 ⟨first ++ s :: last, ⟨?_, ?_⟩, rfl⟩⟩
    · refine List.rel_append hbefore.pairs (.cons ⟨?_, (hgives s hs.field).2 hs⟩ hafter.pairs)
      rw [hs.field]
    · rwa [List.map_append, List.map_cons, hs.field]

theorem toml_gives_iff (hfield : s.field = f.field) :
    Toml.Gives (.integer n) s ↔ f.Sets n s := by
  constructor
  · intro h
    cases f with
    | count g =>
        cases s with
        | count g' k =>
            obtain rfl := Field.count.inj hfield
            obtain rfl := Toml.Value.integer.inj h
            exact .count g' k
        | _ => simp [Setting.field, field] at hfield
    | number g =>
        cases s with
        | number g' k =>
            obtain rfl := Field.number.inj hfield
            obtain rfl := Toml.Value.integer.inj h
            exact .number g' k
        | _ => simp [Setting.field, field] at hfield
  · intro h
    cases h <;> rfl

theorem Sets.inRange (h : f.Sets n s) : Toml.inRange n = true := by
  cases h with
  | count g k => exact Toml.inRange_count k
  | number g k => exact Toml.inRange_number k

section Toml

variable {disk : Disk} {capital : Bool} {before after : List Setting}

theorem loadsAs_toml (hpath : ConfigFile.isYaml path = false) (hrange : Toml.inRange n = true)
    (hnodup : (before.map Setting.field ++ f.field :: after.map Setting.field).Nodup)
    (hcontent : ConfigFile.contentOf disk path =
      .ok (Toml.document capital before ++ f.tomlLine n ++ Toml.document capital after)) :
    LoadsAs Toml.Gives Toml.Blames path
      ((before.map (Toml.row capital)).map Toml.Row.pair ++ (f.field.key, .integer n) ::
        (after.map (Toml.row capital)).map Toml.Row.pair) (ConfigFile.load disk path) := by
  have hbefore := @Toml.accepts_rows capital before hnodup.of_append_left
  have hafter := @Toml.accepts_rows capital after hnodup.of_append_right.of_cons
  have hkeys : (((before.map (Toml.row capital) ++ Toml.integerRow f.field n hrange ::
      after.map (Toml.row capital)).map Toml.Row.pair).map Prod.fst).Nodup := by
    have hmap := hnodup.map fun _ _ => key_injective
    rw [List.map_append, List.map_cons, ← hbefore.keys, ← hafter.keys] at hmap
    simpa [Toml.integerRow, Toml.Row.pair] using hmap
  have hflat := Toml.isFlat_rows hkeys
  rw [List.flatMap_append, List.flatMap_cons] at hflat
  rw [Toml.document_eq_rows, Toml.document_eq_rows, List.append_assoc] at hcontent
  have hload := ConfigFile.loadsAs_of_isFlat_toml hcontent hpath hflat
  rwa [List.map_append, List.map_cons, Toml.Row.pair, Toml.integerRow,
    String.ofList_toList] at hload

theorem load_excess (hpath : ConfigFile.isYaml path = false) (hrange : Toml.inRange n = false)
    (hcontent : ConfigFile.contentOf disk path =
      .ok (Toml.document capital before ++ f.tomlLine n ++ Toml.document capital after)) :
    ConfigFile.load disk path = .error ⟨path, .malformed⟩ := by
  rw [Toml.document_eq_rows, Toml.document_eq_rows, List.append_assoc] at hcontent
  rw [ConfigFile.load_of_content hcontent, ConfigFile.optionsOf, hpath, tomlLine]
  simp [Toml.ofToml_excess (Toml.isBareKey_key f.field) hrange]

theorem takenExactly_toml (hpath : ConfigFile.isYaml path = false)
    (hnodup : (before.map Setting.field ++ f.field :: after.map Setting.field).Nodup)
    (hread : disk.read path = .ok (utf8 (Toml.document capital before ++ f.tomlLine n ++
      Toml.document capital after))) :
    f.TakenExactly n (ConfigFile.load disk path) := by
  have hcontent := ConfigFile.contentOf_of_utf8 hread
  -- An integer that the format itself cannot hold fails the whole document, so that there are no
  -- pairs to look at; any other one is a value like the others, and the option decides.
  cases hrange : Toml.inRange n with
  | false =>
      rw [load_excess hpath hrange hcontent]
      apply takenExactly_of
      · intro o ho
        simp at ho
      · intro s hs
        exact absurd hs.inRange (by simp [hrange])
  | true =>
      exact takenExactly_of_loadsAs (loadsAs_toml hpath hrange hnodup hcontent)
        (Toml.accepts_rows hnodup.of_append_left)
        (Toml.accepts_rows hnodup.of_append_right.of_cons) hnodup fun s => toml_gives_iff

end Toml

/-- The row of an integer, which is written as it is. -/
def yamlRow (f : IntegerField) (n : Int) : Yaml.Row :=
  ⟨f.field.key.toList, .word (decimal n) (Yaml.isWord_decimal n), Yaml.isKey_key f.field⟩

theorem yaml_gives_iff (hfield : s.field = f.field) :
    Yaml.Gives (f.yamlRow n).pair.2 s ↔ f.Sets n s := by
  constructor
  · intro h
    cases f with
    | count g =>
        cases h with
        | count hspelled hunsigned =>
            obtain rfl := Field.count.inj hfield
            rw [String.toList_ofList] at hunsigned
            rw [← Yaml.eq_of_isInteger_decimal (.unsigned hunsigned)]
            exact .count _ _
        | _ => simp [Setting.field, field] at hfield
    | number g =>
        cases h with
        | number hspelled hinteger =>
            obtain rfl := Field.number.inj hfield
            rw [String.toList_ofList] at hinteger
            rw [← Yaml.eq_of_isInteger_decimal hinteger]
            exact .number _ _
        | _ => simp [Setting.field, field] at hfield
  · intro h
    cases h with
    | count g k => exact .count (.inl rfl) (by simpa using Yaml.isUnsigned_decimal k.toNat)
    | number g k => exact .number (.inl rfl) (by simpa using Yaml.isInteger_decimal k.toInt)

theorem takenExactly_yaml {disk : Disk} {capital : Bool} {before after : List Yaml.Line}
    (hpath : ConfigFile.isYaml path = true)
    (hnodup : (before.map (·.setting.field) ++
      f.field :: after.map (·.setting.field)).Nodup)
    (hread : disk.read path = .ok (utf8 (Yaml.document capital before ++ f.yamlLine n ++
      Yaml.document capital after))) :
    f.TakenExactly n (ConfigFile.load disk path) := by
  have hbefore := Yaml.accepts_rows hnodup.of_append_left
  have hafter := Yaml.accepts_rows hnodup.of_append_right.of_cons
  have htext : Yaml.document capital before ++ f.yamlLine n ++ Yaml.document capital after =
      (before.map Yaml.Line.row ++ f.yamlRow n :: after.map Yaml.Line.row).flatMap
        (Yaml.Row.text capital) := by
    rw [Yaml.document_eq_rows, Yaml.document_eq_rows, List.flatMap_append, List.flatMap_cons,
      ← List.append_assoc]
    rfl
  rw [htext] at hread
  have hcontent := ConfigFile.contentOf_of_utf8 hread
  have hload := ConfigFile.loadsAs_of_isFlat_yaml hcontent hpath (Yaml.isFlat_rows capital _)
  have hpair : (f.yamlRow n).pair = (f.field.key, (f.yamlRow n).pair.2) :=
    Prod.ext String.ofList_toList rfl
  rw [List.map_append, List.map_cons, hpair] at hload
  refine takenExactly_of_loadsAs hload hbefore hafter ?_ fun s => yaml_gives_iff
  rwa [List.map_map, List.map_map]

end Files

end IntegerField

open CommandLine

/-- An integer of any size, in base ten, is taken alike as an argument, as the value of a line in
the one format and as one in the other. Each of them succeeds exactly if the integer is in the
range of the option, which holds this very integer then. -/
theorem integer_taken_exactly (f : IntegerField) (n : Int) :
    (∀ front back before after, Accounted front before → "--" ∉ front → Accounted back after →
      (∀ item ∈ before ++ after, item.IsValid) → (places (before ++ after)).length ≤ 2 →
      (onces (before ++ .valued f.argument (toString n) :: after)).Nodup → ∀ base : Options,
        f.TakenExactly n ((read (front ++ f.token n :: back)).map (·.overlay base))) ∧
    (∀ (disk : Disk) (path : String) (capital : Bool) (before after : List Setting),
      ConfigFile.isYaml path = false →
      (before.map Setting.field ++ f.field :: after.map Setting.field).Nodup →
      disk.read path = .ok (utf8 (Toml.document capital before ++ f.tomlLine n ++
        Toml.document capital after)) →
        f.TakenExactly n (ConfigFile.load disk path)) ∧
    ∀ (disk : Disk) (path : String) (capital : Bool) (before after : List Yaml.Line),
      ConfigFile.isYaml path = true →
      (before.map (·.setting.field) ++ f.field :: after.map (·.setting.field)).Nodup →
      disk.read path = .ok (utf8 (Yaml.document capital before ++ f.yamlLine n ++
        Yaml.document capital after)) →
        f.TakenExactly n (ConfigFile.load disk path) :=
  ⟨fun _ _ _ _ hfront hdashes hback hvalid hplaces honce base =>
      IntegerField.takenExactly_read hfront hdashes hback hvalid hplaces honce base,
    fun _ _ _ _ _ hpath hnodup hread => IntegerField.takenExactly_toml hpath hnodup hread,
    fun _ _ _ _ _ hpath hnodup hread => IntegerField.takenExactly_yaml hpath hnodup hread⟩

/-- Files with an integer just out of range, and with the least one that is in it. -/
def limitDisk : Disk :=
  FileTree.disk (.directory [
    ("s3sync.toml", .file (utf8 (Toml.document false [.switch .debug true] ++
      (IntegerField.number .modifiedAfter).tomlLine 9223372036854775808 ++
      Toml.document false [.count .workers 8]))),
    ("s3sync.yml", .file (utf8 (Yaml.document false [⟨.text .source "a", false, rfl⟩] ++
      (IntegerField.number .modifiedBefore).yamlLine (-9223372036854775808) ++
      Yaml.document false [])))]) []

theorem integers_at_limits :
    (∀ c, read ["-d", "--workers=4294967296", "src"] ≠ .ok c) ∧
    (∀ o, ConfigFile.load limitDisk "s3sync.toml" ≠ .ok o) ∧
    ∃ o, ConfigFile.load limitDisk "s3sync.yml" = .ok o ∧
      (o.number .modifiedBefore).toInt = -9223372036854775808 := by
  refine ⟨?_, ?_, ?_⟩
  · intro c hc
    have hdebug : Spells "-d".toList [.flag (.field (.switch .debug))] none :=
      .short (List.cons_ne_nil _ _) (.flag rfl rfl .nil)
    have htaken := (integer_taken_exactly (.count .workers) 4294967296).1 ["-d"] ["src"] _ _
      (.named hdebug .nil) (by decide) (.place (isPlain_of_head? (by decide)) .nil)
      (by simp [Item.IsValid]) (by decide) (by decide) .default
    have hread :
        read (["-d"] ++ (IntegerField.count .workers).token 4294967296 :: ["src"]) = .ok c := hc
    have hfits := htaken.fits.1 ⟨_, map_eq_ok_iff.2 ⟨c, hread, rfl⟩⟩
    exact absurd hfits.2 (by decide)
  · intro o ho
    have htaken := (integer_taken_exactly (.number .modifiedAfter) 9223372036854775808).2.1
      limitDisk "s3sync.toml" false [.switch .debug true] [.count .workers 8] (by decide)
      (by decide) rfl
    have hfits := htaken.fits.1 ⟨o, ho⟩
    exact absurd hfits.2 (by decide)
  · have htaken := (integer_taken_exactly (.number .modifiedBefore) (-9223372036854775808)).2.2
      limitDisk "s3sync.yml" false [⟨.text .source "a", false, rfl⟩] [] (by decide) (by decide) rfl
    obtain ⟨o, ho⟩ := htaken.fits.2 ⟨by decide, by decide⟩
    exact ⟨o, ho, htaken.value o ho⟩

end SyncPlan
