import SyncPlan.Proofs.Loading
import SyncPlan.Proofs.Toml.Pairs
import SyncPlan.Proofs.Yaml.Rows

/-!
Loading a config file that is flat. In either format it is used whole or refused whole: it gives the
settings of all its pairs, or nothing but the first pair that does not fit is reported, under the
path of the file.
-/

namespace SyncPlan

/-- How a file with some pairs loads. Only values are wrong in a type or a range. -/
structure LoadsAs {V : Type} (Gives : V → Setting → Prop) (Blames : Field → V → Defect → Prop)
    (path : String) (pairs : List (String × V)) (result : Except ConfigFile.Failure Options) :
    Prop where
  accepted : ∀ o, result = .ok o ↔
    ∃ settings, Accepts Gives pairs settings ∧ o = Options.default.setAll settings
  refused : ∀ failure, result = .error failure ↔
    failure.path = path ∧ FirstOffends Gives Blames pairs failure.defect
  className : ∀ {f v d}, Blames f v d → d.className = "invalid_type" ∨ d.className = "invalid_value"

namespace ConfigFile

section Loading

variable {disk : Disk} {path : String} {cs : List Char}

theorem loadsAs_of_settle {V : Type} {take : Field → V → Except Defect Setting}
    {Gives : V → Setting → Prop} {Blames : Field → V → Defect → Prop}
    {pairs : List (String × V)} (hd : Decides take Gives Blames)
    (hcontent : contentOf disk path = .ok cs)
    (hoptions : optionsOf path cs = settle take [] .default pairs) :
    LoadsAs Gives Blames path pairs (load disk path) := by
  obtain ⟨haccepted, hrefused⟩ := settle_iff hd .default pairs
  rw [load_of_content hcontent, hoptions]
  refine ⟨?_, ?_, hd.className⟩
  · intro o
    rw [← haccepted]
    cases settle take [] .default pairs <;> simp
  · intro failure
    rw [← hrefused]
    cases settle take [] .default pairs with
    | ok o => simp
    | error d =>
        obtain ⟨path', d'⟩ := failure
        simp [eq_comm]

theorem loadsAs_of_isFlat_toml {pairs : List (String × Toml.Value)}
    (hcontent : contentOf disk path = .ok cs) (hpath : isYaml path = false)
    (hflat : Toml.IsFlat cs pairs) :
    LoadsAs Toml.Gives Toml.Blames path pairs (load disk path) := by
  apply loadsAs_of_settle Toml.decides_take hcontent
  rw [optionsOf, hpath, ← Toml.ofToml_of_isFlat hflat]
  rfl

theorem loadsAs_of_isFlat_yaml {pairs : List (String × Yaml.Node)}
    (hcontent : contentOf disk path = .ok cs) (hpath : isYaml path = true)
    (hflat : Yaml.IsFlat cs pairs) :
    LoadsAs Yaml.Gives Yaml.Blames path pairs (load disk path) := by
  apply loadsAs_of_settle Yaml.decides_take hcontent
  rw [optionsOf, hpath, ← Yaml.ofYaml_of_isFlat hflat]
  rfl

/-- A flat file is never used in part. Each of its keys is the name of a field, no two are the same
and each value fits its field, and then the file gives these settings; or the first pair for which
this fails is what is reported. A file is flat whose lines are a key and a value each. -/
theorem load_flat (hcontent : contentOf disk path = .ok cs) :
    (isYaml path = false →
      (∀ pairs, Toml.IsFlat cs pairs →
        LoadsAs Toml.Gives Toml.Blames path pairs (load disk path)) ∧
      ∀ rows : List Toml.Row, rows.flatMap Toml.Row.line = cs →
        ((rows.map Toml.Row.pair).map Prod.fst).Nodup →
          LoadsAs Toml.Gives Toml.Blames path (rows.map Toml.Row.pair) (load disk path)) ∧
    (isYaml path = true →
      (∀ pairs, Yaml.IsFlat cs pairs →
        LoadsAs Yaml.Gives Yaml.Blames path pairs (load disk path)) ∧
      ∀ (capital : Bool) (rows : List Yaml.Row), rows.flatMap (Yaml.Row.text capital) = cs →
        LoadsAs Yaml.Gives Yaml.Blames path (rows.map Yaml.Row.pair) (load disk path)) := by
  refine ⟨fun hpath => ⟨fun _ => loadsAs_of_isFlat_toml hcontent hpath, ?_⟩,
    fun hpath => ⟨fun _ => loadsAs_of_isFlat_yaml hcontent hpath, ?_⟩⟩
  · intro rows hrows hnodup
    exact loadsAs_of_isFlat_toml hcontent hpath (hrows ▸ Toml.isFlat_rows hnodup)
  · intro capital rows hrows
    exact loadsAs_of_isFlat_yaml hcontent hpath (hrows ▸ Yaml.isFlat_rows capital rows)

end Loading

/-- Lines of which the second has a key that is the name of no field. -/
def misspeltRows : List Toml.Row := [Toml.row false (.count .workers 8),
  { Toml.row false (.text .source "") with
    key := "sauce".toList, isBareKey := ⟨by decide, List.all_eq_true.1 (by decide)⟩ }]

theorem pair_misspeltRows : misspeltRows.map Toml.Row.pair =
    [("workers", .integer 8), ("sauce", .string "")] := by
  simp only [misspeltRows, List.map_cons, List.map_nil, Toml.Row.pair, Toml.row,
    String.ofList_toList]
  rfl

/-- Lines of which the fourth has a text where a switch is wanted, and the last the same key as the
first. -/
def quotedText : List Char :=
  "# nightly\nworkers: 8\nfilter_ext:\n- 'jpg'\n- png # all\nsource: >-\n  s3://b\n  /x\n".toList ++
    "debug: \"true\"\nworkers: 9\n".toList

def plainScalar (text : String) : Yaml.Scalar := ⟨none, none, .plain, text⟩

def quotedScalar (text : String) : Yaml.Scalar := ⟨none, none, .quoted, text⟩

def quotedEntries : List Yaml.Entry := [
  ⟨plainScalar "workers", .scalar (plainScalar "8")⟩,
  ⟨plainScalar "filter_ext", .list none [quotedScalar "jpg", plainScalar "png"]⟩,
  ⟨plainScalar "source", .scalar ⟨none, none, .folded, "s3://b /x"⟩⟩,
  ⟨plainScalar "debug", .scalar (quotedScalar "true")⟩,
  ⟨plainScalar "workers", .scalar (plainScalar "9")⟩]

theorem isFlat_quotedText : Yaml.IsFlat quotedText (quotedEntries.map Yaml.Entry.pair) := by
  apply @Yaml.IsFlat.mapping _ none
  exact Yaml.ofText_of_runWithin 40 (by decide) (by decide +kernel)

def flawedDisk : Disk :=
  FileTree.disk (.directory [
    ("s3sync.toml", .file (Text.utf8 (misspeltRows.flatMap Toml.Row.line))),
    ("s3sync.yml", .file (Text.utf8 quotedText))]) []

theorem load_flawed_files :
    load flawedDisk "s3sync.toml" = .error ⟨"s3sync.toml", .unknownField "sauce"⟩ ∧
    load flawedDisk "s3sync.yml" =
      .error ⟨"s3sync.yml", .wrongType (.text "true") .switch⟩ := by
  constructor
  · have hcontent : contentOf flawedDisk "s3sync.toml" = .ok (misspeltRows.flatMap Toml.Row.line) :=
      contentOf_of_utf8 rfl
    have hnodup : ((misspeltRows.map Toml.Row.pair).map Prod.fst).Nodup := by
      rw [pair_misspeltRows]
      decide
    have hloads := ((load_flat hcontent).1 (by decide)).2 misspeltRows rfl hnodup
    refine (hloads.refused _).2 ⟨rfl, ?_⟩
    refine ⟨[("workers", .integer 8)], ("sauce", .string ""), [], pair_misspeltRows, ?_,
      .unknown ?_⟩
    · exact ⟨[.count .workers 8], .cons ⟨rfl, rfl⟩ .nil, by decide⟩
    · exact ofKey?_eq_none_iff.1 (by decide)
  · have hcontent : contentOf flawedDisk "s3sync.yml" = .ok quotedText := contentOf_of_utf8 rfl
    have hloads := ((load_flat hcontent).2 (by decide)).1 _ isFlat_quotedText
    refine (hloads.refused _).2 ⟨rfl, ?_⟩
    refine ⟨(quotedEntries.take 3).map Yaml.Entry.pair, quotedEntries[3].pair,
      (quotedEntries.drop 4).map Yaml.Entry.pair, rfl, ?_, ?_⟩
    · have hworkers : Yaml.Gives (.scalar (plainScalar "8")) (.count .workers 8) :=
        .count (.inl rfl) (Yaml.nonnegative?_eq_some_iff.1 (by decide))
      exact ⟨[.count .workers 8, .list .extensions ["jpg", "png"], .text .source "s3://b /x"],
        .cons ⟨rfl, hworkers⟩ (.cons ⟨rfl, .list⟩ (.cons ⟨rfl, .text⟩ .nil)), by decide⟩
    · have hquoted : ¬Yaml.IsSpelled "bool" (quotedScalar "true") := by
        simp [Yaml.IsSpelled, quotedScalar]
      have hblames : Yaml.Blames (.switch .debug) (.scalar (quotedScalar "true"))
        (.wrongType (.text "true") .switch) := .switch fun _ hspelled => absurd hspelled hquoted
      exact .value (by decide) hblames

/-- A count in the range of counts, but with a sign. -/
def signedZero : List Char := "workers: -0\n".toList

/-- A value whose tag makes it a text. -/
def taggedText : List Char := "workers: !!str 5\n".toList

def signedNode : Yaml.Node := .scalar (plainScalar "-0")

def taggedNode : Yaml.Node := .scalar ⟨none, some (Yaml.coreTag "str"), .plain, "5"⟩

theorem isFlat_signedZero : Yaml.IsFlat signedZero [("workers", signedNode)] := by
  apply @Yaml.IsFlat.mapping _ none [⟨plainScalar "workers", signedNode⟩]
  exact Yaml.ofText_of_runWithin 20 (by decide) (by decide +kernel)

theorem isFlat_taggedText : Yaml.IsFlat taggedText [("workers", taggedNode)] := by
  apply @Yaml.IsFlat.mapping _ none [⟨plainScalar "workers", taggedNode⟩]
  exact Yaml.ofText_of_runWithin 20 (by decide) (by decide +kernel)

def spellingDisk : Disk :=
  FileTree.disk (.directory [("s3sync.yaml", .file (Text.utf8 signedZero)),
    ("s3sync.yml", .file (Text.utf8 taggedText))]) []

/-- A value may be in the range of its field and be refused, or be of another type by its tag and be
accepted, since its spelling decides. -/
theorem count_goes_by_spelling :
    (Yaml.IsFlat signedZero [("workers", signedNode)] ∧ Yaml.IsInteger "-0".toList 0 ∧
      countOf? 0 = some 0 ∧
      load spellingDisk "s3sync.yaml" = .error ⟨"s3sync.yaml", .wrongType (.integer 0) .count⟩) ∧
    Yaml.IsFlat taggedText [("workers", taggedNode)] ∧
      load spellingDisk "s3sync.yml" = .ok (Options.default.set (.count .workers 5)) := by
  refine ⟨⟨isFlat_signedZero, Yaml.integer?_eq_some_iff.1 (by decide), by decide, ?_⟩,
    isFlat_taggedText, ?_⟩
  · have hblames : Yaml.Blames (.count .workers) signedNode (.wrongType (.integer 0) .count) := by
      refine .count fun n _ hn => ?_
      have hnone : Yaml.nonnegative? "-0".toList = none := by decide
      exact absurd ((Yaml.nonnegative?_eq_some_iff.2 hn).symm.trans hnone) (by simp)
    have hcontent : contentOf spellingDisk "s3sync.yaml" = .ok signedZero := contentOf_of_utf8 rfl
    refine ((loadsAs_of_isFlat_yaml hcontent (by decide) isFlat_signedZero).refused _).2 ⟨rfl, ?_⟩
    exact ⟨[], _, [], rfl, ⟨[], .nil, .nil⟩, .value (by decide) hblames⟩
  · have hgives : Yaml.Gives taggedNode (.count .workers 5) :=
      .count (.inl rfl) (Yaml.nonnegative?_eq_some_iff.1 (by decide))
    have hcontent : contentOf spellingDisk "s3sync.yml" = .ok taggedText := contentOf_of_utf8 rfl
    refine ((loadsAs_of_isFlat_yaml hcontent (by decide) isFlat_taggedText).accepted _).2
      ⟨[.count .workers 5], ?_, rfl⟩
    exact ⟨.cons ⟨rfl, hgives⟩ .nil, List.nodup_singleton _⟩

end ConfigFile

end SyncPlan
