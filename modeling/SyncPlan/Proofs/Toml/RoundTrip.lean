import SyncPlan.Proofs.Loading
import SyncPlan.Proofs.Toml.Pairs

/-!
Options that are written as a TOML document and loaded again. The settings of distinct fields, one
on each line and in any order, are the options that a file with these lines gives; every other
option is the usual one. So all settings of any options give these options back.
-/

namespace SyncPlan

namespace Toml
open Text

variable {capital : Bool}

theorem accepts_rows {settings : List Setting} (h : (settings.map Setting.field).Nodup) :
    Accepts Gives ((settings.map (row capital)).map Row.pair) settings := by
  refine ⟨?_, h⟩
  rw [List.map_map, List.forall₂_map_left_iff, List.forall₂_same]
  exact fun s _ => ⟨String.ofList_toList, rfl⟩

theorem ofToml_document {settings : List Setting} (h : (settings.map Setting.field).Nodup) :
    Options.ofToml (document capital settings) = .ok (Options.default.setAll settings) := by
  have haccepts := @accepts_rows capital settings h
  have hkeys : (((settings.map (row capital)).map Row.pair).map Prod.fst).Nodup := by
    rw [haccepts.keys]
    exact h.map fun _ _ => key_injective
  rw [document_eq_rows, ofToml_of_isFlat (isFlat_rows hkeys)]
  exact ((settle_iff decides_take _ _).1 _).2 ⟨settings, haccepts, rfl⟩

theorem load_written {disk : Disk} {path : String} {settings : List Setting}
    (hpath : ∀ e, (Path.ofText path).extension? = some e → e ≠ "yaml" ∧ e ≠ "yml")
    (hnodup : (settings.map Setting.field).Nodup)
    (hread : disk.read path = .ok (utf8 (document capital settings))) :
    ConfigFile.load disk path = .ok (Options.default.setAll settings) := by
  apply ConfigFile.load_of_utf8 hread
  rw [ConfigFile.optionsOf_of_not_isYaml hpath]
  exact ofToml_document hnodup

/-- A file with one line for each of some settings gives exactly these settings, and the usual ones
of all other fields. In particular the settings of any options give these options. -/
theorem load_document {disk : Disk} {path : String}
    (hpath : ∀ e, (Path.ofText path).extension? = some e → e ≠ "yaml" ∧ e ≠ "yml")
    (capital : Bool) :
    (∀ settings : List Setting, (settings.map Setting.field).Nodup →
      disk.read path = .ok (utf8 (document capital settings)) →
        ∃ o, ConfigFile.load disk path = .ok o ∧ (∀ s ∈ settings, o.setting s.field = s) ∧
          ∀ f, f ∉ settings.map Setting.field → o.setting f = Options.default.setting f) ∧
    ∀ o : Options, disk.read path = .ok (utf8 (document capital o.settings)) →
      ConfigFile.load disk path = .ok o := by
  constructor
  · intro settings hnodup hread
    refine ⟨_, load_written hpath hnodup hread, ?_, ?_⟩
    · exact fun s hs => Options.setting_setAll_of_mem _ hnodup hs
    · exact fun f hf => Options.setting_setAll_of_notMem _ hf
  · intro o hread
    rw [load_written hpath o.nodup_settings hread, Options.setAll_settings]

/-- Settings with escapes, limits of numbers, a leading zero and an empty list. -/
def mixedSettings : List Setting := [
  .text .fileMode "0644", .number .modifiedAfter (-9223372036854775808), .switch .debug true,
  .list .extensions ["\\.jpe?g", "\"ä\""], .count .workers 4294967295, .text .target "a\nb 😀",
  .list .contentTypes []]

/-- A disk with these settings in a file. -/
def mixedDisk : Disk :=
  FileTree.disk (.directory [("s3sync.toml", .file (utf8 (document false mixedSettings)))]) []

theorem load_mixedSettings : ∃ o, ConfigFile.load mixedDisk "s3sync.toml" = .ok o ∧
    (∀ s ∈ mixedSettings, o.setting s.field = s) ∧
    ∀ f, f ∉ mixedSettings.map Setting.field → o.setting f = Options.default.setting f := by
  have hextension : (Path.ofText "s3sync.toml").extension? = some "toml" := by decide
  have hpath : ∀ e, (Path.ofText "s3sync.toml").extension? = some e → e ≠ "yaml" ∧ e ≠ "yml" := by
    intro e he
    obtain rfl : "toml" = e := Option.some.inj (hextension.symm.trans he)
    decide
  have hread : mixedDisk.read "s3sync.toml" = .ok (utf8 (document false mixedSettings)) := rfl
  exact (load_document hpath false).1 mixedSettings (by decide) hread

end Toml

end SyncPlan
