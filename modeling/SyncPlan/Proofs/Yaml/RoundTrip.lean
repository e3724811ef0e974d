import SyncPlan.Proofs.Loading
import SyncPlan.Proofs.Toml.RoundTrip
import SyncPlan.Proofs.Yaml.Writing

/-!
Options that are written as a block mapping and loaded again. As in the other format the settings of
distinct fields are what a file with their lines gives, whether a text stands between quotes or as
it is, and so the two formats give the same options where they are written for the same settings.
-/

namespace SyncPlan

namespace Yaml
open Text

theorem accepts_rows {lines : List Line} (h : (lines.map (·.setting.field)).Nodup) :
    Accepts Gives ((lines.map Line.row).map Row.pair) (lines.map Line.setting) := by
  refine ⟨?_, by rwa [List.map_map]⟩
  rw [List.map_map, List.forall₂_map_left_iff, List.forall₂_map_right_iff, List.forall₂_same]
  exact fun l _ => l.gives_row

theorem ofYaml_document (capital : Bool) {lines : List Line}
    (h : (lines.map (·.setting.field)).Nodup) :
    Options.ofYaml (document capital lines) =
      .ok (Options.default.setAll (lines.map Line.setting)) := by
  rw [document_eq_rows, ofYaml_of_isFlat (isFlat_rows capital _)]
  exact ((settle_iff decides_take _ _).1 _).2 ⟨_, accepts_rows h, rfl⟩

/-- A file with one line for each of some settings gives exactly these settings, and the usual ones
of all other fields, whichever texts stand between quotes. A file of the other format with the same
settings gives the same options. -/
theorem load_lines {disk : Disk} {path : String}
    (hpath : (Path.ofText path).extension? = some "yaml" ∨
      (Path.ofText path).extension? = some "yml")
    (capital : Bool) {lines : List Line} (hnodup : (lines.map (·.setting.field)).Nodup)
    (hread : disk.read path = .ok (utf8 (document capital lines))) :
    ∃ o, ConfigFile.load disk path = .ok o ∧ (∀ l ∈ lines, o.setting l.setting.field = l.setting) ∧
      (∀ f, f ∉ lines.map (·.setting.field) → o.setting f = Options.default.setting f) ∧
      ∀ (disk' : Disk) (path' : String) (capital' : Bool),
        (∀ e, (Path.ofText path').extension? = some e → e ≠ "yaml" ∧ e ≠ "yml") →
        disk'.read path' = .ok (utf8 (Toml.document capital' (lines.map Line.setting))) →
          ConfigFile.load disk' path' = .ok o := by
  have hfields : (lines.map Line.setting).map Setting.field = lines.map (·.setting.field) := by
    rw [List.map_map]
    rfl
  have hload : ConfigFile.load disk path =
      .ok (Options.default.setAll (lines.map Line.setting)) := by
    apply ConfigFile.load_of_utf8 hread
    rw [ConfigFile.optionsOf_of_isYaml hpath]
    exact ofYaml_document capital hnodup
  rw [← hfields] at hnodup
  refine ⟨_, hload, ?_, ?_, ?_⟩
  · exact fun l hl => Options.setting_setAll_of_mem _ hnodup (List.mem_map_of_mem hl)
  · rw [← hfields]
    exact fun f hf => Options.setting_setAll_of_notMem _ hf
  · exact fun disk' path' capital' hpath' hread' => Toml.load_written hpath' hnodup hread'

/-- Lines with texts that other readers would take for a number, a boolean or nothing. -/
def bareLines : List Line := [
  ⟨.text .fileMode "0644", false, rfl⟩, ⟨.text .source "true", false, rfl⟩,
  ⟨.text .target "null", false, rfl⟩, ⟨.text .sourceKey "~", false, rfl⟩,
  ⟨.text .bandwidth "1e3", false, rfl⟩, ⟨.text .acl "", true, rfl⟩,
  ⟨.text .sourceSecret ": #\"\\ä😀\n ", true, rfl⟩, ⟨.switch .debug true, false, rfl⟩,
  ⟨.list .extensions ["0644", "", "a, b"], false, rfl⟩, ⟨.list .contentTypes [], false, rfl⟩,
  ⟨.number .modifiedAfter (-9223372036854775808), false, rfl⟩,
  ⟨.count .workers 4294967295, false, rfl⟩]

/-- A disk with these lines in one file and the same settings in a file of the other format. -/
def bareDisk : Disk :=
  FileTree.disk (.directory [("s3sync.yaml", .file (utf8 (document false bareLines))),
    ("s3sync.toml", .file (utf8 (Toml.document true (bareLines.map Line.setting))))]) []

theorem load_bareLines : ∃ o, ConfigFile.load bareDisk "s3sync.yaml" = .ok o ∧
    (∀ l ∈ bareLines, o.setting l.setting.field = l.setting) ∧
    (∀ f, f ∉ bareLines.map (·.setting.field) → o.setting f = Options.default.setting f) ∧
    ConfigFile.load bareDisk "s3sync.toml" = .ok o := by
  have hpath : (Path.ofText "s3sync.yaml").extension? = some "yaml" := by decide
  have hread : bareDisk.read "s3sync.yaml" = .ok (utf8 (document false bareLines)) := rfl
  have hpath' : (Path.ofText "s3sync.toml").extension? = some "toml" := by decide
  have hread' : bareDisk.read "s3sync.toml" =
      .ok (utf8 (Toml.document true (bareLines.map Line.setting))) := rfl
  obtain ⟨o, hload, hset, husual, hother⟩ := load_lines (.inl hpath) false (by decide) hread
  refine ⟨o, hload, hset, husual, hother bareDisk "s3sync.toml" true ?_ hread'⟩
  intro e he
  obtain rfl : "toml" = e := Option.some.inj (hpath'.symm.trans he)
  decide

end Yaml

end SyncPlan
