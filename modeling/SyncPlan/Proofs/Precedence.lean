import SyncPlan.Proofs.CommandLine.Given
import SyncPlan.Run

/-!
The options that a run turns into a plan: what the command line gives comes before what the config
file holds, and that before the usual options. Each option is settled by its own argument and by its
own value in the file alone.
-/

namespace SyncPlan
open CommandLine

/-- Options that are others overridden by the items of a command line, each by those of its own
argument. One value takes the place of another, a switch is only turned on, and the values of a
list take the place of all others. -/
structure Overridden (items : List Item) (base result : Options) : Prop where
  text : ∀ f, given items (.field (.text f)) = [] ∧ result.text f = base.text f ∨
    given items (.field (.text f)) = [result.text f]
  count : ∀ f, given items (.field (.count f)) = [] ∧ result.count f = base.count f ∨
    ∃ v, given items (.field (.count f)) = [v] ∧ DenotesCount v (result.count f)
  number : ∀ f, given items (.field (.number f)) = [] ∧ result.number f = base.number f ∨
    ∃ v, given items (.field (.number f)) = [v] ∧ DenotesNumber v (result.number f)
  switch : ∀ f, result.switch f = true ↔
    .flag (.field (.switch f)) ∈ items ∨ base.switch f = true
  list : ∀ f, given items (.field (.list f)) = [] ∧ result.list f = base.list f ∨
    given items (.field (.list f)) ≠ [] ∧ result.list f = given items (.field (.list f))

theorem IsSetBy.getD {α : Type} {denotes : String → α → Prop} {vs : List String} {x : Option α}
    (h : IsSetBy denotes vs x) (base : α) :
    vs = [] ∧ x.getD base = base ∨ ∃ v, vs = [v] ∧ denotes v (x.getD base) := by
  cases h with
  | inl hnone => exact .inl ⟨hnone.1, by rw [hnone.2, Option.getD_none]⟩
  | inr hsome =>
      obtain ⟨v, a, hv, rfl, ha⟩ := hsome
      exact .inr ⟨v, hv, ha⟩

theorem overridden_overlay {items : List Item} {r : Reading} (h : Says items r) (base : Options) :
    Overridden items base (r.given.overlay base) where
  text f := by
    cases IsSetBy.getD (h.shows (.field (.text f))) (base.text f) with
    | inl hnone => exact .inl hnone
    | inr hsome =>
        obtain ⟨v, hv, heq⟩ := hsome
        exact .inr (hv.trans (congrArg (fun w => [w]) heq))
  count f := IsSetBy.getD (h.shows (.field (.count f))) (base.count f)
  number f := IsSetBy.getD (h.shows (.field (.number f))) (base.number f)
  switch f := by
    have hcount := h.switches f
    rw [← List.count_pos_iff, hcount]
    cases hgiven : r.given.switch f <;> simp [overlay, hgiven]
  list f := by
    have hlist : r.given.list f = given items (.field (.list f)) := h.shows (.field (.list f))
    by_cases hnil : given items (.field (.list f)) = []
    · exact .inl ⟨hnil, by simp [overlay, hlist, hnil]⟩
    · exact .inr ⟨hnil, by simp [overlay, hlist, hnil]⟩

theorem base_of_loadLayered {disk : Disk} {explicit : Option String} {start : String}
    {base : Options} (h : ConfigFile.loadLayered disk explicit start = .ok (base, none)) :
    base = .default := by
  rw [ConfigFile.loadLayered] at h
  split at h
  · exact (congrArg Prod.fst (Except.ok.inj h)).symm
  · obtain ⟨o, -, ho⟩ := map_eq_ok_iff.1 h
    simp at ho

/-- Of the options that a run turns into a plan each one is what its own argument gives, or what
the config file holds where that is not given, or the usual one where there is no file. The items
that the command line is made of say which of these it is. -/
theorem layeredOptions_overridden {arguments : List String} {c : CommandLine}
    (hread : CommandLine.read arguments = .ok c) (disk : Disk) :
    (∃ items, Accounted arguments items) ∧
    ∀ items, Accounted arguments items → ∀ base path,
      ConfigFile.loadLayered disk (given items .config).head?
          ((given items .configDirectory).head?.getD ".") = .ok (base, path) →
        (path = none → base = .default) ∧
          ∃ result, layeredOptions disk c = .ok (result, path) ∧
            Overridden items base result := by
  refine ⟨accounted_of_read hread, ?_⟩
  intro items haccounted base path hbase
  obtain ⟨r, rfl, hall⟩ := says_of_read hread haccounted
  have hconfig : r.given.config = (given items .config).head? :=
    IsSetBy.eq_head? (hall.shows .config)
  have hdirectory : r.given.configDirectory = (given items .configDirectory).head? :=
    IsSetBy.eq_head? (hall.shows .configDirectory)
  rw [← hconfig, ← hdirectory] at hbase
  refine ⟨?_, r.given.overlay base, ?_, overridden_overlay hall base⟩
  · intro hpath
    subst hpath
    exact base_of_loadLayered hbase
  · rw [layeredOptions, searchStart, hbase]
    rfl

/-- A config file that gives the number of workers and a list of extensions. -/
def settingsFile : FileTree :=
  .directory [("s3sync.toml", .file (Text.utf8 "workers = 9\nfilter_ext = ['a']\n".toList))]

theorem accounted_key_and_workers : Accounted ["--sk=", "-dw", "3"]
    [.valued (.field (.text .sourceKey)) "", .flag (.field (.switch .debug)),
      .valued (.field (.count .workers)) "3"] := by
  have hkey : Spells "--sk=".toList [.valued (.field (.text .sourceKey)) ""] none :=
    @Spells.longValue (.field (.text .sourceKey)) "" (by decide) rfl
  have hworkers : Spells "-dw".toList [.flag (.field (.switch .debug))]
      (some (.field (.count .workers))) :=
    .short (List.cons_ne_nil _ _) (.flag rfl rfl (.last rfl rfl))
  have hplain : IsPlain "3" := by
    intro cs hcs
    simp at hcs
  exact .named hkey (.followed hworkers hplain .nil)

theorem overridden_settingsFile :
    ∃ c result, CommandLine.read ["--sk=", "-dw", "3"] = .ok c ∧
      layeredOptions (settingsFile.disk []) c = .ok (result, some "./s3sync.toml") ∧
      result.text .sourceKey = "" ∧ result.switch .debug = true ∧
      DenotesCount "3" (result.count .workers) ∧ result.list .extensions = ["a"] := by
  have hok : (CommandLine.read ["--sk=", "-dw", "3"]).isOk = true := by decide +kernel
  have hfile : (ConfigFile.loadLayered (settingsFile.disk []) none ".").map
      (fun loaded => (loaded.1.list .extensions, loaded.2)) =
        .ok (["a"], some "./s3sync.toml") := by
    decide +kernel
  obtain ⟨⟨base, path⟩, hbase, hvalues⟩ := map_eq_ok_iff.1 hfile
  obtain ⟨hlist, rfl⟩ := Prod.mk.inj hvalues
  cases hread : CommandLine.read ["--sk=", "-dw", "3"] with
  | error fault => simp [hread, Except.isOk, Except.toBool] at hok
  | ok c =>
      obtain ⟨-, result, hresult, h⟩ := (layeredOptions_overridden hread (settingsFile.disk [])).2 _
        accounted_key_and_workers base _ hbase
      refine ⟨c, result, rfl, hresult, ?_, ?_, ?_, ?_⟩
      · cases h.text .sourceKey with
        | inl hno => exact absurd hno.1 (by decide)
        | inr hgiven => exact (List.cons.inj hgiven).1.symm
      · exact (h.switch .debug).2 (.inl (by decide))
      · cases h.count .workers with
        | inl hno => exact absurd hno.1 (by decide)
        | inr hgiven =>
            obtain ⟨v, hv, hdenotes⟩ := hgiven
            obtain rfl : "3" = v := (List.cons.inj hv).1
            exact hdenotes
      · cases h.list .extensions with
        | inl hno => exact hno.2.trans hlist
        | inr hgiven => exact absurd rfl hgiven.1

end SyncPlan
