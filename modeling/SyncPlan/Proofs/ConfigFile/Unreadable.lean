import SyncPlan.ConfigFile.Loading
import SyncPlan.Proofs.Text.Utf8
import SyncPlan.Proofs.Yaml.Pairs

/-!
Where the defects of a config file come from. Only reading the file makes it unreadable; whatever is
wrong with its text is a defect of another kind, in either format. So where a path leads to a file,
that file is unreadable exactly if its octets are no text.
-/

namespace SyncPlan

/-- Whatever is wrong, it is not that a file could not be read. -/
def IsReadable {α : Type} (x : Except Defect α) : Prop :=
  ∀ d, x = .error d → d.className ≠ "io"

section Closure

variable {α β : Type}

theorem isReadable_ok (a : α) : IsReadable (.ok a) := by
  intro d hd
  simp at hd

theorem isReadable_error {d : Defect} (h : d.className ≠ "io") :
    IsReadable (.error d : Except Defect α) := by
  intro d' hd
  exact Except.error.inj hd ▸ h

theorem IsReadable.bind {x : Except Defect α} {f : α → Except Defect β} (hx : IsReadable x)
    (hf : ∀ a, IsReadable (f a)) : IsReadable (x >>= f) := by
  cases x with
  | error d => exact isReadable_error (hx d rfl)
  | ok a => exact hf a

theorem IsReadable.map {x : Except Defect α} (hx : IsReadable x) (f : α → β) :
    IsReadable (x.map f) := by
  cases x with
  | error d => exact isReadable_error (hx d rfl)
  | ok a => exact isReadable_ok (f a)

end Closure

namespace Toml

theorem isReadable_textsOf (items : List Given) : IsReadable (textsOf items) := by
  induction items with
  | nil => exact isReadable_ok []
  | cons g items ih =>
      cases g with
      | text s => exact ih.map (s :: ·)
      | _ => exact isReadable_error (by simp [Defect.className])

theorem isReadable_settingOf (f : Field) (t : Tree) : IsReadable (settingOf f t) := by
  have hinteger (f : Field) (n : Int) (make : Option Setting) :
      IsReadable (integerSetting f n make) := by
    cases make with
    | some s => exact isReadable_ok s
    | none => exact isReadable_error (by simp [Defect.className])
  rw [settingOf.eq_def]
  split
  · exact isReadable_ok _
  · exact hinteger _ _ _
  · exact hinteger _ _ _
  · exact isReadable_ok _
  · split
    · exact (isReadable_textsOf _).map _
    · exact isReadable_error (by simp [Defect.className])
  · exact isReadable_error (by simp [Defect.className])

theorem isReadable_entriesOptions (o : Options) (es : Entries) :
    IsReadable (entriesOptions o es) := by
  induction es generalizing o with
  | nil => exact isReadable_ok o
  | cons e es ih =>
      obtain ⟨key, t⟩ := e
      rw [entriesOptions]
      split
      · exact isReadable_error (by simp [Defect.className])
      · next f _ =>
          split
          · next d hd => exact isReadable_error (isReadable_settingOf f t d hd)
          · exact ih _

theorem isReadable_ofToml (cs : List Char) : IsReadable (Options.ofToml cs) := by
  rw [Options.ofToml]
  cases read cs with
  | none => exact isReadable_error (by simp [Defect.className])
  | some es => exact isReadable_entriesOptions .default es

end Toml

namespace Yaml

variable (document : List Event)

theorem className_nodeDefect (e : Event) (wanted : Wanted) :
    (nodeDefect e wanted).className ≠ "io" := by
  rw [nodeDefect.eq_def]
  split
  · next anchor tag style s =>
      obtain h | h := className_scalarDefect tag style s wanted <;> simp [h]
  all_goals simp [Defect.className]

theorem isReadable_textOf (events : List Event) (wanted : Wanted) :
    IsReadable (textOf document events wanted) := by
  rw [textOf]
  split
  · exact isReadable_ok _
  · exact isReadable_error (className_nodeDefect _ _)
  · exact isReadable_error (by simp [Defect.className])

theorem isReadable_countOf (e : Event) : IsReadable (countOf e) := by
  -- The bound of thirty-two bits is hidden, as a match on it would count down from it.
  obtain ⟨count, hcount⟩ : ∃ count, countOf? = count := ⟨_, rfl⟩
  rw [countOf, hcount]
  split
  · exact isReadable_error (className_nodeDefect _ _)
  · split
    · exact isReadable_ok _
    · exact isReadable_error (by simp [Defect.className])

theorem isReadable_numberOf (e : Event) : IsReadable (numberOf e) := by
  rw [numberOf]
  split
  · exact isReadable_error (className_nodeDefect _ _)
  · exact isReadable_ok _

theorem isReadable_switchOf (e : Event) : IsReadable (switchOf e) := by
  rw [switchOf]
  split
  · exact isReadable_error (className_nodeDefect _ _)
  · exact isReadable_ok _

theorem isReadable_textsFrom (events : List Event) : IsReadable (textsFrom document events) := by
  fun_induction textsFrom document events with
  | case1 => exact isReadable_error (by simp [Defect.className])
  | case2 => exact isReadable_ok _
  | case3 e rest _ ih =>
      apply (isReadable_textOf document _ _).bind
      intro s
      exact ih.bind fun p => isReadable_ok _

theorem isReadable_listOf (events : List Event) : IsReadable (listOf document events) := by
  rw [listOf]
  split
  · exact (isReadable_textsFrom document _).map _
  · split
    · exact isReadable_ok _
    · exact isReadable_error (className_nodeDefect _ _)
  · exact isReadable_error (by simp [Defect.className])

theorem isReadable_settingFrom (f : Field) (events : List Event) :
    IsReadable (settingFrom document f events) := by
  rw [settingFrom.eq_def]
  split
  · exact (isReadable_textsFrom document _).bind fun p => isReadable_ok _
  · dsimp only
    split
    · exact (isReadable_textOf document _ _).bind fun s => isReadable_ok _
    · exact (isReadable_listOf document _).bind fun s => isReadable_ok _
    · exact (isReadable_countOf _).bind fun s => isReadable_ok _
    · exact (isReadable_numberOf _).bind fun s => isReadable_ok _
    · exact (isReadable_switchOf _).bind fun s => isReadable_ok _
    · exact isReadable_error (by simp [Defect.className])

theorem isReadable_entriesFrom (seen : List Field) (o : Options) (events : List Event) :
    IsReadable (entriesFrom document seen o events) := by
  fun_induction entriesFrom document seen o events with
  | case1 => exact isReadable_error (by simp [Defect.className])
  | case2 => exact isReadable_ok _
  | case3 seen o e rest _ ih =>
      apply (isReadable_textOf document _ _).bind
      intro key
      split
      · exact isReadable_error (by simp [Defect.className])
      · next f _ =>
          split
          · exact isReadable_error (by simp [Defect.className])
          · split
            · next d hd => exact isReadable_error (isReadable_settingFrom document f rest d hd)
            · next s rest' hs => exact ih f s rest' hs

theorem isReadable_rootOptions : IsReadable (rootOptions document) := by
  rw [rootOptions.eq_def]
  split
  · exact isReadable_entriesFrom _ _ _ _
  · split
    · exact isReadable_ok _
    · exact isReadable_error (className_nodeDefect _ _)
  · exact isReadable_error (by simp [Defect.className])

theorem isReadable_ofYaml (cs : List Char) : IsReadable (Options.ofYaml cs) := by
  rw [Options.ofYaml]
  split
  · exact isReadable_ok _
  · apply (isReadable_rootOptions _).bind
    intro o
    split
    · exact isReadable_ok o
    · exact isReadable_error (by simp [Defect.className])

end Yaml

namespace ConfigFile
open Text

theorem isReadable_optionsOf (path : String) (cs : List Char) :
    IsReadable (optionsOf path cs) := by
  rw [optionsOf]
  split
  · exact Yaml.isReadable_ofYaml cs
  · exact Toml.isReadable_ofToml cs

section Content

variable {disk : Disk} {path : String} {content : List UInt8}

/-- A failure is that of the path that is loaded. -/
theorem load_eq_error_iff {failure : Failure} : load disk path = .error failure ↔
    failure.path = path ∧ (contentOf disk path >>= optionsOf path) = .error failure.defect := by
  rw [load]
  obtain ⟨path', d⟩ := failure
  cases contentOf disk path >>= optionsOf path with
  | ok o => simp
  | error d' => simp [eq_comm]

theorem contentOf_of_file (h : disk path = .ok (.file content)) {cs : List Char}
    (hcs : utf8 cs = content) : contentOf disk path = .ok cs := by
  have hdecode : decodeUtf8 content = .ok cs := decodeUtf8From_eq_ok_iff.2 hcs.symm
  simp only [contentOf, Disk.read, h, hdecode]

theorem contentOf_of_not_utf8 (h : disk path = .ok (.file content))
    (hcontent : ∀ cs, utf8 cs ≠ content) :
    contentOf disk path = .error (.unreadable .notUtf8) := by
  cases hdecode : decodeUtf8 content with
  | error fault => simp only [contentOf, Disk.read, h, hdecode]
  | ok cs => exact absurd (decodeUtf8From_eq_ok_iff.1 hdecode).symm (hcontent cs)

theorem load_of_not_utf8 (h : disk path = .ok (.file content))
    (hcontent : ∀ cs, utf8 cs ≠ content) :
    load disk path = .error ⟨path, .unreadable .notUtf8⟩ := by
  refine load_eq_error_iff.2 ⟨rfl, ?_⟩
  rw [contentOf_of_not_utf8 h hcontent]
  rfl

/-- Where a path leads to a file, only octets that are no text make it unreadable. -/
theorem className_eq_io_iff (h : disk path = .ok (.file content)) {failure : Failure}
    (hload : load disk path = .error failure) :
    failure.defect.className = "io" ↔ ∀ cs, utf8 cs ≠ content := by
  constructor
  · intro hio cs hcs
    obtain ⟨-, herror⟩ := load_eq_error_iff.1 hload
    rw [contentOf_of_file h hcs] at herror
    exact isReadable_optionsOf path cs _ herror hio
  · intro hcontent
    rw [load_of_not_utf8 h hcontent] at hload
    exact Except.error.inj hload ▸ rfl

end Content

end ConfigFile

end SyncPlan
