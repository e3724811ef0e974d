import SyncPlan.Proofs.Discovery
import SyncPlan.Proofs.Lineage

/-!
The nearest config file. The search takes it from the first directory on the way up that holds one,
under the first of the names that is a file there, and ends before that at a directory with the mark
of a repository. What a name leads to stands in the entries of the directory.
-/

namespace SyncPlan.FileTree
open SyncPlan.Path

/-- The entries of the directory that a path leads to, the empty path to the working directory. -/
def listing? (t : FileTree) (workingDirectory : List String) (path : String) :
    Option (List (String × FileTree)) :=
  match t.find workingDirectory (if path.isEmpty then "." else path) with
  | .ok (.directory entries) => some entries
  | _ => none

/-- What a directory holds under a name. -/
def entry? (t : FileTree) (workingDirectory : List String) (directory name : String) :
    Option FileTree :=
  (t.listing? workingDirectory directory).bind (List.lookup name)

section Follow

variable {t : FileTree} {place : List String}

theorem follow_nil_eq_ok_iff {u : FileTree} : t.follow place [] = .ok u ↔ t.at? place = some u := by
  rw [follow]
  split <;> simp_all

theorem directory_of_follow {pieces : List String} {entries : List (String × FileTree)}
    (h : t.follow place pieces = .ok (directory entries)) :
    ∃ es, t.at? place = some (directory es) := by
  cases pieces with
  | nil => exact ⟨entries, follow_nil_eq_ok_iff.1 h⟩
  | cons piece pieces =>
      rw [follow] at h
      split at h
      · simp at h
      · exact ⟨_, ‹_›⟩
      · simp at h

/-- Idle pieces do not matter on the way to a directory. -/
theorem follow_filter_eq_ok_directory_iff (pieces : List String)
    {entries : List (String × FileTree)} :
    t.follow place (pieces.filter (!isIdle ·)) = .ok (directory entries) ↔
      t.follow place pieces = .ok (directory entries) := by
  induction pieces generalizing place with
  | nil => rfl
  | cons piece pieces ih =>
      by_cases hdir : ∃ es, t.at? place = some (directory es)
      · obtain ⟨es, hes⟩ := hdir
        rw [follow_of_directory hes, ← ih]
        cases hi : isIdle piece with
        | true => simp [hi, move_of_isIdle hi]
        | false => simp [hi, follow_of_directory hes]
      · exact iff_of_false (fun h => hdir (directory_of_follow h))
          fun h => hdir (directory_of_follow h)

theorem follow_concat_eq_ok_iff {steps : List String} {name : String} (hn : IsName name)
    {u : FileTree} :
    t.follow place (steps ++ [name]) = .ok u ↔
      ∃ entries, t.follow place steps = .ok (directory entries) ∧ entries.lookup name = some u := by
  induction steps generalizing place with
  | nil =>
      rw [List.nil_append]
      cases hp : t.at? place with
      | none => simp [follow, hp]
      | some v =>
          cases v with
          | file _ | closedFile _ => simp [follow, hp]
          | directory entries =>
              have hname : t.at? (place ++ [name]) = entries.lookup name := by
                rw [at?_append, hp]
                simp [at?, FileTree.entries]
              rw [follow_of_directory hp, move_of_isName hn.1 hn.2.1, follow_nil_eq_ok_iff, hname]
              simp [follow_nil_eq_ok_iff, hp]
  | cons piece steps ih =>
      rw [List.cons_append, follow, follow]
      cases hp : t.at? place with
      | none => simp
      | some v =>
          cases v with
          | file _ | closedFile _ => simp
          | directory entries => exact ih

end Follow

variable {t : FileTree} {workingDirectory : List String} {path directory name : String}

theorem listing?_eq_some_iff {entries : List (String × FileTree)} :
    t.listing? workingDirectory path = some entries ↔
      '\x00' ∉ path.toList ∧ t.follow (base workingDirectory path) (ofText path).steps =
        .ok (.directory entries) := by
  have hfound : t.listing? workingDirectory path = some entries ↔
      t.find workingDirectory (if path.isEmpty then "." else path) = .ok (.directory entries) := by
    rw [listing?]
    split <;> simp_all
  rw [hfound, steps, follow_filter_eq_ok_directory_iff]
  by_cases he : path = ""
  · subst he
    have hidle : t.follow workingDirectory [""] = .ok (.directory entries) ↔
        t.follow workingDirectory [] = .ok (.directory entries) :=
      (follow_filter_eq_ok_directory_iff [""]).symm
    exact hidle.symm.trans (and_iff_right (by simp)).symm
  · simp only [find, base, String.isEmpty_iff, he, if_false, List.contains_iff_mem]
    split
    · simp_all
    · simp_all

/-- A name joined to a directory leads to what the directory holds under it. -/
theorem find_join_eq_ok_iff (hn : IsName name) {u : FileTree} :
    t.find workingDirectory (join directory name) = .ok u ↔
      t.entry? workingDirectory directory name = some u := by
  rw [find_join _ _ _ hn, entry?, Option.bind_eq_some_iff]
  simp only [listing?_eq_some_iff, and_assoc, exists_and_left, ← follow_concat_eq_ok_iff hn]
  split <;> simp_all

end SyncPlan.FileTree

namespace SyncPlan.ConfigFile
open SyncPlan.Path FileTree

/-- A directory holds a file under a name. -/
def HasFile (t : FileTree) (workingDirectory : List String) (directory name : String) : Prop :=
  ∃ u ∈ t.entry? workingDirectory directory name, u.isFile = true

instance (t : FileTree) (workingDirectory : List String) (directory name : String) :
    Decidable (HasFile t workingDirectory directory name) :=
  inferInstanceAs (Decidable (∃ u ∈ t.entry? workingDirectory directory name, u.isFile = true))

/-- The name of the config file in a directory: the first of the names that is a file there. -/
structure IsFirst (t : FileTree) (workingDirectory : List String) (directory name : String) :
    Prop where
  hasFile : HasFile t workingDirectory directory name
  before : ∃ front rest, names = front ++ name :: rest ∧
    ∀ earlier ∈ front, ¬HasFile t workingDirectory directory earlier

/-- A directory that the search goes past: it has no config file and is no root of a repository. -/
structure IsPassed (t : FileTree) (workingDirectory : List String) (directory : String) :
    Prop where
  noFile : ∀ name ∈ names, ¬HasFile t workingDirectory directory name
  noBoundary : t.entry? workingDirectory directory boundary = none

/-- The config file of a directory on the way up, where the search goes past all the nearer ones. -/
structure IsNearest (t : FileTree) (workingDirectory : List String) (start : String) (i : Nat)
    (directory name : String) : Prop where
  ancestor : directory ∈ ancestor? start i
  first : IsFirst t workingDirectory directory name
  passed : ∀ j < i, ∀ nearer ∈ ancestor? start j, IsPassed t workingDirectory nearer

section Search

variable {disk disk' : Disk} {directories : List String}

theorem search_eq_some_iff {path : String} :
    search disk directories = some path ↔
      ∃ (i : Nat) (directory name : String), directory ∈ directories[i]? ∧
        visit (within disk directory) = some (some name) ∧
        (∀ j < i, ∀ nearer ∈ directories[j]?, visit (within disk nearer) = none) ∧
        path = join directory name := by
  -- a directory that is passed moves every index by one, and any other is itself the answer
  induction directories with
  | nil => simp [search]
  | cons first directories ih =>
      rw [search_cons]
      cases hv : visit (within disk first) with
      | none =>
          refine ih.trans ⟨?_, ?_⟩
          · rintro ⟨i, directory, name, hd, hvisit, hpassed, rfl⟩
            refine ⟨i + 1, directory, name, by simpa using hd, hvisit, fun j hj => ?_, rfl⟩
            cases j with
            | zero => simpa using hv
            | succ j => simpa using hpassed j (by omega)
          · rintro ⟨i, directory, name, hd, hvisit, hpassed, rfl⟩
            cases i with
            | zero =>
                obtain rfl : first = directory := by simpa using hd
                simp [hv] at hvisit
            | succ i =>
                exact ⟨i, directory, name, by simpa using hd, hvisit,
                  fun j hj => by simpa using hpassed (j + 1) (by omega), rfl⟩
      | some result =>
          constructor
          · intro h
            obtain ⟨name, rfl, rfl⟩ := Option.map_eq_some_iff.1 h
            exact ⟨0, first, name, by simp, hv, by simp, rfl⟩
          · rintro ⟨i, directory, name, hd, hvisit, hpassed, rfl⟩
            cases i with
            | zero =>
                obtain rfl : first = directory := by simpa using hd
                obtain rfl : result = some name := by simpa [hv] using hvisit
                rfl
            | succ i =>
                have hfirst := hpassed 0 (by omega) first (by simp)
                simp [hv] at hfirst

/-- The search depends on what the directories say up to the first one where it ends. -/
theorem search_congr
    (h : ∀ i : Nat, ∀ directory ∈ directories[i]?,
      (∀ j < i, ∀ nearer ∈ directories[j]?, visit (within disk nearer) = none) →
        visit (within disk directory) = visit (within disk' directory)) :
    search disk directories = search disk' directories := by
  induction directories with
  | nil => rfl
  | cons first directories ih =>
      rw [search_cons, search_cons, ← h 0 first (by simp) (by simp)]
      cases hv : visit (within disk first) with
      | some result => rfl
      | none =>
          refine ih fun i directory hd hpassed => ?_
          refine h (i + 1) directory (by simpa using hd) fun j hj => ?_
          cases j with
          | zero => simpa using hv
          | succ j => simpa using hpassed j (by omega)

end Search

section Visit

variable {t : FileTree} {workingDirectory : List String} {directory name : String}

theorem isFile_within_iff (hm : name ∈ names) :
    (within (t.disk workingDirectory) directory).isFile name = true ↔
      HasFile t workingDirectory directory name := by
  simp only [HasFile, Option.mem_def, ← find_join_eq_ok_iff (isName_of_mem_names hm), Disk.isFile,
    within, FileTree.disk]
  cases t.find workingDirectory (join directory name) with
  | error fault => simp [Except.map]
  | ok u => cases u <;> simp [Except.map, found, FileTree.isFile]

theorem exists?_within_iff :
    (within (t.disk workingDirectory) directory).exists? boundary = true ↔
      t.entry? workingDirectory directory boundary ≠ none := by
  rw [Option.ne_none_iff_exists']
  simp only [← find_join_eq_ok_iff isName_boundary, Disk.exists?, within, FileTree.disk]
  cases t.find workingDirectory (join directory boundary) with
  | error fault => simp [Except.map, Except.isOk, Except.toBool]
  | ok u => simp [Except.map, Except.isOk, Except.toBool]

theorem visit_eq_name_iff :
    visit (within (t.disk workingDirectory) directory) = some (some name) ↔
      IsFirst t workingDirectory directory name := by
  have hfile : ∀ earlier ∈ names,
      ((!(within (t.disk workingDirectory) directory).isFile earlier) = true ↔
        ¬HasFile t workingDirectory directory earlier) := fun earlier hm => by
    rw [← isFile_within_iff hm, Bool.not_eq_true', Bool.not_eq_true]
  rw [visit_eq_some_some_iff, List.find?_eq_some_iff_append]
  constructor
  · rintro ⟨hlook, front, rest, hnames, hbefore⟩
    refine ⟨(isFile_within_iff (by simp [hnames])).1 hlook, front, rest, hnames, ?_⟩
    exact fun earlier hm => (hfile earlier (by simp [hnames, hm])).1 (hbefore earlier hm)
  · rintro ⟨hhas, front, rest, hnames, hbefore⟩
    refine ⟨(isFile_within_iff (by simp [hnames])).2 hhas, front, rest, hnames, ?_⟩
    exact fun earlier hm => (hfile earlier (by simp [hnames, hm])).2 (hbefore earlier hm)

theorem visit_eq_none_iff :
    visit (within (t.disk workingDirectory) directory) = none ↔
      IsPassed t workingDirectory directory := by
  rw [visit_eq_none_iff_find?, List.find?_eq_none, exists?_within_iff, not_not]
  constructor
  · intro h
    exact ⟨fun name hm => (isFile_within_iff hm).not.1 (h.1 name hm), h.2⟩
  · intro h
    exact ⟨fun name hm => (isFile_within_iff hm).not.2 (h.noFile name hm), h.noBoundary⟩

end Visit

/-- Discovery finds the nearest config file of the finite chain of parents and nothing else. It
depends only on which names are files, and on the mark of a repository, in the directories up to
the first that is not passed. -/
theorem detect_nearest (t : FileTree) (workingDirectory : List String) (start : String) :
    (∃ length, ∀ i, ancestor? start i = none ↔ length ≤ i) ∧
    (∀ path, detect (t.disk workingDirectory) start = some path ↔
      ∃ i directory name, IsNearest t workingDirectory start i directory name ∧
        path = join directory name) ∧
    ∀ t' workingDirectory',
      (∀ i, ∀ directory ∈ ancestor? start i,
        (∀ j < i, ∀ nearer ∈ ancestor? start j, IsPassed t workingDirectory nearer) →
          (∀ name ∈ names, HasFile t workingDirectory directory name ↔
            HasFile t' workingDirectory' directory name) ∧
          (t.entry? workingDirectory directory boundary = none ↔
            t'.entry? workingDirectory' directory boundary = none)) →
      detect (t'.disk workingDirectory') start = detect (t.disk workingDirectory) start := by
  refine ⟨⟨_, fun i => ancestor?_eq_none_iff⟩, fun path => ?_, fun t' workingDirectory' h => ?_⟩
  · rw [detect, search_eq_some_iff]
    simp only [getElem?_places, visit_eq_name_iff, visit_eq_none_iff]
    constructor
    · rintro ⟨i, directory, name, hancestor, hfirst, hpassed, rfl⟩
      exact ⟨i, directory, name, ⟨hancestor, hfirst, hpassed⟩, rfl⟩
    · rintro ⟨i, directory, name, ⟨hancestor, hfirst, hpassed⟩, rfl⟩
      exact ⟨i, directory, name, hancestor, hfirst, hpassed, rfl⟩
  · refine (search_congr fun i directory hd hpassed => ?_).symm
    simp only [getElem?_places, visit_eq_none_iff] at hd hpassed
    obtain ⟨hfile, hboundary⟩ := h i directory hd hpassed
    refine visit_congr_of_isFile (fun name hm => ?_) ?_
    · rw [Bool.eq_iff_iff, isFile_within_iff hm, hfile name hm, isFile_within_iff hm]
    · rw [Bool.eq_iff_iff, exists?_within_iff, exists?_within_iff, ne_eq, ne_eq, hboundary]

/-- A repository with a config file beside its mark, and another config file above it. -/
def repositoryFiles : FileTree :=
  .directory [("s3sync.toml", .file []),
    ("repo", .directory [(".git", .file []), ("s3sync.toml", .directory []),
      ("s3sync.yml", .file []), ("src", .directory [])])]

/-- The same repository without anything above it. -/
def repositoryAlone : FileTree :=
  .directory [("repo", .directory [(".git", .file []), ("s3sync.toml", .directory []),
    ("s3sync.yml", .file []), ("src", .directory [])])]

theorem isNearest_repositoryFiles :
    IsNearest repositoryFiles [] "/repo/src/." 1 "/repo" "s3sync.yml" := by
  refine ⟨by decide +kernel, ⟨by decide +kernel, ?_⟩, ?_⟩
  · exact ⟨["s3sync.toml", "s3sync.yaml"], [], rfl, by decide +kernel⟩
  · intro j hj nearer hm
    obtain rfl : j = 0 := by omega
    obtain rfl : "/repo/src/." = nearer := Option.mem_some.1 hm
    exact ⟨by decide +kernel, by decide +kernel⟩

theorem detect_repositoryFiles :
    detect (repositoryFiles.disk []) "/repo/src/." = some "/repo/s3sync.yml" ∧
      detect (repositoryAlone.disk []) "/repo/src/." = some "/repo/s3sync.yml" := by
  obtain ⟨-, hfound, hlocal⟩ := detect_nearest repositoryFiles [] "/repo/src/."
  have hnearest : detect (repositoryFiles.disk []) "/repo/src/." = some "/repo/s3sync.yml" :=
    (hfound _).2 ⟨1, "/repo", "s3sync.yml", isNearest_repositoryFiles, by decide +kernel⟩
  refine ⟨hnearest, (hlocal repositoryAlone [] ?_).trans hnearest⟩
  intro i directory hm hpassed
  match i with
  | 0 =>
      obtain rfl : "/repo/src/." = directory := Option.mem_some.1 hm
      exact ⟨by decide +kernel, by decide +kernel⟩
  | 1 =>
      have hparent : ancestor? "/repo/src/." 1 = some "/repo" := by decide +kernel
      obtain rfl : "/repo" = directory := Option.mem_some.1 (hparent ▸ hm)
      exact ⟨by decide +kernel, by decide +kernel⟩
  | i + 2 =>
      have hrepo := hpassed 1 (by omega) "/repo" (by decide +kernel)
      exact absurd (by decide +kernel) (hrepo.noFile "s3sync.yml" (by decide))

end SyncPlan.ConfigFile
