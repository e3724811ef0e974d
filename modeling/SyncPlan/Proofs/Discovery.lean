import Mathlib.Data.List.Find
import SyncPlan.Proofs.Ancestry
import SyncPlan.Proofs.Lookup

/-!
The search for a config file as a walk over places. What a directory says to the search depends only
on the place and the steps that lead to it, so a search from a path is a walk down the list of its
steps. A relative start is searched up to the working directory and not above it.
-/

namespace SyncPlan.ConfigFile
open SyncPlan.Path FileTree

/-- The disk seen from within a directory. -/
def within (disk : Disk) (directory : String) : Disk := fun name => disk (join directory name)

/-- What a directory says to the search: the name of a config file, the end, or nothing. -/
def visit (look : Disk) : Option (Option String) :=
  match names.find? look.isFile with
  | some name => some (some name)
  | none => if look.exists? boundary then some none else none

theorem isName_of_mem_names {name : String} (h : name ∈ names) : IsName name := by
  revert name
  decide

theorem isName_boundary : IsName boundary := by decide

theorem visit_congr_of_isFile {look look' : Disk}
    (hfile : ∀ name ∈ names, look.isFile name = look'.isFile name)
    (hend : look.exists? boundary = look'.exists? boundary) : visit look = visit look' := by
  rw [visit, visit, List.find?_congr hfile, hend]

theorem visit_congr {look look' : Disk} (h : ∀ name, IsName name → look name = look' name) :
    visit look = visit look' := by
  refine visit_congr_of_isFile (fun name hm => ?_) ?_
  · simp only [Disk.isFile, h name (isName_of_mem_names hm)]
  · simp only [Disk.exists?, h boundary isName_boundary]

theorem visit_eq_some_some_iff {look : Disk} {name : String} :
    visit look = some (some name) ↔ names.find? look.isFile = some name := by
  rw [visit]
  split
  · next found hf => simp [hf]
  · next hf => split <;> simp [hf]

theorem visit_eq_none_iff_find? {look : Disk} :
    visit look = none ↔ names.find? look.isFile = none ∧ ¬look.exists? boundary = true := by
  rw [visit]
  split
  · next found hf => simp [hf]
  · next hf => split <;> simp_all

theorem isFile_of_visit {look : Disk} {name : String} (h : visit look = some (some name)) :
    name ∈ names ∧ look.isFile name = true := by
  rw [visit_eq_some_some_iff] at h
  exact ⟨List.mem_of_find?_eq_some h, List.find?_some h⟩

theorem search_cons (disk : Disk) (directory : String) (directories : List String) :
    search disk (directory :: directories) =
      match visit (within disk directory) with
      | some result => result.map (join directory)
      | none => search disk directories := by
  have hfind : (names.map (join directory)).find? disk.isFile =
      (names.find? (within disk directory).isFile).map (join directory) :=
    List.find?_map
  rw [search, hfind, visit]
  cases names.find? (within disk directory).isFile with
  | some name => rfl
  | none =>
      have hb : (within disk directory).exists? boundary = disk.exists? (join directory boundary) :=
        rfl
      simp only [Option.map_none, hb]
      split <;> rfl

/-- What the names in a directory lead to, by the place and the steps behind it. -/
def lookAt (t : FileTree) (place steps : List String) : Disk := fun name =>
  if ∃ step ∈ steps, '\x00' ∈ step.toList then .error .nulInPath
  else (t.follow place (steps ++ [name])).map found

theorem within_disk (t : FileTree) (workingDirectory : List String) (directory : String)
    {name : String} (hn : IsName name) :
    within (t.disk workingDirectory) directory name =
      lookAt t (base workingDirectory directory) (ofText directory).steps name := by
  rw [within, FileTree.disk, find_join _ _ _ hn, lookAt]
  by_cases h : '\x00' ∈ directory.toList
  · have hstep := (nul_mem_iff_exists_step directory).1 h
    exact (congrArg (Except.map _) (if_pos h)).trans (if_pos hstep).symm
  · have hstep := mt (nul_mem_iff_exists_step directory).2 h
    exact (congrArg (Except.map _) (if_neg h)).trans (if_neg hstep).symm

/-- The walk over directories given by their steps from a place, to the steps of a config file, to
an end without one, or past all of them. -/
def walk (t : FileTree) (place : List String) (directories : List (List String)) :
    Option (Option (List String)) :=
  directories.findSome? fun steps =>
    (visit (lookAt t place steps)).map fun result => result.map fun name => steps ++ [name]

theorem walk_append (t : FileTree) (place : List String) (front rest : List (List String)) :
    walk t place (front ++ rest) = (walk t place front).or (walk t place rest) :=
  List.findSome?_append

/-- A directory that is visited again says nothing new. -/
theorem walk_concat_of_mem (t : FileTree) (place : List String) {steps : List String}
    {directories : List (List String)} (h : steps ∈ directories) :
    walk t place (directories ++ [steps]) = walk t place directories := by
  rw [walk_append]
  cases hw : walk t place directories with
  | some result => rfl
  | none =>
      have hs := List.findSome?_eq_none_iff.1 hw steps h
      simp [walk, hs]

/-- A file in a directory stands under its name behind the place of the directory. -/
theorem locate_join {t : FileTree} {workingDirectory : List String} {directory name : String}
    (hn : IsName name) (hfile : (within (t.disk workingDirectory) directory).isFile name = true) :
    t.locate workingDirectory (join directory name) =
      some ((ofText directory).steps.foldl move (base workingDirectory directory) ++ [name]) := by
  have hok : (t.find workingDirectory (join directory name)).isOk = true := by
    cases hf : t.find workingDirectory (join directory name) with
    | ok u => rfl
    | error fault => simp [Disk.isFile, within, FileTree.disk, hf, Except.map] at hfile
  have hsteps : (ofText (join directory name)).steps = (ofText directory).steps ++ [name] := by
    rw [steps_join, hn.steps_ofText]
  rw [locate, if_pos hok, foldl_move_pieces, hsteps, List.foldl_append, base_join _ _ hn]
  exact congrArg some (move_of_isName hn.1 hn.2.1)

theorem isFile_of_search {disk : Disk} {directories : List String} {path : String}
    (h : search disk directories = some path) : disk.isFile path = true := by
  induction directories with
  | nil => simp [search] at h
  | cons directory directories ih =>
      rw [search] at h
      split at h
      · next hf =>
          obtain rfl := Option.some.inj h
          exact List.find?_some hf
      · split at h
        · simp at h
        · exact ih h

/-- What the search finds is a file, open or closed, at the place of its path. -/
theorem file_of_locate_detect {t : FileTree} {workingDirectory place : List String}
    {start path : String} (h : detect (t.disk workingDirectory) start = some path)
    (hl : t.locate workingDirectory path = some place) :
    ∃ u ∈ t.at? place, u.isFile = true := by
  obtain ⟨u, hf, hu⟩ := at?_of_locate hl
  have hfile := isFile_of_search h
  refine ⟨u, hu, ?_⟩
  cases u with
  | file _ | closedFile _ => rfl
  | directory entries => simp [Disk.isFile, FileTree.disk, hf, Except.map, found] at hfile

theorem map_locate_search (t : FileTree) (workingDirectory place : List String)
    (directories : List String)
    (hbase : ∀ directory ∈ directories, base workingDirectory directory = place)
    (hup : ∀ directory ∈ directories, ".." ∉ (ofText directory).steps) :
    (search (t.disk workingDirectory) directories).map (t.locate workingDirectory) =
      (walk t place (directories.map fun directory => (ofText directory).steps)).join.map
        fun steps => some (place ++ steps) := by
  induction directories with
  | nil => rfl
  | cons directory directories ih =>
      have ih := ih (fun d hd => hbase d (by simp [hd])) fun d hd => hup d (by simp [hd])
      have hb := hbase directory (by simp)
      have hvisit : visit (within (t.disk workingDirectory) directory) =
          visit (lookAt t place (ofText directory).steps) :=
        visit_congr fun name hn => by rw [within_disk _ _ _ hn, hb]
      rw [search_cons, List.map_cons, walk, List.findSome?_cons, ← hvisit]
      cases hv : visit (within (t.disk workingDirectory) directory) with
      | none => exact ih
      | some result =>
          cases result with
          | none => rfl
          | some name =>
              obtain ⟨hmem, hfile⟩ := isFile_of_visit hv
              have hlocate := locate_join (isName_of_mem_names hmem) hfile
              rw [foldl_move_steps (hup directory (by simp)), hb] at hlocate
              simpa using hlocate

/-- Discovery from a path that never goes up is a walk down the list of its steps. -/
theorem map_locate_detect (t : FileTree) (workingDirectory : List String) {start : String}
    (hup : ".." ∉ (ofText start).steps) :
    (detect (t.disk workingDirectory) start).map (t.locate workingDirectory) =
      (walk t (base workingDirectory start) (climb (ofText start).steps)).join.map
        fun steps => some (base workingDirectory start ++ steps) := by
  have hsteps := steps_places start
  rw [detect, map_locate_search t workingDirectory (base workingDirectory start), hsteps]
  · split
    · rw [walk_concat_of_mem t _ (nil_mem_climb _)]
    · rw [List.append_nil]
  · intro directory hm
    simp only [base, anchor_of_mem_places hm]
  · intro directory hm hd
    exact hup ((steps_prefix_of_mem_places hm).subset hd)

end SyncPlan.ConfigFile
