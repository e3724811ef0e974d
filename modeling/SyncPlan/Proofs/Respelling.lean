import SyncPlan.Proofs.Components
import SyncPlan.Proofs.NearestFile
import SyncPlan.Proofs.RelativeStart

/-!
Discovery from two spellings of one path. Each step of the search leads both to parents that are
spellings of one path again, and what a directory says to the search does not depend on how it is
spelled, even where the spelling leads through no directory at all. So the search ends in both at
the same step, and the paths that it returns are spellings of one path, which leads to one file.
-/

namespace SyncPlan.ConfigFile
open SyncPlan.Path FileTree

section Components

variable {start start' : String}

theorem map_components_ancestor?_succ (start : String) (i : Nat) :
    (ancestor? start (i + 1)).map (fun directory => (ofText directory).components) =
      ((ancestor? start i).map fun directory => (ofText directory).components).bind ascend? := by
  rw [ancestor?]
  cases ancestor? start i with
  | none => rfl
  | some directory => exact map_components_parentOf? directory

/-- The search goes through the same directories, as far as their components tell. -/
theorem map_components_ancestor?_congr
    (h : (ofText start).components = (ofText start').components) (i : Nat) :
    (ancestor? start i).map (fun directory => (ofText directory).components) =
      (ancestor? start' i).map fun directory => (ofText directory).components := by
  induction i with
  | zero => simpa [ancestor?] using h
  | succ i ih => rw [map_components_ancestor?_succ, map_components_ancestor?_succ, ih]

theorem exists_ancestor?_of_components
    (h : (ofText start).components = (ofText start').components) {i : Nat} {directory : String}
    (hd : directory ∈ ancestor? start i) :
    ∃ directory' ∈ ancestor? start' i,
      (ofText directory).components = (ofText directory').components := by
  have hmap := map_components_ancestor?_congr h i
  rw [Option.mem_def.1 hd, Option.map_some, eq_comm, Option.map_eq_some_iff] at hmap
  obtain ⟨directory', hd', hcomponents⟩ := hmap
  exact ⟨directory', hd', hcomponents.symm⟩

end Components

section Directories

variable {t : FileTree} {workingDirectory : List String} {directory directory' : String}
  (h : (ofText directory).components = (ofText directory').components)
include h

theorem base_congr_of_components :
    base workingDirectory directory = base workingDirectory directory' := by
  rw [base, base, (components_eq_iff.1 h).1]

theorem visit_congr_of_components :
    visit (within (t.disk workingDirectory) directory) =
      visit (within (t.disk workingDirectory) directory') := by
  refine visit_congr fun name hn => ?_
  rw [within_disk _ _ _ hn, within_disk _ _ _ hn, base_congr_of_components h,
    (components_eq_iff.1 h).2]

theorem locate_join_of_components {name : String} (hn : IsName name)
    (hfile : (within (t.disk workingDirectory) directory).isFile name = true)
    (hfile' : (within (t.disk workingDirectory) directory').isFile name = true) :
    ∃ place, t.locate workingDirectory (join directory name) = some place ∧
      t.locate workingDirectory (join directory' name) = some place := by
  have hplace := locate_join hn hfile
  rw [base_congr_of_components h, (components_eq_iff.1 h).2] at hplace
  exact ⟨_, hplace, locate_join hn hfile'⟩

end Directories

variable {t : FileTree} {workingDirectory : List String} {start start' : String}

/-- What is found from one spelling is found from the other at the same step. -/
theorem detect_of_components (h : (ofText start).components = (ofText start').components)
    {path : String} (hfound : detect (t.disk workingDirectory) start = some path) :
    ∃ path', detect (t.disk workingDirectory) start' = some path' ∧
      (ofText path).components = (ofText path').components ∧
      ∃ place, t.locate workingDirectory path = some place ∧
        t.locate workingDirectory path' = some place := by
  obtain ⟨i, directory, name, hd, hvisit, hpassed, rfl⟩ := search_eq_some_iff.1 hfound
  rw [getElem?_places] at hd
  obtain ⟨directory', hd', hcomponents⟩ := exists_ancestor?_of_components h hd
  have hvisit' : visit (within (t.disk workingDirectory) directory') = some (some name) := by
    rw [← visit_congr_of_components hcomponents, hvisit]
  obtain ⟨hmem, hfile⟩ := isFile_of_visit hvisit
  obtain ⟨-, hfile'⟩ := isFile_of_visit hvisit'
  have hn := isName_of_mem_names hmem
  refine ⟨join directory' name, ?_, ?_, locate_join_of_components hcomponents hn hfile hfile'⟩
  · refine search_eq_some_iff.2 ⟨i, directory', name, ?_, hvisit', ?_, rfl⟩
    · rwa [getElem?_places]
    · intro j hj nearer' hm
      rw [getElem?_places] at hm
      obtain ⟨nearer, hnearer, heq⟩ := exists_ancestor?_of_components h.symm hm
      rw [visit_congr_of_components heq]
      exact hpassed j hj nearer (by rwa [getElem?_places])
  · rw [hn.components_join, hn.components_join, hcomponents]

/-- Discovery does not depend on how the start is spelled. From two starts with the same components,
which are spellings of one path, nothing is found or two paths are, with the same components, and
both lead to one place and the file there. Nothing is asked of the start: it may lead through what
is no directory, or nowhere. -/
theorem detect_respelled (t : FileTree) (workingDirectory : List String) (start start' : String) :
    ((ofText start).components = (ofText start').components ↔ Respelled start start') ∧
    ((ofText start).components = (ofText start').components →
      (detect (t.disk workingDirectory) start = none ∧
        detect (t.disk workingDirectory) start' = none) ∨
      ∃ path path' place,
        detect (t.disk workingDirectory) start = some path ∧
        detect (t.disk workingDirectory) start' = some path' ∧
        (ofText path).components = (ofText path').components ∧
        t.locate workingDirectory path = some place ∧
        t.locate workingDirectory path' = some place ∧
        ∃ u ∈ t.at? place, u.isFile = true) := by
  refine ⟨components_eq_iff_respelled, fun h => ?_⟩
  cases hfound : detect (t.disk workingDirectory) start with
  | some path =>
      obtain ⟨path', hfound', hcomponents, place, hplace, hplace'⟩ := detect_of_components h hfound
      have hfile := file_of_locate_detect hfound hplace
      exact .inr ⟨path, path', place, rfl, hfound', hcomponents, hplace, hplace', hfile⟩
  | none =>
      refine .inl ⟨rfl, ?_⟩
      cases hfound' : detect (t.disk workingDirectory) start' with
      | none => rfl
      | some path' =>
          obtain ⟨path, hpath, -⟩ := detect_of_components h.symm hfound'
          simp [hfound] at hpath

/-- Two spellings of a path that goes on behind a file, where there is nothing. -/
theorem detect_respelled_behind_file :
    (ofText ".//a/s3sync.yml/no/").components = (ofText "./a/./s3sync.yml//no/.").components ∧
      ∃ place, nestedFiles.locate [] ".//a/s3sync.yml" = some place ∧
        nestedFiles.locate [] "./a/s3sync.yml" = some place ∧
        ∃ u ∈ nestedFiles.at? place, u.isFile = true := by
  have hcomponents :
      (ofText ".//a/s3sync.yml/no/").components = (ofText "./a/./s3sync.yml//no/.").components := by
    decide +kernel
  have hfound : detect (nestedFiles.disk []) ".//a/s3sync.yml/no/" = some ".//a/s3sync.yml" := by
    decide +kernel
  have hfound' : detect (nestedFiles.disk []) "./a/./s3sync.yml//no/." = some "./a/s3sync.yml" := by
    decide +kernel
  refine ⟨hcomponents, ?_⟩
  obtain ⟨hnone, -⟩ | ⟨path, path', place, hpath, hpath', -, hplace, hplace', hfile⟩ :=
    (detect_respelled nestedFiles [] _ _).2 hcomponents
  · simp [hfound] at hnone
  · obtain rfl := Option.some.inj (hfound.symm.trans hpath)
    obtain rfl := Option.some.inj (hfound'.symm.trans hpath')
    exact ⟨place, hplace, hplace', hfile⟩

end SyncPlan.ConfigFile
