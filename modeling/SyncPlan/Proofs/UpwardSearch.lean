import SyncPlan.Proofs.NearestFile

/-!
Where the config file lies, seen from the start. The search drops steps from the end of the start,
so the file stands in a directory from which the dropped steps lead to the start. If they never lead
above it, that directory is the one of the start or contains it. A way up among them leads the
search elsewhere: the parent of `a/..` is the child `a`.
-/

namespace SyncPlan.FileTree
open SyncPlan.Path

/-- Steps that never lead above the place where they begin, from some depth below it. -/
def stays : Nat → List String → Bool
  | _, [] => true
  | depth, step :: steps =>
    if step == ".." then
      match depth with
      | 0 => false
      | depth + 1 => stays depth steps
    else stays (depth + 1) steps

theorem prefix_foldl_move {depth : Nat} {steps : List String} (h : stays depth steps = true)
    (hidle : ∀ step ∈ steps, isIdle step = false) (place names : List String)
    (hlength : names.length = depth) : place <+: steps.foldl move (place ++ names) := by
  -- the names are what the steps so far have led below the place, as many as the depth
  induction steps generalizing depth names with
  | nil => exact List.prefix_append place names
  | cons step steps ih =>
      have hstep := hidle step (by simp)
      have hsteps : ∀ s ∈ steps, isIdle s = false := fun s hm => hidle s (by simp [hm])
      rw [List.foldl_cons]
      by_cases hup : step = ".."
      · subst hup
        cases depth with
        | zero => simp [stays] at h
        | succ depth =>
            obtain ⟨names, last, rfl⟩ : ∃ front last, names = front ++ [last] :=
              ⟨_, _, (List.dropLast_append_getLast (List.ne_nil_of_length_eq_add_one hlength)).symm⟩
            have hmove : move (place ++ (names ++ [last])) ".." = place ++ names := by
              simp [move, hstep, ← List.append_assoc]
            rw [hmove]
            exact ih (by simpa [stays] using h) hsteps names (by simpa using hlength)
      · rw [move_of_isName hstep hup, List.append_assoc]
        exact ih (by simpa [stays, hup] using h) hsteps _ (by simp [hlength])

end SyncPlan.FileTree

namespace SyncPlan.ConfigFile
open SyncPlan.Path FileTree

/-- The config file stands in the directory to which a first part of the steps of the start leads,
and the rest of them lead on from there to the start. If the rest never lead above that directory,
then the directory is the one of the start or contains it. -/
theorem detect_upward {t : FileTree} {workingDirectory place : List String} {start path : String}
    (hstart : t.locate workingDirectory start = some place)
    (hfound : detect (t.disk workingDirectory) start = some path) :
    ∃ front rest directory name,
      (ofText start).steps = front ++ rest ∧
      front.foldl move (base workingDirectory start) = directory ∧
      rest.foldl move directory = place ∧
      name ∈ names ∧ t.locate workingDirectory path = some (directory ++ [name]) ∧
      (∃ u ∈ t.at? (directory ++ [name]), u.isFile = true) ∧
      (stays 0 rest = true → directory <+: place) := by
  obtain ⟨i, nearer, name, hnearer, hvisit, -, rfl⟩ := search_eq_some_iff.1 hfound
  have hmem : nearer ∈ places start := List.mem_of_getElem? hnearer
  obtain ⟨rest, hrest⟩ := steps_prefix_of_mem_places hmem
  obtain ⟨hname, hfile⟩ := isFile_of_visit hvisit
  have hbase : base workingDirectory nearer = base workingDirectory start := by
    simp only [base, anchor_of_mem_places hmem]
  have hlocate := locate_join (isName_of_mem_names hname) hfile
  rw [hbase] at hlocate
  have hat := file_of_locate_detect hfound hlocate
  have hplace : rest.foldl move ((ofText nearer).steps.foldl move (base workingDirectory start)) =
      place := by
    rw [← foldl_move_of_locate hstart, ← hrest, List.foldl_append]
  refine ⟨_, rest, _, name, hrest.symm, rfl, hplace, hname, hlocate, hat, fun hstays => ?_⟩
  have hidle : ∀ step ∈ rest, isIdle step = false := fun step hm =>
    isIdle_of_mem_steps (hrest ▸ List.mem_append_right _ hm)
  have hprefix := prefix_foldl_move hstays hidle
    ((ofText nearer).steps.foldl move (base workingDirectory start)) [] rfl
  rwa [List.append_nil, hplace] at hprefix

/-- A tree with a config file in the directory `a` and none above it. -/
def childFiles : FileTree :=
  .directory [("a", .directory [("s3sync.toml", .file []),
    ("b", .directory [("c", .directory [])])])]

/-- The way up at the end of `a/b/c/..` leads no higher than `b`, which `a` contains. -/
theorem detect_upward_in_childFiles :
    childFiles.locate [] "a/b/c/.." = some ["a", "b"] ∧
      detect (childFiles.disk []) "a/b/c/.." = some "a/s3sync.toml" ∧
      ∃ directory name, childFiles.locate [] "a/s3sync.toml" = some (directory ++ [name]) ∧
        directory <+: ["a", "b"] := by
  have hstart : childFiles.locate [] "a/b/c/.." = some ["a", "b"] := by decide +kernel
  have hfound : detect (childFiles.disk []) "a/b/c/.." = some "a/s3sync.toml" := by decide +kernel
  have hfile : childFiles.locate [] "a/s3sync.toml" = some (["a"] ++ ["s3sync.toml"]) := by
    decide +kernel
  obtain ⟨front, rest, directory, name, hsteps, hdirectory, -, -, hlocate, -, hprefix⟩ :=
    detect_upward hstart hfound
  obtain ⟨rfl, -⟩ := List.append_inj' (Option.some.inj (hfile.symm.trans hlocate)) rfl
  -- of the first parts of the start only `a` leads to the directory of the file
  have hsplit : (ofText "a/b/c/..").steps = ["a", "b", "c", ".."] := by decide +kernel
  have hfronts : ∀ steps ∈ ["a", "b", "c", ".."].inits,
      steps.foldl move (base [] "a/b/c/..") = ["a"] → steps = ["a"] := by decide +kernel
  rw [hsplit] at hsteps
  obtain rfl := hfronts front ((List.mem_inits _ _).2 ⟨rest, hsteps.symm⟩) hdirectory
  obtain rfl : ["b", "c", ".."] = rest := (List.cons.inj hsteps).2
  exact ⟨hstart, hfound, _, name, hlocate, hprefix (by decide)⟩

/-- From `a/..` the search goes down into `a`. -/
theorem detect_finds_file_in_child :
    childFiles.locate [] "a/.." = some [] ∧
      (∃ entries, childFiles.at? [] = some (.directory entries)) ∧
      detect (childFiles.disk []) "a/.." = some "a/s3sync.toml" ∧
      childFiles.locate [] "a/s3sync.toml" = some (["a"] ++ ["s3sync.toml"]) ∧ ¬["a"] <+: [] :=
  ⟨by decide +kernel, ⟨_, rfl⟩, by decide +kernel, by decide +kernel, by decide⟩

end SyncPlan.ConfigFile
