import SyncPlan.Proofs.Discovery

/-!
Discovery from a relative path and from the same path behind the working directory. Both see the
same directories from the start up to the working directory; only the second goes on above it. So
the two find the same file where there is one to find in or below the working directory, and the
relative search finds nothing else.
-/

namespace SyncPlan.ConfigFile
open SyncPlan.Path FileTree

/-- The text of a working directory: absolute, without ways up, and with a directory behind it. -/
structure IsHome (t : FileTree) (home : String) : Prop where
  anchor : (ofText home).anchor = .root
  up : ".." ∉ (ofText home).steps
  nul : '\x00' ∉ home.toList
  directory : ∃ entries, t.at? (ofText home).steps = some (.directory entries)

section Home

variable {t : FileTree} {home : String} (hh : IsHome t home)
include hh

theorem IsHome.isName {name : String} (hm : name ∈ (ofText home).steps) : IsName name := by
  have hp := hm
  rw [steps_ofText, List.mem_filter] at hp
  refine ⟨by simpa using hp.2, ?_, slash_notMem_of_mem_piecesOf hp.1, ?_⟩
  · intro hup
    exact hh.up (hup ▸ hm)
  · intro hn
    exact hh.nul ((nul_mem_iff_exists_step home).2 ⟨name, hm, hn⟩)

theorem IsHome.lookAt_append (steps : List String) :
    lookAt t [] ((ofText home).steps ++ steps) = lookAt t (ofText home).steps steps := by
  obtain ⟨entries, hdir⟩ := hh.directory
  funext name
  have hnul : (∃ step ∈ (ofText home).steps ++ steps, '\x00' ∈ step.toList) ↔
      ∃ step ∈ steps, '\x00' ∈ step.toList := by
    constructor
    · intro h
      obtain ⟨step, hm, hs⟩ := h
      cases List.mem_append.1 hm with
      | inl hm => exact absurd hs (hh.isName hm).2.2.2
      | inr hm => exact ⟨step, hm, hs⟩
    · intro h
      obtain ⟨step, hm, hs⟩ := h
      exact ⟨step, List.mem_append_right _ hm, hs⟩
  have hfollow : t.follow [] ((ofText home).steps ++ (steps ++ [name])) =
      t.follow (ofText home).steps (steps ++ [name]) :=
    follow_append_names hdir (fun _ => hh.isName) _
  rw [lookAt, lookAt, List.append_assoc, hfollow]
  simp only [hnul]

theorem IsHome.walk_map_append (directories : List (List String)) :
    walk t [] (directories.map ((ofText home).steps ++ ·)) =
      (walk t (ofText home).steps directories).map fun result =>
        result.map ((ofText home).steps ++ ·) := by
  rw [walk, walk, List.findSome?_map, List.map_findSome?]
  congr 1
  funext steps
  rw [Function.comp_apply, Function.comp_apply, hh.lookAt_append]
  simp [Option.map_map, Function.comp_def]

/-- The walk from a start behind the working directory goes on above it. -/
theorem IsHome.walk_climb_append (steps : List String) :
    walk t [] (climb ((ofText home).steps ++ steps)) =
      ((walk t (ofText home).steps (climb steps)).map fun result =>
        result.map ((ofText home).steps ++ ·)).or
          (walk t [] (climb (ofText home).steps).tail) := by
  rw [climb_append, walk_append, hh.walk_map_append]

end Home

theorem mem_of_walk {t : FileTree} {place steps : List String} {directories : List (List String)}
    (h : walk t place directories = some (some steps)) :
    ∃ directory ∈ directories, ∃ name, steps = directory ++ [name] := by
  obtain ⟨directory, hm, hv⟩ := List.exists_of_findSome?_eq_some h
  obtain ⟨result, -, hr⟩ := Option.map_eq_some_iff.1 hv
  obtain ⟨name, -, rfl⟩ := Option.map_eq_some_iff.1 hr
  exact ⟨directory, hm, name, rfl⟩

theorem length_lt_of_mem_tail_climb {steps front : List String} (h : front ∈ (climb steps).tail) :
    front.length < steps.length := by
  induction steps using List.reverseRecOn with
  | nil => simp at h
  | append_singleton steps last ih =>
      rw [climb_concat, List.tail_cons] at h
      have hinit : front <+: steps := by simpa [climb] using h
      have := hinit.length_le
      simp only [List.length_append, List.length_singleton]
      omega

theorem IsHome.not_initial_of_walk_tail {t : FileTree} {home : String} (hh : IsHome t home)
    {steps : List String} {u : FileTree}
    (hw : walk t [] (climb (ofText home).steps).tail = some (some steps))
    (hat : t.at? steps = some u) (hfile : u.isFile = true) : ¬(ofText home).steps <+: steps := by
  intro hinit
  obtain ⟨directory, hm, name, rfl⟩ := mem_of_walk hw
  have hlen := length_lt_of_mem_tail_climb hm
  have heq : (ofText home).steps = directory ++ [name] := hinit.eq_of_length_le (by simp; omega)
  obtain ⟨entries, hdir⟩ := hh.directory
  rw [heq, hat, Option.some.injEq] at hdir
  simp [hdir, FileTree.isFile] at hfile

theorem map_locate_detect_relative (t : FileTree) (workingDirectory : List String)
    {start : String} (hrel : (ofText start).anchor ≠ .root) (hup : ".." ∉ (ofText start).steps) :
    (detect (t.disk workingDirectory) start).map (t.locate workingDirectory) =
      (walk t workingDirectory (climb (ofText start).steps)).join.map
        fun steps => some (workingDirectory ++ steps) := by
  have h := map_locate_detect t workingDirectory hup
  rwa [base, if_neg hrel] at h

theorem IsHome.map_locate_detect_join {t : FileTree} {home start : String} (hh : IsHome t home)
    (hup : ".." ∉ (ofText start).steps) (workingDirectory : List String) :
    (detect (t.disk workingDirectory) (join home start)).map (t.locate workingDirectory) =
      (((walk t (ofText home).steps (climb (ofText start).steps)).map fun result =>
        result.map ((ofText home).steps ++ ·)).or
          (walk t [] (climb (ofText home).steps).tail)).join.map some := by
  have hhome : home ≠ "" := by
    intro hempty
    subst hempty
    exact absurd hh.anchor (by decide)
  have hsteps : (ofText (join home start)).steps = (ofText home).steps ++ (ofText start).steps :=
    steps_join home start
  have h := @map_locate_detect t workingDirectory (join home start)
    (by simp [hsteps, hup, hh.up])
  rwa [base, if_pos ((anchor_join_of_ne_empty hhome start).2 hh.anchor), hsteps,
    hh.walk_climb_append] at h

/-- The search from a relative path finds a file exactly when the search from the same path behind
the working directory finds one in or below that directory, and then both find the same. -/
theorem detect_relative_iff_below {t : FileTree} {home start : String} (hh : IsHome t home)
    (hrel : (ofText start).anchor ≠ .root) (hup : ".." ∉ (ofText start).steps) :
    ((detect (t.disk (ofText home).steps) start).isSome ↔
      ∃ path place, detect (t.disk (ofText home).steps) (join home start) = some path ∧
        t.locate (ofText home).steps path = some place ∧ (ofText home).steps <+: place) ∧
    ∀ path path', detect (t.disk (ofText home).steps) start = some path →
      detect (t.disk (ofText home).steps) (join home start) = some path' →
      ∃ place, t.locate (ofText home).steps path = some place ∧
        t.locate (ofText home).steps path' = some place ∧
        ∃ u ∈ t.at? place, u.isFile = true := by
  have hshort := map_locate_detect_relative t (ofText home).steps hrel hup
  have hlong := hh.map_locate_detect_join hup (ofText home).steps
  -- the walk up to the working directory decides, unless it passes all of its directories
  cases hw : walk t (ofText home).steps (climb (ofText start).steps) with
  | none =>
      rw [hw] at hshort hlong
      have hnone : detect (t.disk (ofText home).steps) start = none := by
        simpa using hshort
      refine ⟨?_, by simp [hnone]⟩
      rw [hnone, Option.isSome_none]
      refine iff_of_false (by simp) ?_
      intro h
      obtain ⟨path, place, hpath, hplace, hinit⟩ := h
      obtain ⟨u, hat, hfile⟩ := file_of_locate_detect hpath hplace
      rw [hpath, Option.map_some, hplace] at hlong
      obtain ⟨steps, hjoin, hsteps⟩ := Option.map_eq_some_iff.1 hlong.symm
      obtain rfl : steps = place := by simpa using hsteps
      exact hh.not_initial_of_walk_tail (Option.join_eq_some_iff.1 hjoin) hat hfile hinit
  | some result =>
      rw [hw] at hshort hlong
      cases result with
      | none => simp_all
      | some steps =>
          obtain ⟨path, hpath, hplace⟩ := Option.map_eq_some_iff.1 hshort
          obtain ⟨path', hpath', hplace'⟩ := Option.map_eq_some_iff.1 hlong
          have hfile := file_of_locate_detect hpath hplace
          refine ⟨⟨fun _ => ⟨path', _, hpath', hplace', List.prefix_append _ _⟩, fun _ => ?_⟩, ?_⟩
          · simp [hpath]
          · intro p p' hp hp'
            rw [hpath, Option.some.injEq] at hp
            rw [hpath', Option.some.injEq] at hp'
            subst hp hp'
            exact ⟨_, hplace, hplace', hfile⟩

/-- A tree with a config file in the directory `a` and another one above it. -/
def nestedFiles : FileTree :=
  .directory [("s3sync.toml", .file []),
    ("a", .directory [("s3sync.yml", .file []), ("b", .directory [])])]

theorem isHome_nestedFiles : IsHome nestedFiles "/a" :=
  ⟨by decide, by decide, by decide, _, rfl⟩

theorem detect_relative_in_nestedFiles :
    IsHome nestedFiles "/a" ∧ (ofText "b/.").anchor ≠ .root ∧ ".." ∉ (ofText "b/.").steps ∧
      ((detect (nestedFiles.disk (ofText "/a").steps) "b/.").isSome ↔
        ∃ path place,
          detect (nestedFiles.disk (ofText "/a").steps) (join "/a" "b/.") = some path ∧
          nestedFiles.locate (ofText "/a").steps path = some place ∧
          (ofText "/a").steps <+: place) :=
  ⟨isHome_nestedFiles, by decide, by decide,
    (detect_relative_iff_below isHome_nestedFiles (by decide) (by decide)).1⟩

/-- From within `b` the file in `a` lies above the working directory and is missed by a relative
start. -/
theorem detect_relative_misses_file_above :
    detect (nestedFiles.disk ["a", "b"]) "." = none ∧
      detect (nestedFiles.disk ["a", "b"]) (join "/a/b" ".") = some "/a/s3sync.yml" := by
  decide +kernel

end SyncPlan.ConfigFile
