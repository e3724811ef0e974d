import SyncPlan.Proofs.ConfigFile.Unreadable
import SyncPlan.Proofs.RelativeStart

/-!
The one file that options come from. A file that is named is looked at along its own path and
nowhere else, so that neither the start of the search nor anything beside this path matters; one
that is found is used as if it had been named. Where such a file is bad there is a failure, and no
other file and no usual option takes its place. A file that is closed is found like any other.
-/

namespace SyncPlan
open SyncPlan.Path

namespace FileTree

/-- What is seen at a place. -/
def seenAt (t : FileTree) (place : List String) : Option Found := (t.at? place).map found

/-- The places on the way of a path, from the one where it is followed to the one it leads to. -/
def way (workingDirectory : List String) (path : String) : List (List String) :=
  (ofText path).pieces.scanl move (base workingDirectory path)

theorem disk_eq (t : FileTree) (workingDirectory : List String) (path : String) :
    t.disk workingDirectory path = (t.find workingDirectory path).map found := rfl

theorem disk_of_find {t u : FileTree} {workingDirectory : List String} {path : String}
    (h : t.find workingDirectory path = .ok u) : t.disk workingDirectory path = .ok u.found := by
  rw [disk_eq, h]
  rfl

section Frame

variable {t t' : FileTree} {place : List String}

theorem map_found_follow_nil (t : FileTree) (place : List String) :
    (t.follow place []).map found = match t.seenAt place with
      | none => .error .notFound
      | some seen => .ok seen := by
  rw [follow, seenAt]
  cases t.at? place <;> rfl

theorem follow_cons (t : FileTree) (place : List String) (piece : String) (pieces : List String) :
    t.follow place (piece :: pieces) = match t.seenAt place with
      | none => .error .notFound
      | some .directory => t.follow (move place piece) pieces
      | some _ => .error .notDirectory := by
  rw [follow, seenAt]
  cases t.at? place with
  | none => rfl
  | some u => cases u <;> rfl

/-- Where a walk leads depends on what is seen at the places that it passes. -/
theorem follow_congr {pieces : List String}
    (h : ∀ p ∈ pieces.scanl move place, t'.seenAt p = t.seenAt p) :
    (t'.follow place pieces).map found = (t.follow place pieces).map found := by
  induction pieces generalizing place with
  | nil => rw [map_found_follow_nil, map_found_follow_nil, h place (by simp)]
  | cons piece pieces ih =>
      rw [List.scanl_cons] at h
      have hrest := ih fun p hp => h p (List.mem_cons_of_mem _ hp)
      rw [follow_cons, follow_cons, h place List.mem_cons_self]
      split
      · rfl
      · exact hrest
      · rfl

theorem disk_congr {workingDirectory : List String} {path : String}
    (h : ∀ p ∈ way workingDirectory path, t'.seenAt p = t.seenAt p) :
    t'.disk workingDirectory path = t.disk workingDirectory path := by
  rw [disk_eq, disk_eq, find, find]
  split
  · rfl
  · split
    · rfl
    · exact follow_congr h

theorem entries_directory (es : List (String × FileTree)) : (directory es).entries = es := rfl

/-- After the entry of a name has been changed or taken away, all others are there as before. -/
theorem lookup_changed (es : List (String × FileTree)) (name other : String)
    (changed : Option FileTree) :
    (es.filter (·.1 != name) ++ (changed.map fun u => (name, u)).toList).lookup other =
      if other = name then changed else es.lookup other := by
  rw [List.lookup_append, lookup_filter_ne]
  by_cases hother : other = name
  · subst hother
    cases changed <;> simp
  · have hne : (other == name) = false := beq_eq_false_iff_ne.2 hother
    cases changed <;> simp [hother, List.lookup_cons, hne]

/-- A change at a place is seen there and below it only. -/
theorem seenAt_of_alter {f : Option FileTree → Option FileTree} {front : List String}
    {name : String} {es : List (String × FileTree)} (hfront : t.at? front = some (directory es))
    (halter : alter f (front ++ [name]) (some t) = some t') (h : ¬front ++ [name] <+: place) :
    t'.seenAt place = t.seenAt place := by
  -- Along the way to the changed entry; the place may leave this way at any step of it.
  induction front generalizing t t' place with
  | nil =>
      obtain rfl := Option.some.inj hfront
      obtain rfl := Option.some.inj halter
      cases place with
      | nil => rfl
      | cons other place =>
          have hne : other ≠ name := by
            rintro rfl
            exact h (List.prefix_append [other] place)
          simp [seenAt, at?, entries_directory, lookup_changed, hne]
  | cons step front ih =>
      obtain ⟨u, hu, hend⟩ := Option.bind_eq_some_iff.1 hfront
      rw [List.cons_append, alter] at halter
      obtain rfl := Option.some.inj halter
      cases place with
      | nil =>
          cases t with
          | file _ | closedFile _ => simp [entries] at hu
          | directory es => rfl
      | cons other place =>
          by_cases hother : other = step
          · subst hother
            have hsome : alter f (front ++ [name]) (some u) ≠ none := by
              cases front <;> simp [alter]
            obtain ⟨u', hu'⟩ := Option.ne_none_iff_exists'.1 hsome
            have hbelow : ¬front ++ [name] <+: place := fun hprefix =>
              h (List.cons_prefix_cons.2 ⟨rfl, hprefix⟩)
            have hseen : u'.seenAt place = u.seenAt place := ih hend hu' hbelow
            rw [seenAt, seenAt, at?, at?, Option.map_some, Option.getD_some, entries_directory,
              lookup_changed, if_pos rfl, hu, hu']
            exact hseen
          · simp [seenAt, at?, entries_directory, lookup_changed, hother]

end Frame

end FileTree

namespace ConfigFile
open FileTree Text

theorem load_congr {disk disk' : Disk} {path : String} (h : disk' path = disk path) :
    load disk' path = load disk path := by
  simp only [load, contentOf, Disk.read, h]

theorem loadLayered_some (disk : Disk) (path start : String) :
    loadLayered disk (some path) start = (load disk path).map fun o => (o, some path) := rfl

theorem loadLayered_none_of_detect {disk : Disk} {start path : String}
    (h : detect disk start = some path) :
    loadLayered disk none start = (load disk path).map fun o => (o, some path) := by
  rw [loadLayered, Option.none_or, h]

theorem loadLayered_none_eq_default_iff {disk : Disk} {start : String} :
    loadLayered disk none start = .ok (.default, none) ↔ detect disk start = none := by
  constructor
  · intro h
    cases hdetect : detect disk start with
    | none => rfl
    | some path =>
        rw [loadLayered_none_of_detect hdetect] at h
        obtain ⟨o, -, heq⟩ := map_eq_ok_iff.1 h
        simp at heq
  · intro h
    rw [loadLayered, Option.none_or, h]

/-- A search ends at a file, which is open or closed. -/
theorem find_of_detect {t : FileTree} {workingDirectory : List String} {start path : String}
    (h : detect (t.disk workingDirectory) start = some path) :
    (∃ content, t.find workingDirectory path = .ok (.file content)) ∨
      ∃ reason, t.find workingDirectory path = .ok (.closedFile reason) := by
  have hfile := isFile_of_search h
  rw [Disk.isFile, disk_eq] at hfile
  cases hfind : t.find workingDirectory path with
  | error fault => simp [hfind, Except.map] at hfile
  | ok u =>
      cases u with
      | file content => exact .inl ⟨content, rfl⟩
      | closedFile reason => exact .inr ⟨reason, rfl⟩
      | directory es => simp [hfind, Except.map, found] at hfile

theorem load_of_closedFile {t : FileTree} {workingDirectory : List String} {path reason : String}
    (h : t.find workingDirectory path = .ok (.closedFile reason)) :
    load (t.disk workingDirectory) path = .error ⟨path, .unreadable (.other reason)⟩ := by
  have hclosed : t.disk workingDirectory path = .ok (.closedFile (.other reason)) :=
    disk_of_find h
  refine load_eq_error_iff.2 ⟨rfl, ?_⟩
  simp only [contentOf, Disk.read, hclosed]
  rfl

theorem detail_of_io {disk : Disk} {path : String} {content : List UInt8} {failure : Failure}
    (h : disk path = .ok (.file content)) (hload : load disk path = .error failure)
    (hio : failure.defect.className = "io") :
    failure.defect.detail = some "stream did not contain valid UTF-8" := by
  have hcontent := (className_eq_io_iff h hload).1 hio
  rw [load_of_not_utf8 h hcontent] at hload
  exact Except.error.inj hload ▸ rfl

/-- Options come from one file or from none. A file that is named decides alone, wherever a search
would begin and whatever else is changed in the tree, as long as all that is on the way of its path
is seen as before. Without a name the usual options are used just where no file is found, and one
that is found is used as if it were named. It is open, and then it can be unreadable in one way
only, which is that of every file whose octets are no text; or it is closed, and then it fails for
the reason that it is closed. -/
theorem loadLayered_of_one_file (t : FileTree) (workingDirectory : List String) :
    (∀ path start,
      loadLayered (t.disk workingDirectory) (some path) start =
        (load (t.disk workingDirectory) path).map (fun o => (o, some path)) ∧
      (∀ (t' : FileTree) (start' : String),
        (∀ place ∈ way workingDirectory path, t'.seenAt place = t.seenAt place) →
          loadLayered (t'.disk workingDirectory) (some path) start' =
            loadLayered (t.disk workingDirectory) (some path) start) ∧
      ∀ front name entries change t' start', t.at? front = some (.directory entries) →
        alter change (front ++ [name]) (some t) = some t' →
        (∀ place ∈ way workingDirectory path, ¬front ++ [name] <+: place) →
          loadLayered (t'.disk workingDirectory) (some path) start' =
            loadLayered (t.disk workingDirectory) (some path) start) ∧
    (∀ start, loadLayered (t.disk workingDirectory) none start = .ok (.default, none) ↔
      detect (t.disk workingDirectory) start = none) ∧
    (∀ start path, detect (t.disk workingDirectory) start = some path →
      (∀ start', loadLayered (t.disk workingDirectory) none start =
        loadLayered (t.disk workingDirectory) (some path) start') ∧
      (∀ failure, loadLayered (t.disk workingDirectory) none start = .error failure →
        failure.path = path) ∧
      ((∃ content, t.find workingDirectory path = .ok (.file content)) ∧
        (∀ failure, loadLayered (t.disk workingDirectory) none start = .error failure →
          failure.defect.className = "io" →
            failure.defect.detail = some "stream did not contain valid UTF-8") ∨
      ∃ reason failure, t.find workingDirectory path = .ok (.closedFile reason) ∧
        loadLayered (t.disk workingDirectory) none start = .error failure ∧
        failure.defect.className = "io" ∧ failure.defect.detail = some reason)) ∧
    ∀ path content, t.find workingDirectory path = .ok (.file content) →
      (∀ cs, utf8 cs ≠ content) →
        ∃ failure, load (t.disk workingDirectory) path = .error failure ∧ failure.path = path ∧
          failure.defect.className = "io" ∧
          failure.defect.detail = some "stream did not contain valid UTF-8" := by
  have hframe {path : String} (start start' : String) {t' : FileTree}
      (h : ∀ place ∈ way workingDirectory path, t'.seenAt place = t.seenAt place) :
      loadLayered (t'.disk workingDirectory) (some path) start' =
        loadLayered (t.disk workingDirectory) (some path) start := by
    rw [loadLayered_some, loadLayered_some, load_congr (disk_congr h)]
  refine ⟨?_, fun start => loadLayered_none_eq_default_iff, ?_, ?_⟩
  · intro path start
    refine ⟨rfl, fun t' start' h => hframe start start' h, ?_⟩
    intro front name entries change t' start' hfront halter hway
    exact hframe start start' fun place hplace =>
      seenAt_of_alter hfront halter (hway place hplace)
  · intro start path hdetect
    have hfailed {failure : Failure} : loadLayered (t.disk workingDirectory) none start =
        .error failure ↔ load (t.disk workingDirectory) path = .error failure := by
      rw [loadLayered_none_of_detect hdetect]
      cases load (t.disk workingDirectory) path <;> simp [Except.map]
    simp only [hfailed]
    refine ⟨fun start' => loadLayered_none_of_detect hdetect,
      fun failure hload => (load_eq_error_iff.1 hload).1, ?_⟩
    obtain ⟨content, hopen⟩ | ⟨reason, hclosed⟩ := find_of_detect hdetect
    · have hfile : t.disk workingDirectory path = .ok (.file content) := disk_of_find hopen
      exact .inl ⟨⟨content, hopen⟩, fun failure hload hio => detail_of_io hfile hload hio⟩
    · exact .inr ⟨reason, _, hclosed, load_of_closedFile hclosed, rfl, rfl⟩
  · intro path content hfind hcontent
    have hfile : t.disk workingDirectory path = .ok (.file content) := disk_of_find hfind
    exact ⟨_, load_of_not_utf8 hfile hcontent, rfl, rfl, rfl⟩

/-- A file that is no text, with a good one behind it, and a file of another name. -/
def brokenFiles : FileTree :=
  .directory [("s3sync.toml", .file [0xFF]),
    ("s3sync.yml", .file (utf8 "workers: 1\n".toList)),
    ("conf", .directory [("own.toml", .file (utf8 "workers = 2\n".toList))])]

/-- The same, but a repository, and with no file that a search would find. -/
def clearedFiles : FileTree :=
  .directory [(".git", .directory []),
    ("conf", .directory [("s3sync.yaml", .directory []),
      ("own.toml", .file (utf8 "workers = 2\n".toList))])]

theorem loadLayered_brokenFiles :
    loadLayered (clearedFiles.disk []) (some "conf/own.toml") "conf" =
      loadLayered (brokenFiles.disk []) (some "conf/own.toml") "." ∧
    ∃ failure, loadLayered (brokenFiles.disk []) none "conf" = .error failure ∧
      failure.path = "s3sync.toml" ∧
      failure.defect.detail = some "stream did not contain valid UTF-8" := by
  obtain ⟨hnamed, -, hfound, hcontent⟩ := loadLayered_of_one_file brokenFiles []
  have hway : way [] "conf/own.toml" = [[], ["conf"], ["conf", "own.toml"]] := by decide
  have hdetect : detect (brokenFiles.disk []) "conf" = some "s3sync.toml" := by decide +kernel
  have hoctets : ∀ cs, utf8 cs ≠ [0xFF] := by
    intro cs hcs
    have hdecode : decodeUtf8 [0xFF] = .ok cs := decodeUtf8From_eq_ok_iff.2 hcs.symm
    simp [decodeUtf8, decodeUtf8From] at hdecode
  constructor
  · refine (hnamed "conf/own.toml" ".").2.1 clearedFiles "conf" ?_
    rw [hway]
    simp only [List.forall_mem_cons, List.not_mem_nil, false_implies, implies_true, and_true]
    exact ⟨rfl, rfl, rfl⟩
  · obtain ⟨failure, hload, hpath, -, hdetail⟩ := hcontent "s3sync.toml" [0xFF] rfl hoctets
    refine ⟨failure, ?_, hpath, hdetail⟩
    rw [(hfound "conf" "s3sync.toml" hdetect).1 ".", loadLayered_some, hload]
    rfl

/-- A config file that is closed. -/
def closedFiles : FileTree :=
  .directory [("s3sync.toml", .closedFile "Permission denied (os error 13)")]

/-- A closed file is found and fails for its own reason. And a path that leads nowhere fails
otherwise once a file stands where it needs a directory, though neither is the file it names. -/
theorem closed_file_is_found :
    (detect (closedFiles.disk []) "." = some "./s3sync.toml" ∧
      ∃ failure, loadLayered (closedFiles.disk []) none "." = .error failure ∧
        failure.defect.className = "io" ∧
        failure.defect.detail = some "Permission denied (os error 13)") ∧
    ∃ t, alter (fun _ => some (.file [])) ["s3sync.toml"] (some (.directory [])) = some t ∧
      loadLayered (disk (.directory []) []) (some "s3sync.toml/own.toml") "." =
        .error ⟨"s3sync.toml/own.toml", .unreadable .notFound⟩ ∧
      loadLayered (t.disk []) (some "s3sync.toml/own.toml") "." =
        .error ⟨"s3sync.toml/own.toml", .unreadable .notDirectory⟩ := by
  have hdetect : detect (closedFiles.disk []) "." = some "./s3sync.toml" := by decide +kernel
  have hclosed : closedFiles.find [] "./s3sync.toml" =
      .ok (.closedFile "Permission denied (os error 13)") := rfl
  refine ⟨⟨hdetect, ⟨"./s3sync.toml", .unreadable (.other "Permission denied (os error 13)")⟩,
    ?_, rfl, rfl⟩, _, rfl, rfl, rfl⟩
  rw [loadLayered_none_of_detect hdetect, load_of_closedFile hclosed]
  rfl

end ConfigFile

end SyncPlan
