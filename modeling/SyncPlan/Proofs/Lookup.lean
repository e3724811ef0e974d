import SyncPlan.Files.Tree
import SyncPlan.Proofs.Paths

/-!
What a path leads to, by the steps of the path alone. A name that is joined to a directory is
looked for behind the steps of the directory, and a walk that succeeds ends at the place to which
its pieces move.
-/

namespace SyncPlan.FileTree
open SyncPlan.Path

/-- The place from which a path is followed. -/
def base (workingDirectory : List String) (path : String) : List String :=
  if (ofText path).anchor = .root then [] else workingDirectory

theorem base_join (workingDirectory : List String) (directory : String) {name : String}
    (hn : IsName name) :
    base workingDirectory (join directory name) = base workingDirectory directory := by
  simp only [base, hn.anchor_join]

/-- The place that a path leads to, if it leads anywhere. -/
def locate (t : FileTree) (workingDirectory : List String) (path : String) :
    Option (List String) :=
  if (t.find workingDirectory path).isOk then
    some ((ofText path).pieces.foldl move (base workingDirectory path))
  else none

section Follow

variable {t : FileTree} {place : List String}

theorem at?_append (t : FileTree) (front names : List String) :
    t.at? (front ++ names) = (t.at? front).bind (·.at? names) := by
  induction front generalizing t with
  | nil => rfl
  | cons name front ih =>
      simp only [List.cons_append, at?]
      cases t.entries.lookup name with
      | none => rfl
      | some u => exact ih u

theorem directory_of_at?_append {name : String} {names : List String} {u : FileTree}
    (h : t.at? (place ++ name :: names) = some u) : ∃ es, t.at? place = some (directory es) := by
  rw [at?_append] at h
  cases hp : t.at? place with
  | none => simp [hp] at h
  | some v =>
      cases v with
      | directory es => exact ⟨es, rfl⟩
      | file _ | closedFile _ => simp [hp, at?, entries] at h

theorem follow_of_directory {es : List (String × FileTree)} (h : t.at? place = some (directory es))
    (piece : String) (pieces : List String) :
    t.follow place (piece :: pieces) = t.follow (move place piece) pieces := by
  simp [follow, h]

theorem follow_of_not_directory (h : ∀ es, t.at? place ≠ some (directory es))
    (piece piece' : String) (pieces pieces' : List String) :
    t.follow place (piece :: pieces) = t.follow place (piece' :: pieces') := by
  cases hp : t.at? place with
  | none => simp [follow, hp]
  | some v =>
      cases v with
      | directory es => exact absurd hp (h es)
      | file _ | closedFile _ => simp [follow, hp]

theorem move_of_isIdle {piece : String} (h : isIdle piece = true) : move place piece = place := by
  simp [move, h]

theorem move_of_isName {piece : String} (h : isIdle piece = false) (hup : piece ≠ "..") :
    move place piece = place ++ [piece] := by
  simp [move, h, hup]

theorem follow_append_filter (t : FileTree) (place front : List String) (name : String) :
    t.follow place (front ++ [name]) = t.follow place (front.filter (!isIdle ·) ++ [name]) := by
  induction front generalizing place with
  | nil => rfl
  | cons piece front ih =>
      by_cases h : ∃ es, t.at? place = some (directory es)
      · obtain ⟨es, h⟩ := h
        rw [List.cons_append, follow_of_directory h, ih]
        cases hi : isIdle piece with
        | true => simp [hi, move_of_isIdle hi]
        | false => simp [hi, follow_of_directory h]
      · obtain ⟨piece', pieces', hp⟩ := List.exists_cons_of_ne_nil
          (show (piece :: front).filter (!isIdle ·) ++ [name] ≠ [] by simp)
        rw [hp, List.cons_append]
        exact follow_of_not_directory (fun es he => h ⟨es, he⟩) _ _ _ _

theorem follow_append_names {names : List String} {u : FileTree}
    (h : t.at? (place ++ names) = some u) (hn : ∀ name ∈ names, IsName name)
    (pieces : List String) :
    t.follow place (names ++ pieces) = t.follow (place ++ names) pieces := by
  induction names generalizing place with
  | nil => simp
  | cons name names ih =>
      obtain ⟨es, hdir⟩ := directory_of_at?_append h
      have hname := hn name (by simp)
      rw [List.cons_append, follow_of_directory hdir, move_of_isName hname.1 hname.2.1,
        ih (by simpa using h) fun n hm => hn n (by simp [hm])]
      simp

theorem at?_of_follow {pieces : List String} {u : FileTree} (h : t.follow place pieces = .ok u) :
    t.at? (pieces.foldl move place) = some u := by
  induction pieces generalizing place with
  | nil =>
      rw [follow] at h
      split at h <;> simp_all
  | cons piece pieces ih =>
      rw [follow] at h
      split at h
      · simp at h
      · exact ih h
      · simp at h

end Follow

theorem foldl_move_filter (pieces place : List String) :
    pieces.foldl move place = (pieces.filter (!isIdle ·)).foldl move place := by
  induction pieces generalizing place with
  | nil => rfl
  | cons piece pieces ih =>
      cases hi : isIdle piece with
      | true => simp [hi, move_of_isIdle hi, ih]
      | false => simp [hi, ih]

theorem foldl_move_pieces (p : Path) (place : List String) :
    p.pieces.foldl move place = p.steps.foldl move place :=
  foldl_move_filter p.pieces place

theorem isIdle_of_mem_steps {p : Path} {step : String} (hm : step ∈ p.steps) :
    isIdle step = false := by
  simpa using (List.mem_filter.1 hm).2

theorem foldl_move_steps {p : Path} (hup : ".." ∉ p.steps) (place : List String) :
    p.steps.foldl move place = place ++ p.steps := by
  have hs : ∀ piece ∈ p.steps, isIdle piece = false ∧ piece ≠ ".." := fun piece hm =>
    ⟨isIdle_of_mem_steps hm, fun he => hup (he ▸ hm)⟩
  generalize p.steps = pieces at hs
  induction pieces generalizing place with
  | nil => simp
  | cons piece pieces ih =>
      have hp := hs piece (by simp)
      rw [List.foldl_cons, move_of_isName hp.1 hp.2, ih _ fun q hq => hs q (by simp [hq])]
      simp

/-- The steps of a path lead to where it is located. -/
theorem foldl_move_of_locate {t : FileTree} {workingDirectory place : List String} {path : String}
    (h : t.locate workingDirectory path = some place) :
    (ofText path).steps.foldl move (base workingDirectory path) = place := by
  rw [locate, Option.ite_none_right_eq_some, Option.some.injEq, foldl_move_pieces] at h
  exact h.2

theorem at?_of_locate {t : FileTree} {workingDirectory place : List String} {path : String}
    (h : t.locate workingDirectory path = some place) :
    ∃ u, t.find workingDirectory path = .ok u ∧ t.at? place = some u := by
  rw [locate, Option.ite_none_right_eq_some, Option.some.injEq] at h
  obtain ⟨hok, rfl⟩ := h
  cases hf : t.find workingDirectory path with
  | error fault => simp [hf, Except.isOk, Except.toBool] at hok
  | ok u =>
      refine ⟨u, rfl, ?_⟩
      simp only [find] at hf
      split at hf
      · simp at hf
      · split at hf
        · simp at hf
        · exact at?_of_follow hf

theorem follow_pieces_ofText (t : FileTree) (place : List String) {path name : String}
    {front : List String} (h : piecesOf path.toList = front ++ [name]) (hn : IsName name) :
    t.follow place (ofText path).pieces = t.follow place (front.filter (!isIdle ·) ++ [name]) := by
  rw [← follow_append_filter, ← h]
  have hidle (piece : String) (cs : List Char) (hi : isIdle piece = true) :
      t.follow place (piecesOf cs) = t.follow place (piece :: piecesOf cs) := by
    obtain ⟨front, last, hl⟩ : ∃ front last, piecesOf cs = front ++ [last] :=
      ⟨_, _, (List.dropLast_append_getLast (piecesOf_ne_nil cs)).symm⟩
    rw [hl, ← List.cons_append, follow_append_filter, follow_append_filter t place (piece :: front)]
    simp [hi]
  simp only [ofText]
  split
  · next cs hs =>
      rw [hs, piecesOf_slash]
      exact hidle "" cs rfl
  · next hs =>
      have : front ++ [name] = [] ++ ["."] := by rw [← h, hs]; rfl
      obtain ⟨-, rfl⟩ : front = [] ∧ name = "." := by simpa using List.append_inj' this rfl
      exact absurd hn (by decide)
  · next cs hs =>
      rw [hs, piecesOf_point_slash]
      exact hidle "." cs rfl
  · rfl

/-- A name in a directory is looked for behind the steps of the directory. -/
theorem find_join (t : FileTree) (workingDirectory : List String) (directory : String)
    {name : String} (hn : IsName name) :
    t.find workingDirectory (join directory name) =
      if '\x00' ∈ directory.toList then .error .nulInPath
      else t.follow (base workingDirectory directory) ((ofText directory).steps ++ [name]) := by
  have hne : (join directory name).isEmpty = false := by
    rw [String.isEmpty_eq_false_iff]
    intro he
    have := steps_join directory name
    simp [he, hn.steps_ofText, show (ofText "").steps = [] from rfl] at this
  have hnul : (join directory name).toList.contains '\x00' = true ↔ '\x00' ∈ directory.toList := by
    simp only [List.contains_iff_mem, join]
    split <;> simp [hn.2.2.2]
  obtain ⟨front, hp, hfront⟩ := piecesOf_join directory name
  rw [hn.piecesOf_toList] at hp
  simp only [find, hne, hnul, Bool.false_eq_true, if_false]
  rw [← base_join workingDirectory directory hn, follow_pieces_ofText t _ hp hn, hfront, base]

end SyncPlan.FileTree
