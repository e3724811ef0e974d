import SyncPlan.Proofs.Ancestry

/-!
The chain of the parents of a text. A path is written as it was read, and the parent of a parent is
found in its text alone, so the directories that are searched from a start are the start itself, its
parent, the parent of that, and so on to the end.
-/

namespace SyncPlan.Path

theorem intercalate_splitSlashes (cs : List Char) :
    List.intercalate ['/'] (splitSlashes cs) = cs := by
  induction cs with
  | nil => rfl
  | cons c cs ih =>
      by_cases hc : c = '/'
      · obtain ⟨p, ps, hp⟩ := List.exists_cons_of_ne_nil (splitSlashes_ne_nil cs)
        have hcons : splitSlashes (c :: cs) = [] :: splitSlashes cs := by simp [splitSlashes, hc]
        rw [hcons, hp, List.intercalate_cons_cons, ← hp, ih, hc]
        rfl
      · obtain ⟨p, ps, hp, hcons⟩ := splitSlashes_cons_of_ne cs hc
        rw [hp] at ih
        rw [hcons]
        cases ps with
        | nil => simpa using ih
        | cons q qs =>
            rw [List.intercalate_cons_cons] at ih ⊢
            rw [List.cons_append, List.cons_append, ih]

theorem intercalate_piecesOf (cs : List Char) :
    ("/".intercalate (piecesOf cs)).toList = cs := by
  have hmap : (piecesOf cs).map String.toList = splitSlashes cs := by
    simp [piecesOf]
  rw [String.toList_intercalate, hmap]
  exact intercalate_splitSlashes cs

theorem flatMap_slash (pieces : List (List Char)) (h : pieces ≠ []) :
    pieces.flatMap ('/' :: ·) = '/' :: List.intercalate ['/'] pieces := by
  induction pieces with
  | nil => exact absurd rfl h
  | cons piece pieces ih =>
      cases pieces with
      | nil => simp
      | cons next more =>
          rw [List.flatMap_cons, ih (by simp), List.intercalate_cons_cons]
          simp

/-- The text of pieces behind a point. -/
theorem toList_join_slash {pieces : List String} (h : pieces ≠ []) :
    (String.join (pieces.map ("/" ++ ·))).toList = '/' :: ("/".intercalate pieces).toList := by
  rw [String.toList_join, String.toList_intercalate, List.flatMap_map]
  have hslash := flatMap_slash (pieces.map String.toList) (by simpa using h)
  rw [List.flatMap_map] at hslash
  simpa using hslash

/-- A path is written as it was read. -/
theorem text_ofText (s : String) : (ofText s).text = s := by
  rw [← String.toList_inj]
  simp only [ofText]
  split
  · next cs h =>
      simp only [text]
      rw [String.toList_append, intercalate_piecesOf, h]
      rfl
  · next h => rw [h]; rfl
  · next cs h =>
      simp only [text]
      rw [String.toList_append, toList_join_slash (piecesOf_ne_nil cs), intercalate_piecesOf, h]
      rfl
  · simp only [text]
    rw [intercalate_piecesOf]

/-- Pieces as the reader leaves them: where nothing is written before them, the first is no single
point. -/
structure Plain (p : Path) : Prop extends Written p where
  head_ne_point : p.anchor = .none → p.pieces.head? ≠ some "."

theorem plain_ofText (s : String) : Plain (ofText s) := by
  refine ⟨written_ofText s, ?_⟩
  simp only [ofText]
  split
  · simp
  · simp
  · simp
  · next hroot hpoint hslash =>
      intro _ hhead
      have hfirst : (piecesOf s.toList).head? = some "." := hhead
      obtain ⟨rest, hrest⟩ := List.head?_eq_some_iff.1 hfirst
      have hs := intercalate_piecesOf s.toList
      rw [hrest, String.toList_intercalate] at hs
      cases rest with
      | nil => exact hpoint (by simpa using hs.symm)
      | cons piece rest =>
          rw [List.map_cons, List.map_cons, List.intercalate_cons_cons] at hs
          exact hslash _ hs.symm

theorem Plain.of_parent? {p q : Path} (hp : Plain p) (h : p.parent? = some q) : Plain q := by
  refine ⟨hp.toWritten.of_parent? h, ?_⟩
  obtain ⟨-, -, rfl⟩ | ⟨ha, hinit, -⟩ := cases_of_parent? h
  · simp
  · intro hn hhead
    obtain ⟨rest, hrest⟩ := List.head?_eq_some_iff.1 hhead
    obtain ⟨more, hmore⟩ := hinit
    exact hp.head_ne_point (ha ▸ hn) (by rw [← hmore, hrest]; rfl)

theorem Plain.ofText_text {p : Path} (hp : Plain p) (hne : p.pieces ≠ []) : ofText p.text = p := by
  have hpieces := piecesOf_intercalate hne hp.slash_notMem
  obtain ⟨anchor, pieces⟩ := p
  cases anchor with
  | root =>
      simp only [text, ofText, String.toList_append, show "/".toList = ['/'] from rfl,
        List.singleton_append, hpieces]
  | point =>
      simp only [text, ofText, String.toList_append, toList_join_slash hne,
        show ".".toList = ['.'] from rfl, List.singleton_append, hpieces]
  | none =>
      simp only [text, ofText]
      split
      · next cs hs =>
          have hroot : "" :: piecesOf cs = pieces := by
            rw [← show _ = pieces from hpieces, hs]
            exact (piecesOf_slash cs).symm
          subst hroot
          simpa [piecesOf_ne_nil] using hp.front rfl
      · next hs =>
          have hpoint : ["."] = pieces := by
            rw [← show _ = pieces from hpieces, hs]
            rfl
          subst hpoint
          exact absurd rfl (hp.head_ne_point rfl)
      · next cs hs =>
          have hpoint : "." :: piecesOf cs = pieces := by
            rw [← show _ = pieces from hpieces, hs]
            exact (piecesOf_point_slash cs).symm
          subst hpoint
          exact absurd rfl (hp.head_ne_point rfl)
      · rw [hpieces]

theorem Plain.parent?_ofText_text {p : Path} (hp : Plain p) :
    (ofText p.text).parent? = p.parent? := by
  by_cases hne : p.pieces = []
  · obtain ⟨anchor, pieces⟩ := p
    obtain rfl : pieces = [] := hne
    cases anchor <;> decide
  · rw [hp.ofText_text hne]

/-- The parent of a text. -/
def parentOf? (s : String) : Option String := (ofText s).parent?.map text

/-- A start, its parent, the parent of that, and so on. -/
def ancestor? (start : String) : Nat → Option String
  | 0 => some start
  | i + 1 => (ancestor? start i).bind parentOf?

theorem ancestor?_succ (start : String) (i : Nat) :
    ancestor? start (i + 1) = (parentOf? start).bind (ancestor? · i) := by
  induction i with
  | zero => simp [ancestor?]
  | succ i ih =>
      calc ancestor? start (i + 2) = (ancestor? start (i + 1)).bind parentOf? := rfl
        _ = (parentOf? start).bind fun parent => (ancestor? parent i).bind parentOf? := by
          rw [ih, Option.bind_assoc]

theorem getElem?_map_text_ancestry {p : Path} (hp : Plain p) (i : Nat) :
    (p.ancestry.map text)[i]? = ancestor? p.text i := by
  fun_induction ancestry p generalizing i with
  | case1 p h =>
      cases i with
      | zero => rfl
      | succ i => simp [ancestor?_succ, parentOf?, hp.parent?_ofText_text, h]
  | case2 p q h ih =>
      cases i with
      | zero => rfl
      | succ i =>
          simpa [ancestor?_succ, parentOf?, hp.parent?_ofText_text, h] using ih (hp.of_parent? h) i

end SyncPlan.Path

namespace SyncPlan.ConfigFile
open SyncPlan.Path

/-- The directories that are searched are the start and its parents in turn. -/
theorem getElem?_places (start : String) (i : Nat) : (places start)[i]? = ancestor? start i := by
  have h := getElem?_map_text_ancestry (plain_ofText start) i
  rwa [text_ofText] at h

theorem ancestor?_eq_none_iff {start : String} {i : Nat} :
    ancestor? start i = none ↔ (places start).length ≤ i := by
  rw [← getElem?_places, List.getElem?_eq_none_iff]

end SyncPlan.ConfigFile
