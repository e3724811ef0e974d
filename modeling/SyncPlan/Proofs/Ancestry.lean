import Mathlib.Data.List.DropRight
import SyncPlan.ConfigFile.Discovery
import SyncPlan.Proofs.Paths

/-!
The ancestry of a path, seen through its steps: the path itself and its parents have the initial
parts of its steps, longest first, and all of them start where the path starts. A path that starts
from a point has the working directory twice at the end.
-/

namespace SyncPlan.Path

theorem trimIdle_eq_rdropWhile (pieces : List String) :
    trimIdle pieces = pieces.rdropWhile isIdle := rfl

theorem filter_trimIdle (pieces : List String) :
    (trimIdle pieces).filter (!isIdle ·) = pieces.filter (!isIdle ·) := by
  rw [trimIdle_eq_rdropWhile]
  induction pieces using List.reverseRecOn with
  | nil => rfl
  | append_singleton pieces piece ih =>
      cases h : isIdle piece with
      | true => rw [List.rdropWhile_concat_pos _ _ _ h, ih]; simp [h]
      | false => rw [List.rdropWhile_concat_neg _ _ _ (by simp [h])]

theorem trimIdle_eq_nil_or_concat (pieces : List String) :
    trimIdle pieces = [] ∨
      ∃ front last, trimIdle pieces = front ++ [last] ∧ isIdle last = false := by
  by_cases h : trimIdle pieces = []
  · exact .inl h
  · refine .inr ⟨_, _, (List.dropLast_append_getLast h).symm, ?_⟩
    exact Bool.eq_false_iff.2 (List.rdropWhile_last_not isIdle pieces h)

theorem parent?_eq_none_iff {p : Path} :
    p.parent? = none ↔ p.steps = [] ∧ p.anchor ≠ .point := by
  rw [steps, ← filter_trimIdle, parent?]
  cases trimIdle_eq_nil_or_concat p.pieces with
  | inl hnil => simp [hnil]
  | inr hconcat =>
      obtain ⟨front, last, h, hlast⟩ := hconcat
      simp [h, hlast]

theorem cases_of_parent? {p q : Path} (h : p.parent? = some q) :
    (p.steps = [] ∧ p.anchor = .point ∧ q = ⟨.none, []⟩) ∨
      (q.anchor = p.anchor ∧ q.pieces <+: p.pieces ∧ ∃ last, p.steps = q.steps ++ [last]) := by
  rw [parent?] at h
  obtain ht | ⟨front, last, ht, hlast⟩ := trimIdle_eq_nil_or_concat p.pieces
  · left
    simp only [ht, Option.ite_none_right_eq_some, Option.some.injEq] at h
    exact ⟨by rw [steps, ← filter_trimIdle, ht]; rfl, h.1, h.2.symm⟩
  · right
    rw [ht] at h
    split at h
    · next he => simp at he
    · rw [List.dropLast_concat] at h
      obtain rfl := Option.some.inj h
      refine ⟨rfl, ?_, last, ?_⟩
      · calc trimIdle front <+: front := List.rdropWhile_prefix isIdle front
          _ <+: trimIdle p.pieces := by rw [ht]; exact List.prefix_append front [last]
          _ <+: p.pieces := List.rdropWhile_prefix isIdle p.pieces
      · rw [steps, ← filter_trimIdle, ht, steps, filter_trimIdle]
        simp [hlast]

/-- The initial parts of some steps, longest first. -/
def climb (steps : List String) : List (List String) := steps.inits.reverse

@[simp] theorem climb_nil : climb [] = [[]] := rfl

theorem climb_concat (steps : List String) (last : String) :
    climb (steps ++ [last]) = (steps ++ [last]) :: climb steps := by
  simp [climb, List.inits_append]

theorem climb_append (front steps : List String) :
    climb (front ++ steps) = (climb steps).map (front ++ ·) ++ (climb front).tail := by
  induction steps using List.reverseRecOn with
  | nil =>
      induction front using List.reverseRecOn with
      | nil => rfl
      | append_singleton front last _ => simp [climb_concat]
  | append_singleton steps last ih =>
      rw [← List.append_assoc, climb_concat, ih, climb_concat]
      simp

theorem nil_mem_climb (steps : List String) : [] ∈ climb steps := by
  simp [climb]

theorem steps_ancestry (p : Path) :
    p.ancestry.map steps = climb p.steps ++ if p.anchor = .point then [[]] else [] := by
  fun_induction ancestry p with
  | case1 p h =>
      obtain ⟨hs, ha⟩ := parent?_eq_none_iff.1 h
      simp [hs, ha]
  | case2 p q h ih =>
      rw [List.map_cons, ih]
      cases cases_of_parent? h with
      | inl hpoint =>
          obtain ⟨hs, ha, rfl⟩ := hpoint
          simp [hs, ha, show steps ⟨.none, []⟩ = [] from rfl]
      | inr hstep =>
          obtain ⟨ha, -, last, hs⟩ := hstep
          rw [hs, ha, climb_concat, List.cons_append]

/-- Pieces as they stand in a text: without slashes, and with no empty one in front where nothing
is written before them. -/
structure Written (p : Path) : Prop where
  slash_notMem : ∀ piece ∈ p.pieces, '/' ∉ piece.toList
  front : p.anchor = .none → p.pieces = [""] ∨ p.pieces.head? ≠ some ""

theorem written_ofText (s : String) : Written (ofText s) := by
  simp only [ofText]
  split
  · next cs h => exact ⟨fun _ hp => slash_notMem_of_mem_piecesOf hp, by simp⟩
  · exact ⟨by simp, by simp⟩
  · next cs h => exact ⟨fun _ hp => slash_notMem_of_mem_piecesOf hp, by simp⟩
  · next h _ _ =>
      refine ⟨fun _ hp => slash_notMem_of_mem_piecesOf hp, fun _ => ?_⟩
      cases hs : s.toList with
      | nil => exact .inl rfl
      | cons c cs =>
          right
          have hc : c ≠ '/' := by
            intro heq
            exact h cs (heq ▸ hs)
          obtain ⟨p, ps, -, hcons⟩ := splitSlashes_cons_of_ne cs hc
          simp [piecesOf, hcons, ← String.toList_inj]

theorem Written.of_parent? {p q : Path} (hp : Written p) (h : p.parent? = some q) : Written q := by
  obtain ⟨-, -, rfl⟩ | ⟨ha, hinit, last, hs⟩ := cases_of_parent? h
  · exact ⟨by simp, by simp⟩
  · refine ⟨fun piece hm => hp.slash_notMem piece (hinit.subset hm), fun hn => .inr ?_⟩
    intro hhead
    obtain ⟨rest, hrest⟩ := List.head?_eq_some_iff.1 hhead
    cases hp.front (ha ▸ hn) with
    | inl hpieces => simp [steps, hpieces, isIdle] at hs
    | inr hpieces =>
        obtain ⟨more, hmore⟩ := hinit
        exact hpieces (by rw [← hmore, hrest]; rfl)

theorem written_of_mem_ancestry {p q : Path} (hp : Written p) (hq : q ∈ p.ancestry) :
    Written q := by
  fun_induction ancestry p with
  | case1 p h => rwa [List.mem_singleton.1 hq]
  | case2 p r h ih =>
      cases List.mem_cons.1 hq with
      | inl heq => exact heq ▸ hp
      | inr hq => exact ih (hp.of_parent? h) hq

theorem anchor_eq_root_iff_of_mem_ancestry {p q : Path} (hq : q ∈ p.ancestry) :
    q.anchor = .root ↔ p.anchor = .root := by
  fun_induction ancestry p with
  | case1 p h => rw [List.mem_singleton.1 hq]
  | case2 p r h ih =>
      cases List.mem_cons.1 hq with
      | inl heq => rw [heq]
      | inr hq =>
          rw [ih hq]
          cases cases_of_parent? h with
          | inl hpoint =>
              obtain ⟨-, ha, rfl⟩ := hpoint
              simp [ha]
          | inr hstep => rw [hstep.1]

theorem piecesOf_intercalate {pieces : List String} (hne : pieces ≠ [])
    (h : ∀ piece ∈ pieces, '/' ∉ piece.toList) :
    piecesOf ("/".intercalate pieces).toList = pieces := by
  rw [piecesOf, String.toList_intercalate, show "/".toList = ['/'] from rfl,
    splitSlashes_intercalate (by simpa using hne) (by simpa using h)]
  simp

theorem piecesOf_append_flatMap (a : List Char) {pieces : List String}
    (h : ∀ piece ∈ pieces, '/' ∉ piece.toList) :
    piecesOf (a ++ pieces.flatMap fun piece => '/' :: piece.toList) = piecesOf a ++ pieces := by
  induction pieces generalizing a with
  | nil => simp
  | cons piece pieces ih =>
      rw [List.flatMap_cons, ← List.append_assoc, ih _ fun q hq => h q (by simp [hq]),
        piecesOf_append_slash, piecesOf_eq_singleton (h piece (by simp))]
      simp

/-- Writing a path and reading it again keeps its steps. -/
theorem steps_ofText_text {p : Path} (hp : Written p) : (ofText p.text).steps = p.steps := by
  have between : (piecesOf ("/".intercalate p.pieces).toList).filter (!isIdle ·) = p.steps := by
    by_cases hne : p.pieces = []
    · simp [steps, hne, show piecesOf [] = [""] from rfl, isIdle]
    · rw [piecesOf_intercalate hne hp.slash_notMem, steps]
  rw [steps_ofText, text]
  cases p.anchor with
  | root =>
      rw [String.toList_append, show "/".toList = [] ++ ['/'] from rfl, List.append_assoc,
        List.singleton_append, piecesOf_append_slash, List.filter_append, between]
      rfl
  | point =>
      rw [String.toList_append, String.toList_join, List.flatMap_map]
      simp only [String.toList_append, show "/".toList = ['/'] from rfl, List.singleton_append]
      rw [piecesOf_append_flatMap _ hp.slash_notMem, List.filter_append]
      rfl
  | none => exact between

theorem anchor_ofText_text {p : Path} (hp : Written p) :
    (ofText p.text).anchor = .root ↔ p.anchor = .root := by
  rw [anchor_ofText_eq_root_iff, text]
  split
  · next h => simp [h]
  · next h => simp [h]
  · next h =>
      refine iff_of_false (fun hhead => ?_) (by simp [h])
      have hfront := hp.front h
      cases hpieces : p.pieces with
      | nil => simp [hpieces] at hhead
      | cons piece pieces =>
          by_cases he : piece = ""
          · obtain rfl : pieces = [] := by simpa [hpieces, he] using hfront
            simp [hpieces, he] at hhead
          · -- the text begins with the first character of its first piece
            have hs := hp.slash_notMem piece (by simp [hpieces])
            rw [hpieces, String.toList_intercalate] at hhead
            cases pieces with
            | nil => exact hs (List.mem_of_head? (by simpa using hhead))
            | cons piece' pieces =>
                rw [List.map_cons, List.map_cons, List.intercalate_cons_cons, List.append_assoc,
                  List.head?_append_of_ne_nil _ (by simpa using he)] at hhead
                exact hs (List.mem_of_head? hhead)

end SyncPlan.Path

namespace SyncPlan.ConfigFile
open SyncPlan.Path

theorem steps_places (start : String) :
    (places start).map (fun directory => (ofText directory).steps) =
      climb (ofText start).steps ++ if (ofText start).anchor = .point then [[]] else [] := by
  rw [← steps_ancestry, places, List.map_map]
  refine List.map_congr_left fun q hq => ?_
  exact steps_ofText_text (written_of_mem_ancestry (written_ofText start) hq)

theorem steps_prefix_of_mem_places {start directory : String} (h : directory ∈ places start) :
    (ofText directory).steps <+: (ofText start).steps := by
  have hm := List.mem_map_of_mem (f := fun d => (ofText d).steps) h
  rw [steps_places, List.mem_append] at hm
  cases hm with
  | inl hm => simpa [climb] using hm
  | inr hm =>
      split at hm
      · rw [List.mem_singleton.1 hm]
        exact List.nil_prefix
      · simp at hm

theorem anchor_of_mem_places {start directory : String} (h : directory ∈ places start) :
    (ofText directory).anchor = .root ↔ (ofText start).anchor = .root := by
  obtain ⟨q, hq, rfl⟩ := List.mem_map.1 h
  rw [anchor_ofText_text (written_of_mem_ancestry (written_ofText start) hq),
    anchor_eq_root_iff_of_mem_ancestry hq]

end SyncPlan.ConfigFile
