import Mathlib.Logic.Relation
import SyncPlan.Proofs.Lineage

/-!
The components of a path: what it starts from and the steps behind that. Texts have the same
components exactly if they are spellings of one path, which differ in slashes and single points that
lead nowhere. The parent of a path is without its last component, and a name that is joined to a
path is one more.
-/

namespace SyncPlan

/-- A part of a path that says where it leads. -/
inductive Component
  | root
  | point
  | up
  | name (s : String)
  deriving DecidableEq, Repr

def Component.ofStep (step : String) : Component := if step = ".." then .up else .name step

def Anchor.components : Anchor → List Component
  | .root => [.root]
  | .point => [.point]
  | .none => []

namespace Path

def components (p : Path) : List Component := p.anchor.components ++ p.steps.map Component.ofStep

theorem ofStep_injective : Function.Injective Component.ofStep := by
  intro step step' h
  simp only [Component.ofStep] at h
  split at h <;> split at h <;> simp_all

theorem ofStep_ne_root (step : String) : Component.ofStep step ≠ .root := by
  rw [Component.ofStep]
  split <;> simp

/-- What the first component is written as, if it is no step. -/
def anchorOf : List Component → Anchor
  | .root :: _ => .root
  | .point :: _ => .point
  | _ => .none

theorem anchorOf_components (p : Path) : anchorOf p.components = p.anchor := by
  rw [components]
  cases p.anchor with
  | root | point => rfl
  | none =>
      cases p.steps with
      | nil => rfl
      | cons step steps =>
          rw [Anchor.components, List.nil_append, List.map_cons, Component.ofStep]
          split <;> rfl

theorem components_eq_iff {p q : Path} :
    p.components = q.components ↔ p.anchor = q.anchor ∧ p.steps = q.steps := by
  constructor
  · intro h
    have hanchor : p.anchor = q.anchor := by
      rw [← anchorOf_components, h, anchorOf_components]
    rw [components, components, hanchor, List.append_cancel_left_eq] at h
    exact ⟨hanchor, List.map_injective_iff.2 ofStep_injective h⟩
  · rintro ⟨hanchor, hsteps⟩
    rw [components, components, hanchor, hsteps]

/-- The components of a parent. -/
def ascend? (cs : List Component) : Option (List Component) :=
  if cs = [] ∨ cs = [.root] then none else some cs.dropLast

theorem map_components_parent? (p : Path) : p.parent?.map components = ascend? p.components := by
  cases h : p.parent? with
  | none =>
      obtain ⟨hsteps, hanchor⟩ := parent?_eq_none_iff.1 h
      rw [components, hsteps, ascend?]
      cases ha : p.anchor <;> simp_all [Anchor.components]
  | some q =>
      obtain ⟨hsteps, hanchor, rfl⟩ | ⟨hanchor, -, last, hsteps⟩ := cases_of_parent? h
      · rw [components, hsteps, hanchor]
        rfl
      · have hlast : p.components = q.components ++ [Component.ofStep last] := by
          rw [components, components, hsteps, hanchor, List.map_append, List.append_assoc]
          rfl
        have hroot : q.components ++ [Component.ofStep last] ≠ [.root] := by
          intro hroot
          have hend := congrArg List.getLast? hroot
          rw [List.getLast?_concat] at hend
          exact ofStep_ne_root last (Option.some.inj hend)
        simp [hlast, ascend?, hroot]

/-- A text that has been read and written keeps its components. -/
theorem Plain.components_ofText_text {p : Path} (hp : Plain p) :
    (ofText p.text).components = p.components := by
  by_cases hne : p.pieces = []
  · obtain ⟨anchor, pieces⟩ := p
    obtain rfl : pieces = [] := hne
    cases anchor <;> decide
  · rw [hp.ofText_text hne]

theorem map_components_parentOf? (s : String) :
    (parentOf? s).map (fun parent => (ofText parent).components) =
      ascend? (ofText s).components := by
  rw [← map_components_parent?, parentOf?, Option.map_map]
  cases h : (ofText s).parent? with
  | none => rfl
  | some q => exact congrArg some ((plain_ofText s).of_parent? h).components_ofText_text

/-- What a text starts from is seen in its first character and its first piece. -/
theorem anchor_ofText (s : String) : (ofText s).anchor =
    if s.toList.head? = some '/' then .root
    else if (piecesOf s.toList).head? = some "." then .point
    else .none := by
  have hplain := (plain_ofText s).head_ne_point
  revert hplain
  simp only [ofText]
  split
  · next h => simp [h]
  · next h => simp [h, show piecesOf ['.'] = ["."] from rfl]
  · next h => simp [h, piecesOf_point_slash]
  · next hroot _ _ =>
      intro hplain
      have hhead : s.toList.head? ≠ some '/' := by
        intro hs
        obtain ⟨cs, hcs⟩ := List.head?_eq_some_iff.1 hs
        exact hroot cs hcs
      simp [hhead, hplain]

theorem head?_piecesOf_append_slash (a b : List Char) :
    (piecesOf (a ++ '/' :: b)).head? = (piecesOf a).head? := by
  rw [piecesOf_append_slash, List.head?_append_of_ne_nil _ (piecesOf_ne_nil a)]

/-- What stands behind a slash does not tell what a text starts from. -/
theorem anchor_eq_of_slash {s s' : String} {a b b' : List Char} (h : s.toList = a ++ '/' :: b)
    (h' : s'.toList = a ++ '/' :: b') : (ofText s).anchor = (ofText s').anchor := by
  simp only [anchor_ofText, h, h', head?_piecesOf_append_slash]
  cases a <;> rfl

theorem anchor_eq_of_append_slash {s s' : String} {b : List Char}
    (h : s.toList = s'.toList ++ '/' :: b) (hne : s'.toList ≠ []) :
    (ofText s).anchor = (ofText s').anchor := by
  simp only [anchor_ofText, h, head?_piecesOf_append_slash, List.head?_append_of_ne_nil _ hne]

theorem IsName.anchor_ofText {name : String} (hn : IsName name) : (ofText name).anchor = .none := by
  have hroot : name.toList.head? ≠ some '/' := fun hs => hn.2.2.1 (List.mem_of_head? hs)
  have hpoint : name ≠ "." := by
    intro hs
    subst hs
    exact absurd hn.1 (by decide)
  rw [Path.anchor_ofText, if_neg hroot, hn.piecesOf_toList, if_neg (by simpa using hpoint)]

theorem IsName.anchor_ofText_join {name : String} (hn : IsName name) (directory : String) :
    (ofText (join directory name)).anchor = (ofText directory).anchor := by
  obtain ⟨rfl, hjoin⟩ | ⟨front, hfront, hjoin⟩ | ⟨hne, hjoin⟩ := join_cases directory name
  · rw [hjoin, hn.anchor_ofText]
    rfl
  · exact anchor_eq_of_slash hjoin hfront
  · exact anchor_eq_of_append_slash hjoin hne

theorem IsName.components_join {name : String} (hn : IsName name) (directory : String) :
    (ofText (join directory name)).components =
      (ofText directory).components ++ [.name name] := by
  have hstep : Component.ofStep name = .name name := if_neg hn.2.1
  rw [components, components, hn.anchor_ofText_join, steps_join, hn.steps_ofText, List.map_append,
    List.append_assoc, List.map_singleton, hstep]

open Relation (EqvGen)

/-- A spelling is shortened by what leads nowhere: one of two slashes, a single point between them
or at the end, and a slash at the end of anything but the root. -/
inductive Shortens : List Char → List Char → Prop
  | slash (a b : List Char) : Shortens (a ++ '/' :: '/' :: b) (a ++ '/' :: b)
  | point (a b : List Char) : Shortens (a ++ '/' :: '.' :: '/' :: b) (a ++ '/' :: b)
  | lastPoint (a : List Char) : Shortens (a ++ ['/', '.']) (a ++ ['/'])
  | lastSlash {a : List Char} : a ≠ [] → Shortens (a ++ ['/']) a

/-- Spellings of one path: what is shortened in one way may be lengthened again in another. -/
def Respelled (s s' : String) : Prop := EqvGen Shortens s.toList s'.toList

theorem components_of_shortens {s s' : String} (h : Shortens s.toList s'.toList) :
    (ofText s).components = (ofText s').components := by
  rw [components_eq_iff, steps_ofText, steps_ofText]
  generalize hs : s.toList = cs at h
  generalize hs' : s'.toList = cs' at h
  cases h with
  | slash a b =>
      refine ⟨anchor_eq_of_slash hs hs', ?_⟩
      simp [piecesOf_append_slash, piecesOf_slash, isIdle]
  | point a b =>
      refine ⟨anchor_eq_of_slash hs hs', ?_⟩
      simp [piecesOf_append_slash, piecesOf_point_slash, isIdle]
  | lastPoint a =>
      refine ⟨anchor_eq_of_slash hs hs', ?_⟩
      simp [piecesOf_append_slash, show piecesOf ['.'] = ["."] from rfl,
        show piecesOf [] = [""] from rfl, isIdle]
  | lastSlash hne =>
      subst hs'
      refine ⟨anchor_eq_of_append_slash hs hne, ?_⟩
      simp [piecesOf_append_slash, show piecesOf [] = [""] from rfl, isIdle]

theorem components_of_respelled {s s' : String} (h : Respelled s s') :
    (ofText s).components = (ofText s').components := by
  have hall {a b : List Char} (h : EqvGen Shortens a b) :
      (ofText (String.ofList a)).components = (ofText (String.ofList b)).components := by
    induction h with
    | rel a b hshort => exact components_of_shortens (by simpa using hshort)
    | refl a => rfl
    | symm a b _ ih => exact ih.symm
    | trans a b c _ _ ih ih' => exact ih.trans ih'
  simpa using hall h

/-- Pieces with a slash before each of them. -/
def slashed (pieces : List String) : List Char := pieces.flatMap fun piece => '/' :: piece.toList

section Shorten

variable {piece : String} (hi : isIdle piece = true)
include hi

theorem shortens_idle_slash (a b : List Char) :
    Shortens (a ++ slashed [piece] ++ '/' :: b) (a ++ '/' :: b) := by
  obtain rfl | rfl := eq_of_isIdle hi
  · simpa [slashed] using Shortens.slash a b
  · simpa [slashed] using Shortens.point a b

theorem eqvGen_idle_end (a : List Char) : EqvGen Shortens (a ++ slashed [piece]) (a ++ ['/']) := by
  obtain rfl | rfl := eq_of_isIdle hi
  · exact .refl _
  · exact .rel _ _ (.lastPoint a)

end Shorten

theorem slashed_cons (piece : String) (pieces : List String) :
    slashed (piece :: pieces) = slashed [piece] ++ slashed pieces := by
  simp [slashed]

/-- Behind anything that is written, idle pieces can be left out. -/
theorem eqvGen_slashed {a : List Char} (ha : a ≠ []) (pieces : List String) :
    EqvGen Shortens (a ++ slashed pieces) (a ++ slashed (pieces.filter (!isIdle ·))) := by
  induction pieces generalizing a with
  | nil => exact .refl _
  | cons piece pieces ih =>
      rw [slashed_cons]
      cases hi : isIdle piece with
      | false =>
          have hrest := ih (a := a ++ slashed [piece]) (by simp [ha])
          rw [List.filter_cons_of_pos (by simp [hi]), slashed_cons piece (pieces.filter _)]
          simpa only [List.append_assoc] using hrest
      | true =>
          rw [List.filter_cons_of_neg (by simp [hi])]
          refine .trans _ _ _ ?_ (ih ha)
          cases pieces with
          | nil =>
              rw [show slashed [] = [] from rfl, List.append_nil, List.append_nil]
              exact .trans _ _ _ (eqvGen_idle_end hi a) (.rel _ _ (.lastSlash ha))
          | cons next pieces =>
              rw [← List.append_assoc]
              exact .rel _ _ (shortens_idle_slash hi a _)

/-- Behind the root as well, of which one slash is left. -/
theorem eqvGen_root {pieces : List String} (hne : pieces ≠ []) :
    EqvGen Shortens (slashed pieces)
      ('/' :: ("/".intercalate (pieces.filter (!isIdle ·))).toList) := by
  induction pieces with
  | nil => exact absurd rfl hne
  | cons piece pieces ih =>
      cases hi : isIdle piece with
      | false =>
          have hrest := eqvGen_slashed (a := slashed [piece]) (by simp [slashed]) pieces
          rw [List.filter_cons_of_pos (by simp [hi]), String.toList_intercalate,
            show "/".toList = ['/'] from rfl, ← flatMap_slash _ (by simp), List.flatMap_map]
          rwa [← slashed_cons, ← slashed_cons] at hrest
      | true =>
          rw [List.filter_cons_of_neg (by simp [hi]), slashed_cons]
          cases pieces with
          | nil => simpa [slashed] using eqvGen_idle_end hi []
          | cons next pieces =>
              refine .trans _ _ _ (.rel _ _ ?_) (ih (by simp))
              exact shortens_idle_slash hi [] _

/-- A path without its idle pieces. -/
def bare (p : Path) : Path := { p with pieces := p.steps }

theorem bare_eq_of_components {p q : Path} (h : p.components = q.components) : p.bare = q.bare := by
  obtain ⟨hanchor, hsteps⟩ := components_eq_iff.1 h
  rw [bare, bare, hanchor, hsteps]

theorem toList_text_point (pieces : List String) :
    (text ⟨.point, pieces⟩).toList = '.' :: slashed pieces := by
  simp [text, slashed, String.toList_join, List.flatMap_map]

theorem toList_text_none (piece : String) (pieces : List String) :
    (text ⟨.none, piece :: pieces⟩).toList = piece.toList ++ slashed pieces := by
  simp only [text, String.toList_intercalate]
  cases pieces with
  | nil => simp [slashed]
  | cons next pieces =>
      rw [List.map_cons, List.map_cons, List.intercalate_cons_cons, ← List.map_cons,
        List.append_assoc, show "/".toList = ['/'] from rfl, List.singleton_append,
        ← flatMap_slash _ (by simp), List.flatMap_map]
      rfl

/-- Every path can be spelled without idle pieces. -/
theorem Plain.respelled_bare {p : Path} (hp : Plain p) : Respelled p.text p.bare.text := by
  obtain ⟨anchor, pieces⟩ := p
  rw [Respelled, bare, steps]
  cases anchor with
  | root =>
      by_cases hne : pieces = []
      · subst hne
        exact .refl _
      · have hroot := eqvGen_root hne
        rw [slashed, ← List.flatMap_map, flatMap_slash _ (by simpa using hne)] at hroot
        simpa [text, String.toList_intercalate] using hroot
  | point =>
      rw [toList_text_point, toList_text_point]
      exact eqvGen_slashed (a := ['.']) (by simp) pieces
  | none =>
      cases pieces with
      | nil => exact .refl _
      | cons piece pieces =>
          obtain hempty | hhead := hp.front rfl
          · obtain ⟨rfl, rfl⟩ : piece = "" ∧ pieces = [] := by simpa using hempty
            exact .refl _
          · have hpoint := hp.head_ne_point rfl
            have hi : isIdle piece = false := by
              simp_all [isIdle]
            rw [List.filter_cons_of_pos (by simp [hi]), toList_text_none, toList_text_none]
            exact eqvGen_slashed (by simp_all) pieces

/-- Texts have the same components exactly if they are spellings of one path. -/
theorem components_eq_iff_respelled {s s' : String} :
    (ofText s).components = (ofText s').components ↔ Respelled s s' := by
  refine ⟨fun h => ?_, components_of_respelled⟩
  have hbare (s : String) : Respelled s (ofText s).bare.text := by
    have hs := (plain_ofText s).respelled_bare
    rwa [text_ofText] at hs
  have hs' := hbare s'
  rw [← bare_eq_of_components h] at hs'
  exact .trans _ _ _ (hbare s) (.symm _ _ hs')

end Path

end SyncPlan
