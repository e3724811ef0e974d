import Mathlib.Data.List.Infix
import SyncPlan.Files.Path

/-!
The steps of a path: its pieces without the idle ones. A text is a list of steps behind an anchor,
joining a name adds one step, and the ancestry of a path drops its steps one by one from the end.
Nothing else of the spelling matters to where a path leads.
-/

namespace SyncPlan.Path

/-- What an entry of a directory may be called. -/
def IsName (s : String) : Prop :=
  isIdle s = false ∧ s ≠ ".." ∧ '/' ∉ s.toList ∧ '\x00' ∉ s.toList

instance : DecidablePred IsName := fun s =>
  inferInstanceAs (Decidable (isIdle s = false ∧ s ≠ ".." ∧ '/' ∉ s.toList ∧ '\x00' ∉ s.toList))

/-- The pieces of a path that lead somewhere. -/
def steps (p : Path) : List String := p.pieces.filter (!isIdle ·)

theorem splitSlashes_ne_nil (cs : List Char) : splitSlashes cs ≠ [] := by
  cases cs with
  | nil => simp [splitSlashes]
  | cons c cs =>
      simp only [splitSlashes]
      split
      · simp
      · split <;> simp

theorem splitSlashes_cons_of_ne {c : Char} (cs : List Char) (h : c ≠ '/') :
    ∃ p ps, splitSlashes cs = p :: ps ∧ splitSlashes (c :: cs) = (c :: p) :: ps := by
  obtain ⟨p, ps, hp⟩ := List.exists_cons_of_ne_nil (splitSlashes_ne_nil cs)
  exact ⟨p, ps, hp, by simp [splitSlashes, h, hp]⟩

theorem splitSlashes_append_slash (a b : List Char) :
    splitSlashes (a ++ '/' :: b) = splitSlashes a ++ splitSlashes b := by
  induction a with
  | nil => simp [splitSlashes]
  | cons c a ih =>
      by_cases h : c = '/'
      · simp [splitSlashes, h, ih]
      · obtain ⟨p, ps, hp, hc⟩ := splitSlashes_cons_of_ne a h
        rw [hc]
        simp [splitSlashes, h, ih, hp]

theorem splitSlashes_eq_singleton {a : List Char} (h : '/' ∉ a) : splitSlashes a = [a] := by
  induction a with
  | nil => rfl
  | cons c a ih =>
      simp only [List.mem_cons, not_or] at h
      simp [splitSlashes, Ne.symm h.1, ih h.2]

theorem splitSlashes_intercalate {ps : List (List Char)} (hne : ps ≠ [])
    (h : ∀ p ∈ ps, '/' ∉ p) : splitSlashes (List.intercalate ['/'] ps) = ps := by
  induction ps with
  | nil => exact absurd rfl hne
  | cons p ps ih =>
      have hp := splitSlashes_eq_singleton (h p (by simp))
      cases ps with
      | nil => simpa using hp
      | cons q qs =>
          rw [List.intercalate_cons_cons, List.append_assoc, List.singleton_append,
            splitSlashes_append_slash, hp, ih (by simp) fun r hr => h r (by simp [hr])]
          rfl

theorem mem_splitSlashes {c : Char} (hc : c ≠ '/') (cs : List Char) :
    (∃ p ∈ splitSlashes cs, c ∈ p) ↔ c ∈ cs := by
  induction cs with
  | nil => simp [splitSlashes]
  | cons d cs ih =>
      by_cases hd : d = '/'
      · simp [splitSlashes, hd, hc, ih]
      · obtain ⟨p, ps, hp, hcons⟩ := splitSlashes_cons_of_ne cs hd
        simp only [hp, List.exists_mem_cons_iff] at ih
        simp [hcons, ← ih, or_assoc]

theorem slash_notMem_of_mem_splitSlashes {cs p : List Char} (hp : p ∈ splitSlashes cs) :
    '/' ∉ p := by
  induction cs generalizing p with
  | nil => simp_all [splitSlashes]
  | cons c cs ih =>
      by_cases hc : c = '/'
      · simp only [splitSlashes, hc, beq_self_eq_true, ite_true, List.mem_cons] at hp
        cases hp with
        | inl heq => simp [heq]
        | inr hp => exact ih hp
      · obtain ⟨q, qs, hq, hcons⟩ := splitSlashes_cons_of_ne cs hc
        rw [hcons, List.mem_cons] at hp
        cases hp with
        | inl heq => simpa [heq, Ne.symm hc] using ih (by rw [hq]; simp)
        | inr hp => exact ih (by rw [hq]; simp [hp])

theorem piecesOf_append_slash (a b : List Char) :
    piecesOf (a ++ '/' :: b) = piecesOf a ++ piecesOf b := by
  simp [piecesOf, splitSlashes_append_slash]

theorem piecesOf_slash (cs : List Char) : piecesOf ('/' :: cs) = "" :: piecesOf cs :=
  piecesOf_append_slash [] cs

theorem piecesOf_point_slash (cs : List Char) : piecesOf ('.' :: '/' :: cs) = "." :: piecesOf cs :=
  piecesOf_append_slash ['.'] cs

theorem piecesOf_eq_singleton {s : String} (h : '/' ∉ s.toList) : piecesOf s.toList = [s] := by
  simp [piecesOf, splitSlashes_eq_singleton h]

theorem piecesOf_ne_nil (cs : List Char) : piecesOf cs ≠ [] := by
  simp [piecesOf, splitSlashes_ne_nil]

theorem slash_notMem_of_mem_piecesOf {cs : List Char} {p : String} (hp : p ∈ piecesOf cs) :
    '/' ∉ p.toList := by
  obtain ⟨q, hq, rfl⟩ := List.mem_map.1 hp
  simpa using slash_notMem_of_mem_splitSlashes hq

theorem eq_of_isIdle {p : String} (h : isIdle p = true) : p = "" ∨ p = "." := by
  simpa [isIdle] using h

theorem nul_notMem_of_isIdle {p : String} (h : isIdle p = true) : '\x00' ∉ p.toList := by
  obtain rfl | rfl := eq_of_isIdle h <;> decide

theorem steps_ofText (s : String) :
    (ofText s).steps = (piecesOf s.toList).filter (!isIdle ·) := by
  simp only [ofText]
  split
  · next h => simp [steps, h, piecesOf_slash, isIdle]
  · next h => simp [steps, h, isIdle, show piecesOf ['.'] = ["."] from rfl]
  · next h => simp [steps, h, piecesOf_point_slash, isIdle]
  · rfl

theorem anchor_ofText_eq_root_iff (s : String) :
    (ofText s).anchor = .root ↔ s.toList.head? = some '/' := by
  simp only [ofText]
  split
  · next h => simp [h]
  · next h => simp [h]
  · next h => simp [h]
  · next h _ _ =>
      refine iff_of_false (by simp) fun hs => ?_
      obtain ⟨cs, hcs⟩ := List.head?_eq_some_iff.1 hs
      exact h cs hcs

/-- A text holds a NUL exactly where one of its steps does. -/
theorem nul_mem_iff_exists_step (s : String) :
    '\x00' ∈ s.toList ↔ ∃ p ∈ (ofText s).steps, '\x00' ∈ p.toList := by
  rw [steps_ofText, ← mem_splitSlashes (by decide) s.toList]
  constructor
  · intro h
    obtain ⟨q, hq, hc⟩ := h
    refine ⟨String.ofList q, List.mem_filter.2 ⟨List.mem_map_of_mem hq, ?_⟩, by simpa using hc⟩
    cases hi : isIdle (String.ofList q) with
    | false => rfl
    | true => exact absurd (by simpa using hc) (nul_notMem_of_isIdle hi)
  · intro h
    obtain ⟨p, hp, hc⟩ := h
    obtain ⟨q, hq, rfl⟩ := List.mem_map.1 (List.mem_filter.1 hp).1
    exact ⟨q, hq, by simpa using hc⟩

/-- A slash is written between the two unless one is there or nothing is. -/
theorem join_cases (directory s : String) :
    (directory = "" ∧ join directory s = s) ∨
    (∃ front, directory.toList = front ++ ['/'] ∧
      (join directory s).toList = front ++ '/' :: s.toList) ∨
    (directory.toList ≠ [] ∧ (join directory s).toList = directory.toList ++ '/' :: s.toList) := by
  simp only [join]
  split
  · next h =>
      cases Bool.or_eq_true_iff.1 h with
      | inl hempty =>
          obtain rfl := String.isEmpty_iff.1 hempty
          exact .inl ⟨rfl, String.empty_append⟩
      | inr hslash =>
          obtain ⟨front, hfront⟩ := List.getLast?_eq_some_iff.1 (eq_of_beq hslash)
          exact .inr (.inl ⟨front, hfront, by simp [hfront]⟩)
  · next h =>
      refine .inr (.inr ⟨fun hnil => h ?_, by simp⟩)
      simp [String.toList_eq_nil_iff.1 hnil]

theorem piecesOf_join (directory s : String) :
    ∃ front, piecesOf (join directory s).toList = front ++ piecesOf s.toList ∧
      front.filter (!isIdle ·) = (ofText directory).steps := by
  obtain ⟨rfl, hjoin⟩ | ⟨front, hfront, hjoin⟩ | ⟨-, hjoin⟩ := join_cases directory s
  · exact ⟨[], by simp [hjoin], by decide⟩
  · refine ⟨piecesOf front, by rw [hjoin, piecesOf_append_slash], ?_⟩
    rw [steps_ofText, hfront, piecesOf_append_slash]
    simp [show piecesOf [] = [""] from rfl, isIdle]
  · refine ⟨piecesOf directory.toList, ?_, (steps_ofText directory).symm⟩
    rw [hjoin, piecesOf_append_slash]

theorem steps_join (directory s : String) :
    (ofText (join directory s)).steps = (ofText directory).steps ++ (ofText s).steps := by
  obtain ⟨front, hp, hf⟩ := piecesOf_join directory s
  rw [steps_ofText, hp, List.filter_append, hf, steps_ofText s]

theorem anchor_join_of_ne_empty {directory : String} (hd : directory ≠ "") (s : String) :
    (ofText (join directory s)).anchor = .root ↔ (ofText directory).anchor = .root := by
  rw [anchor_ofText_eq_root_iff, anchor_ofText_eq_root_iff]
  obtain ⟨hempty, -⟩ | ⟨front, hfront, hjoin⟩ | ⟨hne, hjoin⟩ := join_cases directory s
  · exact absurd hempty hd
  · rw [hjoin, hfront]
    cases front <;> simp
  · rw [hjoin, List.head?_append_of_ne_nil _ hne]

section Name

variable {name : String} (hn : IsName name)
include hn

theorem IsName.piecesOf_toList : piecesOf name.toList = [name] :=
  piecesOf_eq_singleton hn.2.2.1

theorem IsName.steps_ofText : (ofText name).steps = [name] := by
  rw [Path.steps_ofText, hn.piecesOf_toList]
  simp [hn.1]

theorem IsName.anchor_join (directory : String) :
    (ofText (join directory name)).anchor = .root ↔ (ofText directory).anchor = .root := by
  by_cases hd : directory = ""
  · subst hd
    have : name.toList.head? ≠ some '/' := fun hs => hn.2.2.1 (List.mem_of_head? hs)
    simp [anchor_ofText_eq_root_iff, join, this]
  · exact anchor_join_of_ne_empty hd name

end Name

end SyncPlan.Path
