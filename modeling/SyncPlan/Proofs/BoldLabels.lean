import SyncPlan.Plan.Json
import SyncPlan.Plan.Lines
import SyncPlan.Proofs.Text.Decimal

/-!
The plan for people with its labels in bold and without. The two texts say the same: without the
sequences that turn bold on and off the one is the other. Each line has a pair of these sequences
around its label and no other, so that bold never goes past the end of a line, whatever the strings
are that the plan tells, as long as they do not hold the character that begins the sequences.
-/

namespace SyncPlan.Plan
open Text

/-- A text without the sequences that turn bold on and off. -/
def withoutBold : List Char → List Char
  | '\x1b' :: '[' :: '1' :: 'm' :: cs => withoutBold cs
  | '\x1b' :: '[' :: '0' :: 'm' :: cs => withoutBold cs
  | c :: cs => c :: withoutBold cs
  | [] => []

/-- What matters for where a text is in bold. -/
inductive Mark
  | on
  | off
  | lineEnd
  deriving DecidableEq, Repr

/-- The marks of a text in their order. -/
def marks : List Char → List Mark
  | '\x1b' :: '[' :: '1' :: 'm' :: cs => .on :: marks cs
  | '\x1b' :: '[' :: '0' :: 'm' :: cs => .off :: marks cs
  | '\n' :: cs => .lineEnd :: marks cs
  | _ :: cs => marks cs
  | [] => []

/-- A text without the character that begins the sequences. -/
def IsPlain (s : String) : Prop := '\x1b' ∉ s.toList

instance : DecidablePred IsPlain := fun s => inferInstanceAs (Decidable ('\x1b' ∉ s.toList))

/-- The strings that the plan for people tells have not the character that begins the sequences. -/
structure HasPlainStrings (p : Plan) : Prop where
  bucket : ∀ side, IsPlain (p.route.endpoint side).bucket
  path : ∀ side, IsPlain (p.route.endpoint side).path
  list : ∀ f, ∀ s ∈ p.options.list f, IsPlain s

section Sequences

variable {front cs : List Char}

theorem withoutBold_cons {c : Char} (h : c ≠ '\x1b') :
    withoutBold (c :: cs) = c :: withoutBold cs := by
  rw [withoutBold.eq_def]
  split <;> simp_all

theorem withoutBold_append (h : '\x1b' ∉ front) :
    withoutBold (front ++ cs) = front ++ withoutBold cs := by
  induction front with
  | nil => rfl
  | cons c front ih =>
      rw [List.mem_cons, not_or] at h
      rw [List.cons_append, withoutBold_cons (Ne.symm h.1), ih h.2, List.cons_append]

theorem marks_cons {c : Char} (h : c ≠ '\x1b') :
    marks (c :: cs) = (if c = '\n' then [Mark.lineEnd] else []) ++ marks cs := by
  rw [marks.eq_def]
  split <;> simp_all

/-- Plain characters have no marks but the ends of their lines. -/
theorem marks_append (h : '\x1b' ∉ front) :
    marks (front ++ cs) = List.replicate (front.count '\n') .lineEnd ++ marks cs := by
  induction front with
  | nil => rfl
  | cons c front ih =>
      rw [List.mem_cons, not_or] at h
      rw [List.cons_append, marks_cons (Ne.symm h.1), ih h.2]
      by_cases hc : c = '\n'
      · subst hc
        rw [List.count_cons_self, List.replicate_succ]
        rfl
      · rw [List.count_cons_of_ne hc, if_neg hc, List.nil_append]

end Sequences

/-- Marks of a text that is turned to bold and back so many times, and never in bold where a line
ends. -/
inductive Paired : Nat → List Mark → Prop
  | nil : Paired 0 []
  | lineEnd {n : Nat} {ms : List Mark} : Paired n ms → Paired n (.lineEnd :: ms)
  | pair {n : Nat} {ms : List Mark} : Paired n ms → Paired (n + 1) (.on :: .off :: ms)

theorem Paired.lineEnds {n : Nat} {ms : List Mark} (h : Paired n ms) (k : Nat) :
    Paired n (List.replicate k .lineEnd ++ ms) := by
  induction k with
  | zero => exact h
  | succ k ih => exact .lineEnd ih

theorem Paired.count {n : Nat} {ms : List Mark} (h : Paired n ms) :
    ms.count .on = n ∧ ms.count .off = n := by
  induction h with
  | nil => exact ⟨rfl, rfl⟩
  | lineEnd _ ih => simpa using ih
  | pair _ ih => simpa using ih

section Lines

variable {l : Line} {ls : List Line} {cs : List Char}

/-- A line that has no sequence but those around its label, and a label within a line. -/
structure Line.IsPlain (l : Line) : Prop where
  label : Plan.IsPlain (padded l.label)
  oneLine : '\n' ∉ (padded l.label).toList
  content : Plan.IsPlain l.content

theorem Line.toList_text_false (l : Line) :
    (l.text false).toList = (padded l.label).toList ++ ' ' :: l.content.toList := by
  simp [Line.text]

theorem Line.toList_text_true (l : Line) :
    (l.text true).toList = '\x1b' :: '[' :: '1' :: 'm' :: ((padded l.label).toList ++
      '\x1b' :: '[' :: '0' :: 'm' :: ' ' :: l.content.toList) := by
  simp [Line.text, boldOn, boldOff]

theorem Line.IsPlain.withoutBold_append (h : l.IsPlain) :
    withoutBold ((l.text true).toList ++ cs) = (l.text false).toList ++ withoutBold cs := by
  rw [l.toList_text_true, l.toList_text_false]
  simp only [List.cons_append, List.append_assoc, withoutBold, Plan.withoutBold_append h.label]
  rw [withoutBold_cons (by decide), Plan.withoutBold_append h.content]

/-- A line begins with its pair, and the rest of its marks are the line ends of what it says. -/
theorem Line.IsPlain.marks_append (h : l.IsPlain) :
    marks ((l.text true).toList ++ cs) =
      .on :: .off :: (List.replicate (l.content.toList.count '\n') .lineEnd ++ marks cs) := by
  rw [l.toList_text_true]
  simp only [List.cons_append, List.append_assoc, marks, Plan.marks_append h.label,
    List.count_eq_zero.2 h.oneLine, List.replicate_zero, List.nil_append]
  rw [marks_cons (by decide), Plan.marks_append h.content]
  rfl

theorem toList_join (bold : Bool) (ls : List Line) :
    ("\n".intercalate (ls.map (Line.text bold))).toList =
      ['\n'].intercalate (ls.map fun l => (l.text bold).toList) := by
  rw [String.toList_intercalate, List.map_map]
  rfl

theorem withoutBold_lines (h : ∀ l ∈ ls, l.IsPlain) :
    withoutBold (['\n'].intercalate (ls.map fun l => (l.text true).toList)) =
      ['\n'].intercalate (ls.map fun l => (l.text false).toList) := by
  -- The last line has no separator behind it, so that it is a case of its own.
  induction ls with
  | nil => rfl
  | cons l ls ih =>
      rw [List.forall_mem_cons] at h
      cases ls with
      | nil =>
          have hline := @Line.IsPlain.withoutBold_append l [] h.1
          simpa [withoutBold] using hline
      | cons l' ls =>
          simp only [List.map_cons, List.intercalate_cons_cons, List.append_assoc] at ih ⊢
          rw [h.1.withoutBold_append, List.singleton_append, withoutBold_cons (by decide), ih h.2,
            List.singleton_append]

theorem paired_lines (h : ∀ l ∈ ls, l.IsPlain) :
    Paired ls.length (marks (['\n'].intercalate (ls.map fun l => (l.text true).toList))) := by
  induction ls with
  | nil => exact .nil
  | cons l ls ih =>
      rw [List.forall_mem_cons] at h
      cases ls with
      | nil =>
          have hline := @Line.IsPlain.marks_append l [] h.1
          rw [List.append_nil] at hline
          simp only [List.map_cons, List.map_nil, List.intercalate_singleton, hline]
          exact .pair (Paired.nil.lineEnds _)
      | cons l' ls =>
          simp only [List.map_cons, List.intercalate_cons_cons, List.append_assoc] at ih ⊢
          rw [h.1.marks_append, List.singleton_append, marks_cons (by decide)]
          exact .pair (Paired.lineEnds (.lineEnd (ih h.2)) _)

end Lines

/-- The labels of the lines that every plan has. -/
def fixedLabels : List String := [
  "source:", "target:", "workers:", "on-fail:", "retries:", "acl:", "perms:", "bandwidth:"]

/-- The labels of the other lines, each with the condition for its line. -/
def optionalLabels (p : Plan) : List (String × Bool) := [
  ("objects:", 0 < p.options.count .objectRate),
  ("ext:", !(p.options.list .extensions).isEmpty || !(p.options.list .notExtensions).isEmpty),
  ("ct:", !(p.options.list .contentTypes).isEmpty || !(p.options.list .notContentTypes).isEmpty),
  ("filter:", p.options.switch .onlyModified),
  ("http2:", !p.usesHttp2)]

/-- All labels that a line may have. -/
def labels : List String := fixedLabels ++ ["objects:", "ext:", "ct:", "filter:", "http2:"]

/-- The labels whose condition holds. -/
def shownLabels (p : Plan) : List String :=
  p.optionalLabels.flatMap fun (label, holds) => if holds then [label] else []

section Labels

variable (p : Plan)

theorem map_label_filterLine (label : String) (only never : List String) :
    (filterLine label only never).map Line.label =
      if !only.isEmpty || !never.isEmpty then [label] else [] := by
  rw [filterLine]
  cases only.isEmpty <;> cases never.isEmpty <;> rfl

theorem map_label_lines : p.lines.map Line.label = fixedLabels ++ p.shownLabels := by
  have hobjects (l : Line) : (if p.options.count .objectRate = 0 then [] else [l]).map Line.label =
      if decide (0 < p.options.count .objectRate) then [l.label] else [] := by
    by_cases h : p.options.count .objectRate = 0
    · simp [h]
    · simp [h, UInt32.pos_iff_ne_zero]
  have hfilter (b : Bool) (l : Line) : (if b then [l] else []).map Line.label =
      if b then [l.label] else [] := by
    cases b <;> rfl
  have hhttp2 (b : Bool) (l : Line) : (if b then [] else [l]).map Line.label =
      if !b then [l.label] else [] := by
    cases b <;> rfl
  simp only [lines, List.map_append, map_label_filterLine, hobjects, hfilter, hhttp2, shownLabels,
    optionalLabels, List.flatMap_cons, List.flatMap_nil, List.append_assoc, List.append_nil]
  rfl

theorem length_shownLabels : p.shownLabels.length = p.optionalLabels.countP Prod.snd := by
  have hcount (conditions : List (String × Bool)) :
      (conditions.flatMap fun (label, holds) => if holds then [label] else []).length =
        conditions.countP Prod.snd := by
    induction conditions with
    | nil => rfl
    | cons condition conditions ih =>
        obtain ⟨label, holds⟩ := condition
        rw [List.flatMap_cons, List.length_append, ih, List.countP_cons]
        cases holds <;> simp [Nat.add_comm]
  exact hcount _

/-- A plan has eight lines, and one more for each condition that holds. -/
theorem length_lines : p.lines.length = 8 + p.optionalLabels.countP Prod.snd := by
  rw [← List.length_map Line.label, map_label_lines, List.length_append, length_shownLabels]
  rfl

theorem label_mem_labels : ∀ l ∈ p.lines, l.label ∈ labels := by
  intro l hl
  have hlabel : l.label ∈ p.lines.map Line.label := List.mem_map_of_mem hl
  rw [map_label_lines, List.mem_append] at hlabel
  rw [labels, List.mem_append]
  refine hlabel.imp_right fun hshown => ?_
  obtain ⟨condition, hcondition, hmem⟩ := List.mem_flatMap.1 hshown
  obtain ⟨label, holds⟩ := condition
  cases holds with
  | false => exact absurd hmem List.not_mem_nil
  | true => exact List.mem_singleton.1 hmem ▸ List.mem_map_of_mem (f := Prod.fst) hcondition

end Labels

section Plain

theorem isPlain_append {a b : String} (ha : IsPlain a) (hb : IsPlain b) : IsPlain (a ++ b) := by
  rw [IsPlain, String.toList_append, List.mem_append, not_or]
  exact ⟨ha, hb⟩

theorem isPlain_intercalate {sep : String} {texts : List String} (hsep : IsPlain sep)
    (h : ∀ s ∈ texts, IsPlain s) : IsPlain (sep.intercalate texts) := by
  induction texts with
  | nil => exact List.not_mem_nil
  | cons s texts ih =>
      rw [List.forall_mem_cons] at h
      cases texts with
      | nil => simpa using h.1
      | cons s' texts =>
          rw [String.intercalate_cons_cons]
          exact isPlain_append (isPlain_append h.1 hsep) (ih h.2)

theorem isPlain_of_isDigit {s : String} (h : ∀ c ∈ s.toList, IsDigit 10 c) : IsPlain s :=
  fun hmem => absurd (h _ hmem) (by decide)

theorem isPlain_repr (n : Nat) : IsPlain n.repr := by
  apply isPlain_of_isDigit
  rw [toList_repr]
  exact (isRun_digits n).2

theorem isPlain_mode (m : FileMode) : IsPlain m.text := by
  apply isPlain_of_isDigit
  intro c hc
  rw [FileMode.text, String.toList_ofList, List.mem_append] at hc
  cases hc with
  | inl hzero =>
      obtain ⟨-, rfl⟩ := List.mem_replicate.1 hzero
      decide
  | inr hdigit =>
      have h := (isDigit_and_valueOf_toDigits (by decide) (by decide) m.bits.toNat).1 c hdigit
      exact ⟨h.1, Nat.lt_of_lt_of_le h.2 (by decide)⟩

theorem isPlain_endpointText {e : Endpoint} (hbucket : IsPlain e.bucket) (hpath : IsPlain e.path) :
    IsPlain (endpointText e) := by
  cases e with
  | objectStore bucket path =>
      exact isPlain_append (isPlain_append (isPlain_append (by decide) hbucket) (by decide)) hpath
  | filesystem path => exact isPlain_append (by decide) hpath

theorem isPlain_bandwidthText (n : UInt64) : IsPlain (bandwidthText n) := by
  rw [bandwidthText]
  split
  · decide
  · exact isPlain_append (isPlain_repr n.toNat) (by decide)

theorem isPlain_filterLine {label : String} {only never : List String}
    (honly : ∀ s ∈ only, IsPlain s) (hnever : ∀ s ∈ never, IsPlain s) :
    ∀ l ∈ filterLine label only never, IsPlain l.content := by
  rw [filterLine]
  split
  · exact List.forall_mem_nil _
  · have hcomma : IsPlain "," := by decide
    rw [List.forall_mem_singleton]
    refine isPlain_append (isPlain_append (isPlain_append (isPlain_append ?_ ?_) ?_) ?_) ?_
    · decide
    · exact isPlain_intercalate hcomma honly
    · decide
    · exact isPlain_intercalate hcomma hnever
    · decide

theorem isPlain_content {p : Plan} (h : p.HasPlainStrings) : ∀ l ∈ p.lines, IsPlain l.content := by
  have hword : ∀ a : FailureAction, IsPlain a.word := by
    intro a
    cases a <;> decide
  have hlabel : ∀ c : AccessClass, IsPlain c.label := by
    intro c
    cases c <;> decide
  simp only [lines, List.forall_mem_append, List.forall_mem_cons, and_assoc]
  refine ⟨isPlain_endpointText (h.bucket .source) (h.path .source),
    isPlain_endpointText (h.bucket .target) (h.path .target), isPlain_repr _, hword _, ?_,
    hlabel _, ?_, isPlain_bandwidthText _, List.forall_mem_nil _, ?_,
    isPlain_filterLine (h.list _) (h.list _), isPlain_filterLine (h.list _) (h.list _), ?_, ?_⟩
  · refine isPlain_append (isPlain_append (isPlain_append ?_ ?_) ?_) ?_
    · exact isPlain_repr _
    · decide
    · exact isPlain_repr _
    · decide
  · refine isPlain_append (isPlain_append (isPlain_append ?_ ?_) ?_) ?_
    · decide
    · exact isPlain_mode _
    · decide
    · exact isPlain_mode _
  · split
    · exact List.forall_mem_nil _
    · exact List.forall_mem_singleton.2 (isPlain_append (isPlain_repr _) (by decide))
  · split
    · exact List.forall_mem_singleton.2 (by decide)
    · exact List.forall_mem_nil _
  · split
    · exact List.forall_mem_nil _
    · exact List.forall_mem_singleton.2 (by decide)

end Plain

theorem isPlain_lines {p : Plan} (h : p.HasPlainStrings) : ∀ l ∈ p.lines, l.IsPlain := by
  have hlabels : ∀ label ∈ labels, IsPlain (padded label) ∧ '\n' ∉ (padded label).toList := by
    decide
  intro l hl
  obtain ⟨hplain, honeLine⟩ := hlabels l.label (p.label_mem_labels l hl)
  exact ⟨hplain, honeLine, isPlain_content h l hl⟩

theorem toList_human (p : Plan) (bold : Bool) :
    (p.human bold).toList = ['\n'].intercalate (p.lines.map fun l => (l.text bold).toList) :=
  toList_join bold p.lines

/-- A plan with its labels in bold is the plan with plain labels but for the two sequences. Bold is
turned on and off in turns, on a line for each thing that the plan tells and never past its end. -/
theorem human_same_but_bold (p : Plan) (h : p.HasPlainStrings) :
    withoutBold (p.human true).toList = (p.human false).toList ∧
    Paired (8 + p.optionalLabels.countP Prod.snd) (marks (p.human true).toList) ∧
    (marks (p.human true).toList).count .on = (marks (p.human true).toList).count .off ∧
    ∃ rows : List String, p.human true = "\n".intercalate rows ∧
      rows.length = 8 + p.optionalLabels.countP Prod.snd ∧
      ∀ row ∈ rows, Paired 1 (marks row.toList) := by
  have hlines := isPlain_lines h
  have hpaired := paired_lines hlines
  rw [← toList_human, length_lines] at hpaired
  refine ⟨?_, hpaired, hpaired.count.1.trans hpaired.count.2.symm, ?_⟩
  · rw [toList_human, toList_human, withoutBold_lines hlines]
  · refine ⟨p.lines.map (Line.text true), rfl, ?_, ?_⟩
    · rw [List.length_map, length_lines]
    · intro row hrow
      obtain ⟨l, hl, rfl⟩ := List.mem_map.1 hrow
      have hone := @paired_lines [l] (List.forall_mem_singleton.2 (hlines l hl))
      simpa using hone

/-- A plan whose strings have line ends and look like labels and like the sequences without their
first character. -/
def oddPlan : Plan where
  options := (Options.default.set (.list .extensions ["[1m", "a\nb"])).set
    (.switch .disableHttp2 true)
  route := {
    accessClass := .storeDefault
    onFail := .skip
    bandwidth := 0
    source := .objectStore "b" "[0m\n     target: fs path=/"
    target := .filesystem "\n" }
  retryInterval := 5
  fileMode := ⟨0o644⟩
  directoryMode := ⟨0o755⟩
  usesHttp2 := false

theorem human_oddPlan :
    oddPlan.HasPlainStrings ∧
      withoutBold (oddPlan.human true).toList = (oddPlan.human false).toList ∧
      Paired 10 (marks (oddPlan.human true).toList) := by
  have hplain : oddPlan.HasPlainStrings := by
    refine ⟨?_, ?_, ?_⟩
    · intro side
      cases side <;> decide
    · intro side
      cases side <;> decide
    · intro f
      cases f <;> decide
  obtain ⟨hsame, hpaired, -⟩ := human_same_but_bold oddPlan hplain
  exact ⟨hplain, hsame, hpaired⟩

end SyncPlan.Plan
