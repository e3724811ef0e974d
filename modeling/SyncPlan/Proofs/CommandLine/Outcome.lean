import Mathlib.Data.List.Induction
import SyncPlan.Proofs.CommandLine.Splitting
import SyncPlan.Proofs.CommandLine.Taking

/-!
What comes of a command line that is made of valid items. It is read if nothing is given twice that
can be given only once, in whatever order its items stand and however each is spelled; otherwise
the first item that repeats an earlier one is the mistake.
-/

namespace SyncPlan.CommandLine

/-- The values that an argument can be given. -/
def Accepts : Argument → String → Prop
  | .config, v | .configDirectory, v => v ≠ ""
  | .format, v => ∃ f : Format, f.name = v
  | .field (.text _), _ | .field (.list _), _ => True
  | .field (.count _), v => ∃ k, DenotesCount v k
  | .field (.number _), v => ∃ k, DenotesNumber v k
  | .field (.switch _), _ | .help, _ | .version, _ => False

/-- An item of an argument with a name and a value that it can be given, of a switch, or of a value
without a name. -/
def Item.IsValid : Item → Prop
  | .valued a v => a ∈ Argument.named ∧ Accepts a v
  | .flag a => ∃ f, a = .field (.switch f)
  | .place _ => True

/-- An argument that an item repeats, behind items of which none repeats another. -/
def Repeats (items : List Item) (a : Argument) : Prop :=
  ∃ before item after, items = before ++ item :: after ∧ (onces before).Nodup ∧
    item.once? = some a ∧ a ∈ onces before

theorem exists_gives_iff {c : CommandLine} {a : Argument} {v : String} :
    (∃ c', c.Gives a v c') ↔ Accepts a v := by
  cases a with
  | config | configDirectory | format | help | version => simp [Gives, Accepts]
  | field f => cases f <;> simp [Gives, Accepts]

theorem Item.IsValid.isProper {item : Item} (h : item.IsValid) : item.IsProper := by
  cases item with
  | valued a v =>
      refine ⟨h.1, ?_⟩
      have haccepts := h.2
      cases a with
      | config | configDirectory | format => rfl
      | help | version => exact haccepts.elim
      | field f =>
          cases f with
          | switch f => exact haccepts.elim
          | _ => rfl
  | flag a => exact h
  | place v => trivial

theorem Item.IsProper.isNamed {item : Item} (h : item.IsProper) : item.IsNamed := by
  cases item with
  | valued a v => exact h.1
  | flag a => trivial
  | place v => trivial

section Step

variable {items : List Item} {item : Item} {r : Reading} (h : Says items r)
  (hproper : ∀ other ∈ items, other.IsProper)
include h hproper

theorem has_eq_false_of_notMem {a : Argument} (hitem : item.IsProper) (honce : item.once? = some a)
    (hmem : a ∉ onces items) : r.given.has a = false := by
  rw [← h.has_iff hproper (mem_named_of_once? hitem honce) (ne_list_of_once? hitem honce)] at hmem
  simpa using hmem

theorem has_of_mem {a : Argument} (hitem : item.IsProper) (honce : item.once? = some a)
    (hmem : a ∈ onces items) : r.given.has a = true :=
  (h.has_iff hproper (mem_named_of_once? hitem honce) (ne_list_of_once? hitem honce)).2 hmem

/-- A valid item that repeats nothing can be taken. -/
theorem exists_effect (hvalid : item.IsValid) (hplaces : (places (items ++ [item])).length ≤ 2)
    (hnew : ∀ a, item.once? = some a → a ∉ onces items) : ∃ r', r.Effect item r' := by
  cases item with
  | valued a v =>
      obtain ⟨c, hgives⟩ := exists_gives_iff.2 hvalid.2
      have hno : r.given.has a = false := by
        by_cases hlist : ∃ f, a = .field (.list f)
        · obtain ⟨f, rfl⟩ := hlist
          rfl
        · have honce : (Item.valued a v).once? = some a :=
            once?_valued_of_ne_list v fun f hf => hlist ⟨f, hf⟩
          exact has_eq_false_of_notMem h hproper hvalid.isProper honce (hnew a honce)
      exact ⟨_, c, give_eq_ok_iff.2 ⟨hno, hgives⟩, rfl⟩
  | flag a =>
      obtain ⟨f, rfl⟩ := hvalid
      have hflag : (Item.flag (.field (.switch f))).IsProper := ⟨f, rfl⟩
      exact ⟨_, f, rfl, has_eq_false_of_notMem h hproper hflag rfl (hnew _ rfl), rfl⟩
  | place v =>
      rw [places_concat_place, List.length_append, List.length_singleton, ← h.positions] at hplaces
      obtain ⟨f, hf⟩ := exists_fieldAt? (Nat.lt_of_succ_le hplaces)
      exact ⟨_, f, hf, rfl⟩

end Step

/-- Valid items can all be taken, one after the other, if none repeats another. -/
theorem exists_run {before items : List Item} {r : Reading} (h : Says before r)
    (hproper : ∀ item ∈ before, item.IsProper) (hvalid : ∀ item ∈ items, item.IsValid)
    (hplaces : (places (before ++ items)).length ≤ 2) (hnodup : (onces (before ++ items)).Nodup) :
    ∃ r', Reading.Run r items r' := by
  induction items generalizing before r with
  | nil => exact ⟨r, .nil⟩
  | cons item items ih =>
      rw [← List.singleton_append, ← List.append_assoc] at hplaces hnodup
      have hitem := hvalid item List.mem_cons_self
      have hfirst : (places (before ++ [item])).length ≤ 2 := by
        rw [length_places_append] at hplaces
        omega
      have hnew : ∀ a, item.once? = some a → a ∉ onces before := by
        intro a honce hmem
        rw [onces_append, onces_concat_of_once? honce] at hnodup
        have hconcat := hnodup.of_append_left
        rw [← List.concat_eq_append, List.nodup_concat] at hconcat
        exact hconcat.1 hmem
      obtain ⟨r₁, heffect⟩ := exists_effect h hproper hitem hfirst hnew
      have hmore : ∀ other ∈ before ++ [item], other.IsProper := by
        intro other hother
        cases List.mem_append.1 hother with
        | inl hmem => exact hproper other hmem
        | inr hmem => exact List.mem_singleton.1 hmem ▸ hitem.isProper
      obtain ⟨r', hrun⟩ := ih (h.concat hitem.isProper.isNamed heffect) hmore
        (fun other hother => hvalid other (List.mem_cons_of_mem item hother)) hplaces hnodup
      exact ⟨r', .cons heffect hrun⟩

/-- An item that repeats another is a mistake. -/
theorem Reading.take_eq_repeated {r : Reading} {items : List Item} {item : Item} {a : Argument}
    (h : Says items r) (hproper : ∀ other ∈ items, other.IsProper) (hnone : r.pending = none)
    (hitem : item.IsProper) (honce : item.once? = some a) (hmem : a ∈ onces items) :
    r.take item = .error (.repeated a) := by
  have hhas : r.given.has a = true := has_of_mem h hproper hitem honce hmem
  cases item with
  | valued b v =>
      obtain rfl := eq_of_once?_valued honce
      rw [take, attach, settle_of_pending hnone]
      simp [bind, Except.bind, give, hhas]
  | flag b =>
      obtain rfl := Option.some.inj honce
      rw [take, flag, settle_of_pending hnone]
      simp [bind, Except.bind, raise, hhas]
  | place v => simp [Item.once?] at honce

theorem exists_repeats {items : List Item} (h : ¬(onces items).Nodup) : ∃ a, Repeats items a := by
  -- From the end, because an item repeats those before it.
  induction items using List.reverseRecOn with
  | nil => exact absurd List.nodup_nil h
  | append_singleton items item ih =>
      by_cases hfront : (onces items).Nodup
      · cases honce : item.once? with
        | none =>
            rw [onces_append] at h
            exact absurd hfront (by simpa [onces, honce] using h)
        | some a =>
            rw [onces_concat_of_once? honce, ← List.concat_eq_append, List.nodup_concat] at h
            have hmem : a ∈ onces items := by
              by_contra hno
              exact h ⟨hno, hfront⟩
            exact ⟨a, items, item, [], rfl, hfront, honce, hmem⟩
      · obtain ⟨a, before, other, after, rfl, hrepeats⟩ := ih hfront
        exact ⟨a, before, other, after ++ [item], by simp, hrepeats⟩

/-- The first item that repeats another is the mistake of a command line of valid items. -/
theorem read_eq_repeated {arguments : List String} {items : List Item} {a : Argument}
    (haccounted : Accounted arguments items) (hvalid : ∀ item ∈ items, item.IsValid)
    (hplaces : (places items).length ≤ 2) (h : Repeats items a) :
    read arguments = .error (.repeated a) := by
  have hproper : ∀ item ∈ items, item.IsProper := fun item hitem => (hvalid item hitem).isProper
  have hstart : ({} : Reading).pending = none := rfl
  have htokens := Reading.tokens_eq haccounted hproper (r := {}) (by simpa using hplaces)
    (Reading.not_isOpen_of_pending hstart)
  obtain ⟨before, item, after, rfl, hnodup, honce, hmem⟩ := h
  have hbefore : ∀ other ∈ before, other.IsValid :=
    fun other hother => hvalid other (List.mem_append_left _ hother)
  have hfront : (places ([] ++ before)).length ≤ 2 := by
    rw [length_places_append] at hplaces
    rw [List.nil_append]
    omega
  obtain ⟨r, hrun⟩ := exists_run says_nil (by simp) hbefore hfront hnodup
  have hsaid : Says before r :=
    says_nil.append (fun other hother => (hbefore other hother).isProper.isNamed) hrun
  have htake : r.take item = .error (.repeated a) :=
    Reading.take_eq_repeated hsaid (fun other hother => (hbefore other hother).isProper)
      (hrun.pending.trans hstart) (hproper item (by simp)) honce hmem
  rw [List.foldlM_append, (Reading.foldlM_take_eq_ok_iff hstart).2 hrun] at htokens
  rw [read, htokens]
  simp [bind, Except.bind, htake, Except.map]

/-- A command line of valid items, at most two of them without a name, is read in whatever order
they stand and however they are spelled, and gives what they say. If one repeats an earlier one that
can be given only once, the first such item is the mistake. -/
theorem read_of_accounted {arguments : List String} {items : List Item}
    (haccounted : Accounted arguments items) (hvalid : ∀ item ∈ items, item.IsValid)
    (hplaces : (places items).length ≤ 2) :
    ((onces items).Nodup → ∃ c, read arguments = .ok c ∧ Means items c) ∧
      (¬(onces items).Nodup → ∃ a, Repeats items a ∧ read arguments = .error (.repeated a)) := by
  constructor
  · intro hnodup
    obtain ⟨r, hrun⟩ := exists_run says_nil (by simp) hvalid hplaces hnodup
    exact ⟨r.given, (read_eq_ok_iff haccounted).2 ⟨r, hrun, rfl⟩,
      means_of_run haccounted.isNamed hrun⟩
  · intro hrepeated
    obtain ⟨a, ha⟩ := exists_repeats hrepeated
    exact ⟨a, ha, read_eq_repeated haccounted hvalid hplaces ha⟩

theorem accounted_mixed_spellings :
    Accounted ["-pd", "--sk=a=b", "src", "--filter-ext=-x", "-fskip", "--workers", "7",
        "--filter-ext", "", "--output=json", "--", "-t"]
      [.flag (.field (.switch .progress)), .flag (.field (.switch .debug)),
        .valued (.field (.text .sourceKey)) "a=b", .place "src",
        .valued (.field (.list .extensions)) "-x", .valued (.field (.text .onFail)) "skip",
        .valued (.field (.count .workers)) "7", .valued (.field (.list .extensions)) "",
        .valued .format "json", .place "-t"] := by
  have hcluster : Spells "-pd".toList
      [.flag (.field (.switch .progress)), .flag (.field (.switch .debug))] none :=
    .short (List.cons_ne_nil _ _) (.flag rfl rfl (.flag rfl rfl .nil))
  have hkey : Spells "--sk=a=b".toList [.valued (.field (.text .sourceKey)) "a=b"] none :=
    @Spells.longValue (.field (.text .sourceKey)) "a=b" (by decide) rfl
  have hextension : Spells "--filter-ext=-x".toList
      [.valued (.field (.list .extensions)) "-x"] none :=
    @Spells.longValue (.field (.list .extensions)) "-x" (by decide) rfl
  have honFail : Spells "-fskip".toList [.valued (.field (.text .onFail)) "skip"] none :=
    .short (List.cons_ne_nil _ _) (.value rfl rfl (List.cons_ne_nil _ _))
  have hworkers : Spells "--workers".toList [] (some (.field (.count .workers))) :=
    @Spells.longLast (.field (.count .workers)) (by decide) rfl
  have hlist : Spells "--filter-ext".toList [] (some (.field (.list .extensions))) :=
    @Spells.longLast (.field (.list .extensions)) (by decide) rfl
  have hformat : Spells "--output=json".toList [.valued .format "json"] none :=
    @Spells.longValue .format "json" (by decide) rfl
  apply Accounted.named hcluster
  apply Accounted.named hkey
  apply Accounted.place (isPlain_of_head? (by decide))
  apply Accounted.named hextension
  apply Accounted.named honFail
  apply Accounted.followed hworkers (isPlain_of_head? (by decide))
  apply Accounted.followed hlist (isPlain_of_head? (by decide))
  exact .named hformat (.rest ["-t"])

theorem accounted_repeated_switch :
    Accounted ["-d", "src", "-pd"]
      [.flag (.field (.switch .debug)), .place "src", .flag (.field (.switch .progress)),
        .flag (.field (.switch .debug))] := by
  have hdebug : Spells "-d".toList [.flag (.field (.switch .debug))] none :=
    .short (List.cons_ne_nil _ _) (.flag rfl rfl .nil)
  have hcluster : Spells "-pd".toList
      [.flag (.field (.switch .progress)), .flag (.field (.switch .debug))] none :=
    .short (List.cons_ne_nil _ _) (.flag rfl rfl (.flag rfl rfl .nil))
  exact .named hdebug (.place (isPlain_of_head? (by decide)) (.named hcluster .nil))

theorem outcomes_of_mixed_spellings :
    (∃ c, read ["-pd", "--sk=a=b", "src", "--filter-ext=-x", "-fskip", "--workers", "7",
        "--filter-ext", "", "--output=json", "--", "-t"] = .ok c ∧
      Means [.flag (.field (.switch .progress)), .flag (.field (.switch .debug)),
        .valued (.field (.text .sourceKey)) "a=b", .place "src",
        .valued (.field (.list .extensions)) "-x", .valued (.field (.text .onFail)) "skip",
        .valued (.field (.count .workers)) "7", .valued (.field (.list .extensions)) "",
        .valued .format "json", .place "-t"] c) ∧
    ∃ a, Repeats [.flag (.field (.switch .debug)), .place "src",
        .flag (.field (.switch .progress)), .flag (.field (.switch .debug))] a ∧
      read ["-d", "src", "-pd"] = .error (.repeated a) := by
  have hseven : DenotesCount "7" 7 :=
    .inl ⟨7, ⟨['7'], .inl rfl, ⟨by decide, List.forall_mem_singleton.2 (by decide)⟩, rfl⟩, rfl⟩
  refine ⟨(read_of_accounted accounted_mixed_spellings ?_ (by decide)).1 (by decide),
    (read_of_accounted accounted_repeated_switch ?_ (by decide)).2 (by decide)⟩
  · simp only [List.forall_mem_cons, List.not_mem_nil, false_implies, implies_true, and_true]
    exact ⟨⟨.progress, rfl⟩, ⟨.debug, rfl⟩, ⟨by decide, trivial⟩, trivial, ⟨by decide, trivial⟩,
      ⟨by decide, trivial⟩, ⟨by decide, 7, hseven⟩, ⟨by decide, trivial⟩, ⟨by decide, .json, rfl⟩,
      trivial⟩
  · simp only [List.forall_mem_cons, List.not_mem_nil, false_implies, implies_true, and_true]
    exact ⟨⟨.debug, rfl⟩, trivial, ⟨.progress, rfl⟩, ⟨.debug, rfl⟩⟩

end SyncPlan.CommandLine
