import SyncPlan.Proofs.Yaml.Pairs

/-!
Exchanging the value of one switch in a YAML document. An alias gives a node a second place, but not
this value as long as no alias is of its anchor, so that all other entries are read as before,
whatever they are and whether or not they fit.
-/

namespace SyncPlan.Yaml

/-- Whether an event is a whole node. -/
def Event.isLeaf : Event → Bool
  | .alias _ | .scalar .. => true
  | _ => false

/-- The events of so many nodes one after the other. -/
inductive Nodes : Nat → List Event → Prop
  | nil : Nodes 0 []
  | leaf {e : Event} {n : Nat} {es : List Event} : e.isLeaf = true → Nodes n es →
      Nodes (n + 1) (e :: es)
  | sequence {anchor : Option Nat} {m n : Nat} {items es : List Event} : Nodes m items →
      Nodes n es → Nodes (n + 1) (.sequenceStart anchor :: (items ++ .sequenceEnd :: es))
  | mapping {anchor : Option Nat} {m n : Nat} {items es : List Event} : Nodes m items →
      Nodes n es → Nodes (n + 1) (.mappingStart anchor :: (items ++ .mappingEnd :: es))

section Reading

variable {document : List Event} {wanted : Wanted} {seen : List Field} {o : Options}

theorem textOf_cons (e : Event) (rest : List Event) :
    textOf document (e :: rest) wanted = textOf document [e] wanted := by
  cases e <;> rfl

theorem textsFrom_cons {e : Event} (h : e ≠ .sequenceEnd) (rest : List Event) :
    textsFrom document (e :: rest) = (textOf document [e] .text).bind fun s =>
      (textsFrom document rest).map fun (more, rest) => (s :: more, rest) := by
  rw [textsFrom, textOf_cons]
  · cases textOf document [e] .text with
    | error d => rfl
    | ok s => cases textsFrom document rest <;> rfl
  · exact h

theorem ne_of_isLeaf {e e' : Event} (h : e.isLeaf = true) (h' : e'.isLeaf = false) : e ≠ e' := by
  rintro rfl
  simp [h'] at h

/-- Texts are read up to the first event that is no scalar and no alias. -/
theorem map_textsFrom_append {front : List Event} (h : ∃ e ∈ front, e.isLeaf = false) :
    ∃ result, ∀ rest, (textsFrom document (front ++ rest)).map Prod.fst = result := by
  induction front with
  | nil => simp at h
  | cons e front ih =>
      by_cases hend : e = .sequenceEnd
      · subst hend
        exact ⟨.ok [], fun rest => rfl⟩
      cases hleaf : e.isLeaf with
      | false =>
          refine ⟨.error (nodeDefect e .text), fun rest => ?_⟩
          rw [List.cons_append, textsFrom_cons hend]
          cases e <;> first | rfl | simp [Event.isLeaf] at hleaf
      | true =>
          obtain ⟨result, hresult⟩ := ih (by simpa [hleaf] using h)
          refine ⟨(textOf document [e] .text).bind fun s => result.map (s :: ·), fun rest => ?_⟩
          rw [List.cons_append, textsFrom_cons hend, ← hresult rest]
          cases textOf document [e] .text with
          | error d => rfl
          | ok s => cases textsFrom document (front ++ rest) <;> rfl

/-- What is read of a single node for a field. -/
def settingAt (document : List Event) (f : Field) (events : List Event) : Except Defect Setting :=
  match f, target document events with
  | .text f, _ => (textOf document events .text).map (.text f)
  | .list f, _ => (listOf document events).map (.list f)
  | .count f, e :: _ => (countOf e).map (.count f)
  | .number f, e :: _ => (numberOf e).map (.number f)
  | .switch f, e :: _ => (switchOf e).map (.switch f)
  | _, [] => .error .malformed

theorem settingFrom_of_ne {f : Field} {events : List Event}
    (h : ∀ g anchor rest, f = .list g → events ≠ .sequenceStart anchor :: rest) :
    settingFrom document f events =
      (settingAt document f events).map fun s => (s, events.drop 1) := by
  have hbind {α : Type} (x : Except Defect α) (make : α → Setting) :
      (do pure (make (← x), events.drop 1) : Except Defect (Setting × List Event)) =
        (x.map make).map fun s => (s, events.drop 1) := by
    cases x <;> rfl
  cases f with
  | text g => exact hbind (textOf document events .text) (.text g)
  | list g =>
      rw [settingFrom]
      · exact hbind (listOf document events) (.list g)
      · exact h
  | count g | number g | switch g =>
      simp only [settingFrom, settingAt]
      cases target document events with
      | nil => rfl
      | cons e rest => exact hbind _ _

theorem settingFrom_sequence (f : ListField) (anchor : Option Nat) (rest : List Event) :
    settingFrom document (.list f) (.sequenceStart anchor :: rest) =
      (textsFrom document rest).map fun (texts, rest) => (.list f texts, rest) := by
  rw [settingFrom]
  cases textsFrom document rest <;> rfl

end Reading

section Entries

variable {document : List Event} {seen : List Field} {o : Options}

theorem entriesFrom_of_ne {e : Event} (h : e ≠ .mappingEnd) (rest : List Event) :
    entriesFrom document seen o (e :: rest) = (textOf document [e] .fieldName).bind fun key =>
      match Field.ofKey? key with
      | none => .error (.unknownField key)
      | some f =>
        if seen.contains f then .error (.duplicateField f)
        else (settingFrom document f rest).bind fun (s, rest) =>
          entriesFrom document (f :: seen) (o.set s) rest := by
  rw [entriesFrom, textOf_cons]
  · cases textOf document [e] .fieldName with
    | error d => rfl
    | ok key =>
        simp only [bind, Except.bind]
        cases Field.ofKey? key with
        | none => rfl
        | some f =>
            simp only
            split
            · rfl
            · split
              · next heq => simp only [heq]
              · next heq => simp only [heq]
  · exact h

/-- A leaf of a document stands for a scalar, itself or as an alias of it. -/
inductive StandsFor (document : List Event) (s : Scalar) : Event → Prop
  | itself : StandsFor document s s.event
  | alias {n : Nat} {rest : List Event} : anchored n document = some (s.event :: rest) →
      StandsFor document s (.alias n)

theorem StandsFor.isLeaf {s : Scalar} {e : Event} (h : StandsFor document s e) :
    e.isLeaf = true := by
  cases h <;> rfl

end Entries

section Aliases

theorem suffix_of_anchored {n : Nat} {front nodes : List Event}
    (h : anchored n front = some nodes) : nodes <:+ front ∧ nodes ≠ [] := by
  induction front with
  | nil => simp [anchored] at h
  | cons e front ih =>
      rw [anchored] at h
      cases hlater : anchored n front with
      | some later =>
          obtain rfl : later = nodes := by simpa [hlater] using h
          obtain ⟨hsuffix, hne⟩ := ih hlater
          exact ⟨hsuffix.trans (List.suffix_cons e front), hne⟩
      | none =>
          simp only [hlater, Option.none_or, Option.ite_none_right_eq_some] at h
          obtain rfl := Option.some.inj h.2
          exact ⟨List.suffix_rfl, by simp⟩

/-- Events none of which is an alias of an anchor. -/
def Unshared (anchor : Option Nat) (events : List Event) : Prop :=
  ∀ n, anchor = some n → .alias n ∉ events

namespace Unshared

variable {anchor : Option Nat} {document events rest : List Event} {e : Event}

theorem of_suffix (h : Unshared anchor events) (hrest : rest <:+ events) : Unshared anchor rest :=
  fun n hn hmem => h n hn (hrest.subset hmem)

theorem tail (h : Unshared anchor (e :: rest)) : Unshared anchor rest :=
  h.of_suffix (List.suffix_cons e rest)

theorem of_mem (h : Unshared anchor events) (he : e ∈ events) : Unshared anchor [e] := by
  intro n hn hmem
  rw [List.mem_singleton] at hmem
  exact h n hn (hmem ▸ he)

theorem head (h : Unshared anchor (e :: rest)) : Unshared anchor [e] := h.of_mem List.mem_cons_self

theorem target (h : Unshared anchor document) (hevents : Unshared anchor events) :
    Unshared anchor (target document events) := by
  rw [Yaml.target.eq_def]
  split
  · next n _ =>
      cases hnodes : anchored n document with
      | none => exact fun _ _ hmem => by simp at hmem
      | some nodes => exact h.of_suffix (suffix_of_anchored hnodes).1
  · exact hevents

end Unshared

theorem suffix_of_textsFrom {document events rest : List Event} {texts : List String}
    (h : textsFrom document events = .ok (texts, rest)) : rest <:+ events := by
  induction events generalizing texts with
  | nil => simp [textsFrom] at h
  | cons e events ih =>
      by_cases hend : e = .sequenceEnd
      · subst hend
        obtain ⟨-, rfl⟩ := Prod.mk.inj (Except.ok.inj h)
        exact List.suffix_cons _ _
      rw [textsFrom_cons hend] at h
      cases htext : textOf document [e] .text with
      | error d => simp [htext, Except.bind] at h
      | ok s =>
          rw [htext] at h
          obtain ⟨⟨more, rest'⟩, hmore, hpair⟩ := map_eq_ok_iff.1 h
          obtain ⟨-, rfl⟩ := Prod.mk.inj hpair
          exact (ih hmore).trans (List.suffix_cons e events)

theorem suffix_of_settingFrom {document events rest : List Event} {f : Field} {s : Setting}
    (h : settingFrom document f events = .ok (s, rest)) : rest <:+ events := by
  by_cases hlist : ∃ g anchor more, f = .list g ∧ events = .sequenceStart anchor :: more
  · obtain ⟨g, anchor, more, rfl, rfl⟩ := hlist
    rw [settingFrom_sequence] at h
    obtain ⟨⟨texts, rest'⟩, htexts, hpair⟩ := map_eq_ok_iff.1 h
    obtain ⟨-, rfl⟩ := Prod.mk.inj hpair
    exact (suffix_of_textsFrom htexts).trans (List.suffix_cons _ _)
  · rw [settingFrom_of_ne fun g anchor rest hf he => hlist ⟨g, anchor, rest, hf, he⟩] at h
    obtain ⟨s', -, hpair⟩ := map_eq_ok_iff.1 h
    obtain ⟨-, rfl⟩ := Prod.mk.inj hpair
    exact List.drop_suffix 1 events

/-- Documents without an alias of some anchor, in which each alias leads to nodes that begin alike,
a list together with its end. -/
structure SameNodes (shared : Option Nat) (document document' : List Event) : Prop where
  unshared : Unshared shared document
  target : ∀ events, Unshared shared events → target document events = target document' events ∨
    ∃ e front back back', target document events = e :: (front ++ back) ∧
      target document' events = e :: (front ++ back') ∧
      ∀ anchor, e = .sequenceStart anchor → ∃ stop ∈ front, stop.isLeaf = false

variable {shared : Option Nat} {document document' events : List Event}

namespace SameNodes

theorem refl (h : Unshared shared document) : SameNodes shared document document :=
  ⟨h, fun _ _ => .inl rfl⟩

theorem textOf (h : SameNodes shared document document') (hevents : Unshared shared events)
    (wanted : Wanted) : textOf document events wanted = Yaml.textOf document' events wanted := by
  rw [Yaml.textOf, Yaml.textOf]
  obtain heq | ⟨e, front, back, back', htarget, htarget', -⟩ := h.target events hevents
  · rw [heq]
  · rw [htarget, htarget']
    cases e <;> rfl

theorem textsFrom (h : SameNodes shared document document') (hevents : Unshared shared events) :
    textsFrom document events = Yaml.textsFrom document' events := by
  induction events with
  | nil => rfl
  | cons e rest ih =>
      by_cases hend : e = .sequenceEnd
      · subst hend
        rfl
      · rw [textsFrom_cons hend, textsFrom_cons hend, h.textOf hevents.head, ih hevents.tail]

theorem listOf (h : SameNodes shared document document') (hevents : Unshared shared events) :
    listOf document events = Yaml.listOf document' events := by
  have hnodes := h.unshared.target hevents
  rw [Yaml.listOf, Yaml.listOf]
  obtain heq | ⟨e, front, back, back', htarget, htarget', hstop⟩ := h.target events hevents
  · rw [heq] at hnodes ⊢
    cases hevents' : Yaml.target document' events with
    | nil => rfl
    | cons e rest =>
        rw [hevents'] at hnodes
        cases e with
        | sequenceStart anchor => simp only [h.textsFrom hnodes.tail]
        | _ => rfl
  · rw [htarget] at hnodes ⊢
    rw [htarget']
    cases e with
    | sequenceStart anchor =>
        obtain ⟨result, hresult⟩ := @map_textsFrom_append document' _ (hstop anchor rfl)
        simp only [h.textsFrom hnodes.tail, hresult]
    | _ => rfl

theorem settingAt (h : SameNodes shared document document') (hevents : Unshared shared events)
    (f : Field) : settingAt document f events = Yaml.settingAt document' f events := by
  simp only [Yaml.settingAt, h.textOf hevents, h.listOf hevents]
  obtain heq | ⟨e, front, back, back', htarget, htarget', -⟩ := h.target events hevents
  · rw [heq]
  · rw [htarget, htarget']
    cases f <;> rfl

theorem settingFrom (h : SameNodes shared document document') (hevents : Unshared shared events)
    (f : Field) : settingFrom document f events = Yaml.settingFrom document' f events := by
  by_cases hlist : ∃ g anchor rest, f = .list g ∧ events = .sequenceStart anchor :: rest
  · obtain ⟨g, anchor, rest, rfl, rfl⟩ := hlist
    rw [settingFrom_sequence, settingFrom_sequence, h.textsFrom hevents.tail]
  · have hne : ∀ g anchor rest, f = .list g → events ≠ .sequenceStart anchor :: rest :=
      fun g anchor rest hf he => hlist ⟨g, anchor, rest, hf, he⟩
    rw [settingFrom_of_ne hne, settingFrom_of_ne hne, h.settingAt hevents]

/-- Entries come to the same but for a switch that was set otherwise before them. -/
theorem entriesFrom {g : SwitchField} {o o' : Options} (h : SameNodes shared document document')
    (ho : o.without g = o'.without g) (seen : List Field) (hevents : Unshared shared events) :
    SameBut g (entriesFrom document seen o events) (Yaml.entriesFrom document' seen o' events) := by
  -- On how many events are left, as a value may take several of them.
  induction hn : events.length using Nat.strong_induction_on generalizing seen o o' events with
  | _ n ih =>
      cases events with
      | nil =>
          rw [Yaml.entriesFrom, Yaml.entriesFrom]
          exact .failed _
      | cons e rest =>
          by_cases hend : e = .mappingEnd
          · subst hend
            rw [Yaml.entriesFrom, Yaml.entriesFrom]
            exact .given ho
          rw [entriesFrom_of_ne hend, entriesFrom_of_ne hend, h.textOf hevents.head]
          cases Yaml.textOf document' [e] .fieldName with
          | error d => exact .failed d
          | ok key =>
              simp only [Except.bind]
              cases Field.ofKey? key with
              | none => exact .failed _
              | some f =>
                  by_cases hseen : seen.contains f = true
                  · simp only [if_pos hseen]
                    exact .failed _
                  simp only [if_neg hseen, h.settingFrom hevents.tail]
                  cases hsetting : Yaml.settingFrom document' f rest with
                  | error d => exact .failed d
                  | ok setting =>
                      have hrest := suffix_of_settingFrom hsetting
                      refine ih _ ?_ (Options.without_set_congr ho setting.1) _
                        (hevents.tail.of_suffix hrest) rfl
                      rw [← hn, List.length_cons]
                      exact Nat.lt_succ_of_le hrest.length_le

end SameNodes

end Aliases

section Exchange

variable {front back : List Event} {value value' : Event}

theorem Nodes.concat {n : Nat} {es : List Event} (h : Nodes n es) {e : Event}
    (he : e.isLeaf = true) : Nodes (n + 1) (es ++ [e]) := by
  induction h with
  | nil => exact .leaf he .nil
  | leaf hleaf _ ih => exact .leaf hleaf ih
  | sequence hitems _ _ ih =>
      rw [List.cons_append, List.append_assoc]
      exact .sequence hitems ih
  | mapping hitems _ _ ih =>
      rw [List.cons_append, List.append_assoc]
      exact .mapping hitems ih

/-- What holds of the lists that begin behind an end holds of those before it as well. -/
theorem stops_of_suffix {items es rest : List Event} {anchor : Option Nat} {stop : Event}
    (hstop : stop.isLeaf = false) (hne : stop ≠ .sequenceStart anchor)
    (hbehind : .sequenceStart anchor :: rest <:+ es → ∃ stop ∈ rest, stop.isLeaf = false)
    (hrest : .sequenceStart anchor :: rest <:+ items ++ stop :: es) :
    ∃ stop ∈ rest, stop.isLeaf = false := by
  induction items with
  | nil =>
      obtain heq | hsuffix := List.suffix_cons_iff.1 hrest
      · exact absurd (List.cons.inj heq).1.symm hne
      · exact hbehind hsuffix
  | cons item items ih =>
      obtain heq | hsuffix := List.suffix_cons_iff.1 hrest
      · exact ⟨stop, by simp [(List.cons.inj heq).2], hstop⟩
      · exact ih hsuffix

/-- A list that begins in some nodes also ends in them. -/
theorem Nodes.stops {n : Nat} {es : List Event} (h : Nodes n es) {anchor : Option Nat}
    {rest : List Event} (hrest : .sequenceStart anchor :: rest <:+ es) :
    ∃ stop ∈ rest, stop.isLeaf = false := by
  induction h with
  | nil => simp at hrest
  | leaf hleaf _ ih =>
      obtain heq | hsuffix := List.suffix_cons_iff.1 hrest
      · exact absurd (List.cons.inj heq).1.symm (ne_of_isLeaf hleaf rfl)
      · exact ih hsuffix
  | sequence _ _ _ ih =>
      obtain heq | hsuffix := List.suffix_cons_iff.1 hrest
      · exact ⟨.sequenceEnd, by simp [(List.cons.inj heq).2], rfl⟩
      · exact stops_of_suffix rfl (by simp) ih hsuffix
  | mapping _ _ _ ih =>
      obtain heq | hsuffix := List.suffix_cons_iff.1 hrest
      · simp at heq
      · exact stops_of_suffix rfl (by simp) ih hsuffix

end Exchange

end SyncPlan.Yaml
