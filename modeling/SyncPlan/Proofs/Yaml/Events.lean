import SyncPlan.Yaml.Event

/-!
The events of a block mapping whose values are scalars and lists of scalars between brackets. The
grammar takes the tokens of each entry from the expectation of a key back to that expectation.
-/

namespace SyncPlan.Yaml

namespace Grammar

/-- The state of the grammar before any anchor or directive. -/
def expecting (wants : List Want) : Grammar := { wants }

/-- From one state some tokens give some events, and then the tokens behind them those of another
state. -/
def Gives (g : Grammar) (ts : List Token) (es : List Event) (h : Grammar) : Prop :=
  ∀ more, g.run (ts ++ more) = (es ++ (h.run more).1, (h.run more).2)

variable {g h k : Grammar} {t : Token} {ts us : List Token} {es fs : List Event}
  {want : Want} {rest : List Want}

theorem Gives.trans (hg : g.Gives ts es h) (hh : h.Gives us fs k) :
    g.Gives (ts ++ us) (es ++ fs) k := by
  intro more
  rw [List.append_assoc, hg, hh, List.append_assoc]

theorem Gives.nil (g : Grammar) : g.Gives [] [] g := fun _ => rfl

theorem gives_of_feed (hfeed : g.feed t = (es, some h)) : g.Gives [t] es h := by
  intro more
  rw [List.singleton_append, run, hfeed]

theorem feed_of_take (hstep : g.step want rest t = .take es h) (hwants : g.wants = want :: rest) :
    g.feed t = (es, some h) := by
  rw [feed.eq_def]
  split
  · next heq => simp [hwants] at heq
  · next heq =>
      obtain ⟨rfl, rfl⟩ := List.cons.inj (hwants.symm.trans heq)
      split <;> simp_all

theorem feed_of_pass (hstep : g.step want rest t = .pass es h) (hwants : g.wants = want :: rest) :
    g.feed t = (es ++ (h.feed t).1, (h.feed t).2) := by
  rw [feed.eq_def]
  split
  · next heq => simp [hwants] at heq
  · next heq =>
      obtain ⟨rfl, rfl⟩ := List.cons.inj (hwants.symm.trans heq)
      split <;> simp_all

theorem gives_of_take (hstep : g.step want rest t = .take es h)
    (hwants : g.wants = want :: rest) : g.Gives [t] es h :=
  gives_of_feed (feed_of_take hstep hwants)

/-- A token that is passed on and then taken. -/
theorem gives_of_pass {want' : Want} {rest' : List Want} (hpass : g.step want rest t = .pass [] h)
    (htake : h.step want' rest' t = .take es k) (hwants : g.wants = want :: rest)
    (hwants' : h.wants = want' :: rest') : g.Gives [t] es k := by
  apply gives_of_feed
  rw [feed_of_pass hpass hwants, feed_of_take htake hwants']
  rfl

variable {style : Style} {text : String}

theorem gives_streamStart : (expecting [.stream]).Gives [.streamStart] [] (expecting [.document]) :=
  gives_of_take rfl rfl

theorem gives_mappingOpen : (expecting [.document]).Gives [.mappingOpen] [.mappingStart none]
    (expecting [.key, .documentEnd]) :=
  gives_of_pass rfl rfl rfl rfl

/-- The key of an entry and the sign behind it. -/
theorem gives_key : (expecting (.key :: rest)).Gives [.key, .scalar style text, .value]
    [.scalar none none style text] (expecting (.valueNode :: rest)) := by
  have hkey : (expecting (.key :: rest)).Gives [.key] [] (expecting (.keyNode :: rest)) :=
    gives_of_take rfl rfl
  have hscalar : (expecting (.keyNode :: rest)).Gives [.scalar style text]
      [.scalar none none style text] (expecting (.value :: rest)) :=
    gives_of_pass rfl rfl rfl rfl
  have hvalue : (expecting (.value :: rest)).Gives [.value] [] (expecting (.valueNode :: rest)) :=
    gives_of_take rfl rfl
  exact (hkey.trans hscalar).trans hvalue

theorem gives_scalar : (expecting (.valueNode :: rest)).Gives [.scalar style text]
    [.scalar none none style text] (expecting (.key :: rest)) :=
  gives_of_pass rfl rfl rfl rfl

theorem gives_bracketOpen : (expecting (.valueNode :: rest)).Gives [.bracketOpen]
    [.sequenceStart none] (expecting (.bracketItem :: .key :: rest)) :=
  gives_of_pass rfl rfl rfl rfl

theorem gives_item : (expecting (.bracketItem :: rest)).Gives [.scalar style text]
    [.scalar none none style text] (expecting (.bracketNext :: rest)) :=
  gives_of_pass rfl rfl rfl rfl

theorem gives_comma : (expecting (.bracketNext :: rest)).Gives [.comma] []
    (expecting (.bracketItem :: rest)) :=
  gives_of_take rfl rfl

end Grammar
end SyncPlan.Yaml
