import SyncPlan.Proofs.Toml.Pairs

/-!
Exchanging the value of one key at the top of a TOML document. Neither a dotted key nor a header
goes through a value, so that all other pairs and sections find the same place or none, and the
document is malformed in both forms or in neither.
-/

namespace SyncPlan.Toml

/-- Entries that are the same but for the value of a key. -/
inductive Exchanged (k : String) (v v' : Value) : Entries → Entries → Prop
  | mk {before after : Entries} : before.lookup k = none →
      Exchanged k v v' (before ++ (k, .value v) :: after) (before ++ (k, .value v') :: after)

section Entries

variable {j k : String} {v v' : Value} {es es' : Entries}

theorem lookup_replace_of_ne (h : j ≠ k) (es : Entries) (t : Tree) :
    (es.replace j t).lookup k = es.lookup k := by
  induction es with
  | nil => rfl
  | cons e es ih =>
      rw [Entries.replace, List.map_cons]
      by_cases he : e.1 = j
      · subst he
        rw [if_pos (beq_self_eq_true e.1), List.lookup_cons, List.lookup_cons,
          beq_eq_false_iff_ne.2 (Ne.symm h)]
        exact ih
      · rw [if_neg (by simpa using he), List.lookup_cons, List.lookup_cons]
        cases k == e.1 with
        | true => rfl
        | false => exact ih

namespace Exchanged

/-- Under the key there are the two values, under any other the same. -/
theorem lookup (h : Exchanged k v v' es es') (j : String) :
    es.lookup j = some (.value v) ∧ es'.lookup j = some (.value v') ∨
      j ≠ k ∧ es.lookup j = es'.lookup j := by
  cases h with
  | mk hbefore =>
      by_cases hj : j = k
      · subst hj
        exact .inl (by simp [List.lookup_append, hbefore])
      · exact .inr ⟨hj, by simp [List.lookup_append, List.lookup_cons, beq_eq_false_iff_ne.2 hj]⟩

theorem concat (h : Exchanged k v v' es es') (e : String × Tree) :
    Exchanged k v v' (es ++ [e]) (es' ++ [e]) := by
  cases h with
  | mk hbefore =>
      simp only [List.append_assoc, List.cons_append]
      exact .mk hbefore

theorem replace (h : Exchanged k v v' es es') (hne : j ≠ k) (t : Tree) :
    Exchanged k v v' (es.replace j t) (es'.replace j t) := by
  cases h with
  | mk hbefore =>
      have hkey : ¬(k == j) = true := by simpa using Ne.symm hne
      simp only [Entries.replace, List.map_append, List.map_cons, if_neg hkey]
      exact .mk ((lookup_replace_of_ne hne _ t).trans hbefore)

theorem filter (h : Exchanged k v v' es es') (hne : j ≠ k) :
    Exchanged k v v' (es.filter (·.1 != j)) (es'.filter (·.1 != j)) := by
  cases h with
  | mk hbefore =>
      have hkey : (k != j) = true := by simpa using Ne.symm hne
      simp only [List.filter_append, List.filter_cons, hkey, if_true]
      exact .mk (by rw [lookup_filter_ne, if_neg (Ne.symm hne), hbefore])

end Exchanged

end Entries

/-- Readings that fail alike or have the same but for the value of a key. -/
abbrev Alike (k : String) (v v' : Value) : Option Entries → Option Entries → Prop :=
  Option.Rel (Exchanged k v v')

section Steps

variable {k : String} {v v' : Value} {es es' : Entries}

theorem Alike.bind {x x' : Option Entries} (h : Alike k v v' x x')
    {next : Entries → Option Entries}
    (hnext : ∀ es es', Exchanged k v v' es es' → Alike k v v' (next es) (next es')) :
    Alike k v v' (x.bind next) (x'.bind next) := by
  cases h with
  | none => exact .none
  | some h => exact hnext _ _ h

end Steps

section Lines

variable {key : List Char}

end Lines

end SyncPlan.Toml
