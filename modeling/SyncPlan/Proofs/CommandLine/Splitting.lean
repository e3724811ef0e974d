import SyncPlan.Proofs.CommandLine.Meaning

/-!
A command line is split into items in one way only. The names of arguments differ from one another,
none of them holds an equals sign, and a token with a name can stand neither for a value nor for two
dashes, so that each token tells what it is and how far its item reaches.
-/

namespace SyncPlan.CommandLine

theorem eq_of_short? {a b : Argument} {c : Char} (ha : a.short? = some c) (hb : b.short? = some c) :
    a = b :=
  Option.some.inj ((ofShort?_eq_some_iff.2 ha).symm.trans (ofShort?_eq_some_iff.2 hb))

theorem eq_of_long {a b : Argument} (ha : a ∈ Argument.named) (hb : b ∈ Argument.named)
    (h : a.long.toList = b.long.toList) : a = b := by
  have hlong : a.long = b.long := String.toList_inj.1 h
  exact Option.some.inj ((ofLong?_long a ha).symm.trans (hlong ▸ ofLong?_long b hb))

theorem takeWhile_long_append {a : Argument} (ha : a ∈ Argument.named) (v : List Char) :
    (a.long.toList ++ '=' :: v).takeWhile (· != '=') = a.long.toList := by
  rw [List.takeWhile_append_of_pos, List.takeWhile_cons_of_neg (by simp), List.append_nil]
  intro c hc
  simpa using fun heq : c = '=' => equals_notMem_long a ha (heq ▸ hc)

theorem long_ne_append {a b : Argument} (ha : a ∈ Argument.named) (v : List Char) :
    a.long.toList ≠ b.long.toList ++ '=' :: v := by
  intro h
  apply equals_notMem_long a ha
  rw [h]
  simp

theorem Cluster.unique {cs : List Char} {items others : List Item} {next next' : Option Argument}
    (h : Cluster cs items next) (h' : Cluster cs others next') : items = others ∧ next = next' := by
  induction h generalizing others next' with
  | nil =>
      cases h'
      exact ⟨rfl, rfl⟩
  | flag hshort hno _ ih =>
      cases h' with
      | flag hshort' _ hrest' =>
          obtain ⟨rfl, rfl⟩ := ih hrest'
          exact ⟨congrArg (fun a => Item.flag a :: _) (eq_of_short? hshort hshort'), rfl⟩
      | value hshort' hvalue' _ | last hshort' hvalue' =>
          simp [eq_of_short? hshort hshort', hvalue'] at hno
  | value hshort hvalue hne =>
      cases h' with
      | flag hshort' hno' _ => simp [eq_of_short? hshort hshort', hno'] at hvalue
      | value hshort' _ _ => exact ⟨by rw [eq_of_short? hshort hshort'], rfl⟩
      | last _ _ => exact absurd rfl hne
  | last hshort hvalue =>
      cases h' with
      | flag hshort' hno' _ => simp [eq_of_short? hshort hshort', hno'] at hvalue
      | value _ _ hne' => exact absurd rfl hne'
      | last hshort' _ => exact ⟨rfl, by rw [eq_of_short? hshort hshort']⟩

theorem not_cluster_dash {cs : List Char} {items : List Item} {next : Option Argument} :
    ¬Cluster ('-' :: cs) items next :=
  fun h => Reading.first_ne_dash h rfl

theorem Spells.unique {cs : List Char} {items others : List Item} {next next' : Option Argument}
    (h : Spells cs items next) (h' : Spells cs others next') : items = others ∧ next = next' := by
  -- No name has a sign in it and no cluster begins with a dash, so the spellings exclude each
  -- other.
  generalize hcs : cs = cs' at h'
  cases h with
  | @longValue a v ha hvalue =>
      cases h' with
      | @longValue b w hb _ =>
          have htoken : a.long.toList ++ '=' :: v.toList = b.long.toList ++ '=' :: w.toList := by
            simpa using hcs
          have hname := congrArg (List.takeWhile (· != '=')) htoken
          rw [takeWhile_long_append ha, takeWhile_long_append hb] at hname
          obtain rfl := eq_of_long ha hb hname
          have hv : v = w := by simpa [String.toList_inj] using htoken
          exact ⟨by rw [hv], rfl⟩
      | longLast hb _ | longFlag hb _ =>
          exact absurd (by simpa using hcs.symm) (long_ne_append hb v.toList)
      | short _ hcluster => exact absurd ((List.cons.inj hcs).2 ▸ hcluster) not_cluster_dash
  | @longLast a ha hvalue =>
      cases h' with
      | @longValue b w hb _ =>
          exact absurd (by simpa using hcs) (long_ne_append ha w.toList)
      | longLast hb _ => exact ⟨rfl, congrArg some (eq_of_long ha hb (by simpa using hcs))⟩
      | longFlag hb hno =>
          obtain rfl := eq_of_long ha hb (by simpa using hcs)
          simp [hno] at hvalue
      | short _ hcluster => exact absurd ((List.cons.inj hcs).2 ▸ hcluster) not_cluster_dash
  | @longFlag a ha hno =>
      cases h' with
      | @longValue b w hb _ =>
          exact absurd (by simpa using hcs) (long_ne_append ha w.toList)
      | longLast hb hvalue =>
          obtain rfl := eq_of_long ha hb (by simpa using hcs)
          simp [hno] at hvalue
      | longFlag hb _ => exact ⟨by rw [eq_of_long ha hb (by simpa using hcs)], rfl⟩
      | short _ hcluster => exact absurd ((List.cons.inj hcs).2 ▸ hcluster) not_cluster_dash
  | short _ hcluster =>
      cases h' with
      | longValue _ _ _ | longLast _ _ | longFlag _ _ =>
          exact absurd ((List.cons.inj hcs).2.symm ▸ hcluster) not_cluster_dash
      | short _ hcluster' => exact hcluster.unique ((List.cons.inj hcs).2.symm ▸ hcluster')

/-- A token with a name never stands for a value. -/
theorem Spells.not_isPlain {t : String} {items : List Item} {next : Option Argument}
    (h : Spells t.toList items next) : ¬IsPlain t := by
  intro hplain
  generalize hcs : t.toList = cs at h
  cases h with
  | longValue _ _ _ | longLast _ _ | longFlag _ _ => simpa using hplain _ hcs
  | short hne _ => exact hne (hplain _ hcs)

theorem dashes_not_spells {items : List Item} {next : Option Argument} :
    ¬Spells "--".toList items next :=
  fun h => Reading.ne_dashes_of_spells h rfl

theorem dashes_not_isPlain : ¬IsPlain "--" := fun h => Reading.ne_dashes_of_isPlain h rfl

/-- Tokens are accounted for by one list of items at most. -/
theorem Accounted.unique {ts : List String} {items others : List Item} (h : Accounted ts items)
    (h' : Accounted ts others) : others = items := by
  induction h generalizing others with
  | nil =>
      cases h'
      rfl
  | rest vs =>
      cases h' with
      | rest _ => rfl
      | named hspells _ | followed hspells _ _ => exact absurd hspells dashes_not_spells
      | place hplain _ => exact absurd hplain dashes_not_isPlain
  | named hspells _ ih =>
      cases h' with
      | rest _ => exact absurd hspells dashes_not_spells
      | named hspells' hrest' =>
          obtain ⟨rfl, -⟩ := hspells.unique hspells'
          rw [ih hrest']
      | followed hspells' _ _ => simpa using (hspells.unique hspells').2
      | place hplain _ => exact absurd hplain hspells.not_isPlain
  | followed hspells hplain _ ih =>
      cases h' with
      | rest _ => exact absurd hspells dashes_not_spells
      | named hspells' _ => simpa using (hspells.unique hspells').2
      | followed hspells' _ hrest' =>
          obtain ⟨rfl, heq⟩ := hspells.unique hspells'
          rw [ih hrest', Option.some.inj heq]
      | place hplain' _ => exact absurd hplain' hspells.not_isPlain
  | place hplain _ ih =>
      cases h' with
      | rest _ => exact absurd hplain dashes_not_isPlain
      | named hspells' _ | followed hspells' _ _ => exact absurd hplain hspells'.not_isPlain
      | place _ hrest' => rw [ih hrest']

/-- A command line that is read splits into items, in one way only, and gives what they say. No
token is passed over, read twice or taken for a name that it does not spell out. -/
theorem accounted_and_means_of_read {arguments : List String} {c : CommandLine}
    (h : read arguments = .ok c) :
    ∃ items, Accounted arguments items ∧ (∀ others, Accounted arguments others → others = items) ∧
      Means items c := by
  obtain ⟨items, haccounted⟩ := accounted_of_read h
  obtain ⟨r, hrun, hgiven⟩ := (read_eq_ok_iff haccounted).1 h
  refine ⟨items, haccounted, fun others hothers => haccounted.unique hothers, ?_⟩
  rw [← hgiven]
  exact means_of_run haccounted.isNamed hrun

theorem isPlain_of_head? {t : String} (h : t.toList.head? ≠ some '-') : IsPlain t := by
  intro cs hcs
  exact absurd (by rw [hcs, List.head?_cons]) h

theorem accounted_cluster_and_rest :
    Accounted ["-dw=3", "--filter-ext", "-", "a", "--", "-p"]
      [.flag (.field (.switch .debug)), .valued (.field (.count .workers)) "3",
        .valued (.field (.list .extensions)) "-", .place "a", .place "-p"] := by
  have hcluster : Spells "-dw=3".toList
      [.flag (.field (.switch .debug)), .valued (.field (.count .workers)) "3"] none :=
    .short (List.cons_ne_nil _ _) (.flag rfl rfl (.value rfl rfl (List.cons_ne_nil _ _)))
  have hlist : Spells "--filter-ext".toList [] (some (.field (.list .extensions))) :=
    @Spells.longLast (.field (.list .extensions)) (by decide) rfl
  have hdash : IsPlain "-" := by
    intro cs hcs
    simpa using hcs.symm
  exact .named hcluster (.followed hlist hdash
    (.place (isPlain_of_head? (by decide)) (.rest ["-p"])))

theorem means_cluster_and_rest :
    ∃ c, read ["-dw=3", "--filter-ext", "-", "a", "--", "-p"] = .ok c ∧
      Means [.flag (.field (.switch .debug)), .valued (.field (.count .workers)) "3",
        .valued (.field (.list .extensions)) "-", .place "a", .place "-p"] c := by
  have hok : (read ["-dw=3", "--filter-ext", "-", "a", "--", "-p"]).isOk = true := by
    decide +kernel
  cases hread : read ["-dw=3", "--filter-ext", "-", "a", "--", "-p"] with
  | error fault => simp [hread, Except.isOk, Except.toBool] at hok
  | ok c =>
      obtain ⟨items, -, hunique, hmeans⟩ := accounted_and_means_of_read hread
      exact ⟨c, rfl, hunique _ accounted_cluster_and_rest ▸ hmeans⟩

end SyncPlan.CommandLine
