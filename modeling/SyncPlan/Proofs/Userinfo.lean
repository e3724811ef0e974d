import SyncPlan.Proofs.EndpointParts

/-!
User information in front of a bucket. Only what stands behind the last at sign of an authority is
looked at, so an endpoint with user information is read as it is with any other in its place.
-/

namespace SyncPlan.Uri

theorem exists_last_of_mem {c : Char} {cs : List Char} (h : c ∈ cs) :
    ∃ front back, cs = front ++ c :: back ∧ c ∉ back := by
  obtain ⟨back, front, hcs, hno⟩ := List.eq_append_cons_of_mem (List.mem_reverse.2 h)
  refine ⟨front.reverse, back.reverse, ?_, by simpa using hno⟩
  rw [← List.reverse_reverse cs, hcs]
  simp

theorem rtakeWhile_append_cons {p : Char → Bool} {c : Char} (h : p c = false)
    (front rest : List Char) : (front ++ c :: rest).rtakeWhile p = rest.rtakeWhile p := by
  rw [List.rtakeWhile, List.rtakeWhile, List.reverse_append, List.reverse_cons, List.append_assoc,
    List.takeWhile_append, List.singleton_append, List.takeWhile_cons_of_neg (by simp [h]),
    List.append_nil]
  split
  · next hall => rw [(List.takeWhile_prefix _).eq_of_length hall]
  · rfl

theorem splitUserinfo_snd_at (u rest : List Char) :
    (splitUserinfo (u ++ '@' :: rest)).2 = rest.rtakeWhile (· != '@') := by
  rw [splitUserinfo_snd, rtakeWhile_append_cons (by decide)]

theorem rtakeWhile_of_notMem {cs : List Char} (h : '@' ∉ cs) :
    cs.rtakeWhile (· != '@') = cs := by
  rw [List.rtakeWhile_eq_self_iff]
  intro c hc
  rw [bne_iff_ne]
  exact fun heq => h (heq ▸ hc)

theorem splitUserinfo_of_notMem {back : List Char} (h : '@' ∉ back) (front : List Char) :
    splitUserinfo (front ++ '@' :: back) = (some front, back) := by
  have hback : ((front ++ '@' :: back).reverse.takeWhile (· != '@')).reverse = back :=
    (rtakeWhile_append_cons (by decide) front back).trans (rtakeWhile_of_notMem h)
  have hlength : (front ++ '@' :: back).length = front.length + (back.length + 1) := by simp
  have hfront : front.length + (back.length + 1) - back.length - 1 = front.length := by omega
  rw [splitUserinfo, hback, hlength, if_pos (by omega), hfront, List.take_left]

theorem isTelling_of_at_mem {u : List Char} (h : '@' ∈ u) : isTelling u = true := by
  cases u with
  | nil => simp at h
  | cons c rest =>
      cases rest with
      | nil =>
          obtain rfl : '@' = c := by simpa using h
          decide
      | cons d more => simp [isTelling]

/-- What is wrong with a host and a port behind user information that tells something. -/
def placeFault? (place : List Char) : Option UriFault :=
  let (host, port) := splitHost false place
  match hostFault? host, port with
  | some fault, _ => some fault
  | none, _ :: port => if host.isEmpty then some .emptyHost else portFault? port
  | none, [] => if host.isEmpty then some .emptyHost else none

theorem splitHost_cons_of_ne {c : Char} (h : c ≠ ':') (cs : List Char) :
    (splitHost false (c :: cs)).1.isEmpty = false := by
  rw [splitHost]
  simp [h]

theorem authorityFault?_of_isTelling {cs userinfo place : List Char}
    (hsplit : splitUserinfo (cs.takeWhile (!endsAuthority ·)) = (some userinfo, place))
    (htelling : isTelling userinfo = true) : authorityFault? cs = placeFault? place := by
  have hne : (some userinfo == some []) = false := by
    rw [isTelling, Bool.not_eq_true', Bool.or_eq_false_iff] at htelling
    simpa using htelling.1
  rw [authorityFault?, placeFault?]
  simp only [hsplit, hne, Bool.false_and, Option.any_some, htelling, Bool.and_true]
  cases hostFault? (splitHost false place).1 with
  | some fault => rfl
  | none => cases (splitHost false place).2 <;> rfl

theorem authorityFault?_of_host {cs userinfo place : List Char} {c : Char}
    (hsplit : splitUserinfo (cs.takeWhile (!endsAuthority ·)) = (some userinfo, c :: place))
    (hc : c ≠ ':') : authorityFault? cs = placeFault? (c :: place) := by
  have hhost := splitHost_cons_of_ne hc place
  rw [authorityFault?, placeFault?]
  simp only [hsplit, hhost, List.isEmpty_cons, Bool.and_false, Bool.false_and]
  cases hostFault? (splitHost false (c :: place)).1 with
  | some fault => rfl
  | none => cases (splitHost false (c :: place)).2 <;> rfl

/-- User information is any text without a character that ends an authority. -/
def IsUserinfo (u : List Char) : Prop := ∀ c ∈ u, endsAuthority c = false

theorem takeWhile_userinfo {u : List Char} (hu : IsUserinfo u) (rest : List Char) :
    (u ++ '@' :: rest).takeWhile (!endsAuthority ·) =
      u ++ '@' :: rest.takeWhile (!endsAuthority ·) := by
  rw [List.takeWhile_append_of_pos (fun c hc => by simp [hu c hc]),
    List.takeWhile_cons_of_pos (by decide)]

/-- What an authority with user information has for its place, which the check looks at alone. -/
theorem authorityFault?_userinfo {u : List Char} {c : Char} (hu : IsUserinfo u) (hcolon : c ≠ ':')
    (hend : endsAuthority c = false) (rest : List Char) :
    authorityFault? (u ++ '@' :: c :: rest) =
      placeFault? (((c :: rest).takeWhile (!endsAuthority ·)).rtakeWhile (· != '@')) := by
  have htake := takeWhile_userinfo hu (c :: rest)
  by_cases hat : '@' ∈ (c :: rest).takeWhile (!endsAuthority ·)
  · obtain ⟨front, back, hsplit, hno⟩ := exists_last_of_mem hat
    have hplace : (front ++ '@' :: back).rtakeWhile (· != '@') = back :=
      (rtakeWhile_append_cons (by decide) front back).trans (rtakeWhile_of_notMem hno)
    rw [hsplit, ← List.cons_append, ← List.append_assoc] at htake
    rw [hsplit, hplace]
    refine authorityFault?_of_isTelling (htake ▸ splitUserinfo_of_notMem hno _) ?_
    exact isTelling_of_at_mem (by simp)
  · have hsplit := splitUserinfo_of_notMem hat u
    rw [← htake, List.takeWhile_cons_of_pos (by simp [hend])] at hsplit
    rw [rtakeWhile_of_notMem hat, List.takeWhile_cons_of_pos (by simp [hend])]
    exact authorityFault?_of_host hsplit hcolon

theorem ne_of_isAlphanum {c d : Char} (h : c.isAlphanum = true) (hd : d.isAlphanum = false) :
    c ≠ d := by
  intro heq
  rw [heq, hd] at h
  exact absurd h (by decide)

theorem isControlOrSpace_of_isAlphanum {c : Char} (h : c.isAlphanum = true) :
    isControlOrSpace c = false := by
  have hall : ∀ n < 33, (Char.ofNat n).isAlphanum = false := by decide
  rw [isControlOrSpace, decide_eq_false_iff_not]
  intro hle
  have hno := hall c.toNat (Nat.lt_succ_of_le hle)
  rw [Char.ofNat_toNat, h] at hno
  exact absurd hno (by decide)

theorem isIgnored_of_isAlphanum {c : Char} (h : c.isAlphanum = true) : isIgnored c = false := by
  simp [isIgnored, ne_of_isAlphanum h]

theorem endsAuthority_of_isAlphanum {c : Char} (h : c.isAlphanum = true) :
    endsAuthority c = false := by
  simp [endsAuthority, ne_of_isAlphanum h]

theorem seen_userinfo {c : Char} (hc : c.isAlphanum = true) (u rest : List Char) :
    seen (u ++ '@' :: c :: rest) = u.filter (!isIgnored ·) ++ '@' :: c :: seen rest := by
  have hdrop := rdropWhile_append_cons (isControlOrSpace_of_isAlphanum hc) (u ++ ['@']) rest
  simp only [List.append_assoc, List.singleton_append] at hdrop
  rw [seen, hdrop, List.filter_append, List.filter_cons_of_pos (by decide),
    List.filter_cons_of_pos (by simp [isIgnored_of_isAlphanum hc]), seen]

end SyncPlan.Uri

namespace SyncPlan.Endpoint
open Uri

theorem authority?_userinfo {scheme u : List Char} (h : IsSchemeText scheme) (hu : IsUserinfo u)
    (rest : List Char) :
    authority? (scheme ++ ':' :: '/' :: '/' :: (u ++ '@' :: rest)) =
      some (u ++ '@' :: (rest.takeWhile fun c => c != '?' && c != '#').takeWhile (· != '/'),
        (rest.takeWhile fun c => c != '?' && c != '#').dropWhile (· != '/')) := by
  have hends : ∀ c ∈ u, c ≠ '/' ∧ c ≠ '?' ∧ c ≠ '#' := by
    intro c hc
    simpa [endsAuthority, and_assoc] using hu c hc
  have hslash : ∀ c ∈ u, (c != '/') = true := fun c hc => by simp [(hends c hc).1]
  have hquery : ∀ c ∈ u, (c != '?' && c != '#') = true := fun c hc => by simp [(hends c hc).2]
  rw [authority?, dropWhile_of_isSchemeText h]
  simp only [List.takeWhile_append_of_pos hquery]
  rw [List.takeWhile_cons_of_pos (by decide), List.takeWhile_append_of_pos hslash,
    List.takeWhile_cons_of_pos (by decide), List.dropWhile_append_of_pos hslash,
    List.dropWhile_cons_of_pos (by decide)]

/-- Any two texts in the place of the user information are read alike. -/
theorem readObjectStore_userinfo {scheme u v : List Char} (h : IsSchemeText scheme)
    (hu : IsUserinfo u) (hv : IsUserinfo v) {c : Char} (hc : c.isAlphanum = true)
    (rest : List Char) :
    readObjectStore (scheme ++ ':' :: '/' :: '/' :: (u ++ '@' :: c :: rest)) =
      readObjectStore (scheme ++ ':' :: '/' :: '/' :: (v ++ '@' :: c :: rest)) := by
  have hkept (w : List Char) (hw : IsUserinfo w) : IsUserinfo (w.filter (!isIgnored ·)) :=
    fun d hd => hw d (List.mem_of_mem_filter hd)
  have hfault (w : List Char) (hw : IsUserinfo w) :
      fault? (scheme ++ ':' :: '/' :: '/' :: (w ++ '@' :: c :: rest)) =
        placeFault? (((c :: seen rest).takeWhile (!endsAuthority ·)).rtakeWhile (· != '@')) := by
    rw [fault?_of_isSchemeText h, seen_userinfo hc]
    exact authorityFault?_userinfo (hkept w hw) (ne_of_isAlphanum hc (by decide))
      (endsAuthority_of_isAlphanum hc) _
  rw [readObjectStore, readObjectStore, hfault u hu, hfault v hv, authority?_userinfo h hu,
    authority?_userinfo h hv]
  simp only [splitUserinfo_snd_at]

/-- The endpoint that names a bucket with user information in front of it. -/
def withUserinfo (u rest : String) : String := "s3://" ++ u ++ "@" ++ rest

theorem read_withUserinfo {u v rest : String} (hu : IsUserinfo u.toList) (hv : IsUserinfo v.toList)
    (hrest : ∃ c ∈ rest.toList.head?, c.isAlphanum = true) :
    read (withUserinfo u rest) = read (withUserinfo v rest) := by
  obtain ⟨c, hhead, hc⟩ := hrest
  obtain ⟨more, hmore⟩ := List.head?_eq_some_iff.1 hhead
  have hs3 : IsSchemeText "s3".toList := ⟨'s', ['3'], rfl, rfl, List.all_eq_true.1 (by decide)⟩
  have hparts (w : String) : (withUserinfo w rest).toList =
      "s3".toList ++ ':' :: '/' :: '/' :: (w.toList ++ '@' :: c :: more) := by
    simp [withUserinfo, hmore]
  rw [read_of_isScheme hs3 rfl (hparts u), read_of_isScheme hs3 rfl (hparts v), hparts, hparts,
    readObjectStore_userinfo hs3 hu hv hc]

end SyncPlan.Endpoint
