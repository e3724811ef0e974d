import SyncPlan.Endpoint
import SyncPlan.Proofs.UriCheck

/-!
The parts of an endpoint text with the scheme of an object store: the scheme, and the authority
behind two slashes. A text that is read as an object store has passed the check and has a bucket,
which is what stands in its own authority behind the user information.
-/

namespace SyncPlan.Endpoint

/-- A letter and scheme characters behind it. -/
def IsSchemeText (scheme : List Char) : Prop :=
  ∃ c rest, scheme = c :: rest ∧ c.isAlpha = true ∧ ∀ d ∈ rest, isSchemeChar d = true

/-- The authority that begins a text behind two slashes. -/
def authorityOf (rest : List Char) : List Char := rest.takeWhile (!Uri.endsAuthority ·)

theorem isSchemeChar_of_isAlpha {c : Char} (h : c.isAlpha = true) : isSchemeChar c = true := by
  simp [isSchemeChar, Char.isAlphanum, h]

theorem IsSchemeText.isSchemeChar {scheme : List Char} (h : IsSchemeText scheme) :
    ∀ c ∈ scheme, isSchemeChar c = true := by
  obtain ⟨c, rest, rfl, hc, hrest⟩ := h
  intro d hd
  cases List.mem_cons.1 hd with
  | inl he => exact he ▸ isSchemeChar_of_isAlpha hc
  | inr hm => exact hrest d hm

theorem ne_of_isSchemeChar {c d : Char} (h : isSchemeChar c = true)
    (hd : isSchemeChar d = false) : c ≠ d := by
  intro heq
  rw [← heq, h] at hd
  exact absurd hd (by decide)

theorem isControlOrSpace_of_isAlpha {c : Char} (h : c.isAlpha = true) :
    Uri.isControlOrSpace c = false := by
  have hall : ∀ n < 33, (Char.ofNat n).isAlpha = false := by decide
  rw [Uri.isControlOrSpace, decide_eq_false_iff_not]
  intro hle
  have hno := hall c.toNat (Nat.lt_succ_of_le hle)
  rw [Char.ofNat_toNat, h] at hno
  exact absurd hno (by decide)

theorem takeWhile_of_isSchemeText {scheme : List Char} (h : IsSchemeText scheme)
    (rest : List Char) : (scheme ++ ':' :: rest).takeWhile (· != ':') = scheme := by
  rw [List.takeWhile_append_of_pos, List.takeWhile_cons_of_neg (by simp), List.append_nil]
  intro c hc
  simpa using ne_of_isSchemeChar (h.isSchemeChar c hc) (by decide)

theorem dropWhile_of_isSchemeText {scheme : List Char} (h : IsSchemeText scheme)
    (rest : List Char) : (scheme ++ ':' :: rest).dropWhile (· != ':') = ':' :: rest := by
  rw [List.dropWhile_append_of_pos, List.dropWhile_cons_of_neg (by simp)]
  intro c hc
  simpa using ne_of_isSchemeChar (h.isSchemeChar c hc) (by decide)

theorem scheme?_eq_some_iff {cs scheme : List Char} :
    scheme? cs = some scheme ↔ IsSchemeText scheme ∧ ∃ rest, cs = scheme ++ ':' :: rest := by
  constructor
  · intro h
    rw [scheme?] at h
    split at h
    · simp at h
    · next c rest htake =>
        simp only [Bool.and_eq_true, List.all_eq_true, Option.ite_none_right_eq_some,
          Option.some.injEq, List.contains_iff_mem] at h
        obtain ⟨⟨⟨hcolon, hc⟩, hrest⟩, rfl⟩ := h
        refine ⟨⟨c, rest, rfl, hc, hrest⟩, (cs.dropWhile (· != ':')).tail, ?_⟩
        have hhead := List.head?_dropWhile_not (· != ':') cs
        have happend := List.takeWhile_append_dropWhile (p := (· != ':')) (l := cs)
        cases hdrop : cs.dropWhile (· != ':') with
        | nil =>
            rw [hdrop, htake, List.append_nil] at happend
            have : ':' ∈ cs.takeWhile (· != ':') := by rwa [htake, happend]
            exact absurd (List.mem_takeWhile_imp this) (by simp)
        | cons d ds =>
            obtain rfl : d = ':' := by simpa [hdrop] using hhead
            rw [← happend, htake, hdrop, List.tail_cons]
  · intro hparts
    obtain ⟨h, rest, rfl⟩ := hparts
    have htake := takeWhile_of_isSchemeText h rest
    obtain ⟨c, more, rfl, hc, hmore⟩ := h
    rw [scheme?, htake]
    simp [hc, List.all_eq_true.2 hmore]

theorem authority?_of_slashes {cs rest : List Char}
    (h : cs.dropWhile (· != ':') = ':' :: '/' :: '/' :: rest) :
    ∃ path, authority? cs = some (authorityOf rest, path) := by
  rw [authority?, h]
  refine ⟨_, congrArg some (Prod.ext ?_ rfl)⟩
  simp only [List.takeWhile_takeWhile, authorityOf, Uri.endsAuthority]
  congr 1
  funext c
  rw [Bool.eq_iff_iff]
  simp [and_assoc]

theorem slashes_of_authority? {cs : List Char} {parts : List Char × List Char}
    (h : authority? cs = some parts) :
    ∃ rest, cs.dropWhile (· != ':') = ':' :: '/' :: '/' :: rest := by
  rw [authority?] at h
  split at h
  · next rest heq => exact ⟨rest, heq⟩
  · simp at h

theorem clean_of_isSchemeText {scheme : List Char} (h : IsSchemeText scheme) (tail : List Char) :
    Uri.clean (scheme ++ ':' :: tail) = scheme ++ ':' :: Uri.seen tail := by
  have hscheme : scheme.filter (!Uri.isIgnored ·) = scheme := by
    rw [List.filter_eq_self]
    intro c hc
    have hne (d : Char) (hd : isSchemeChar d = false) : (c == d) = false := by
      simpa using ne_of_isSchemeChar (h.isSchemeChar c hc) hd
    simp [Uri.isIgnored, hne '\t' rfl, hne '\n' rfl, hne '\r' rfl]
  have hfirst : (scheme ++ ':' :: tail).dropWhile Uri.isControlOrSpace = scheme ++ ':' :: tail := by
    obtain ⟨c, more, rfl, hc, -⟩ := h
    rw [List.cons_append, List.dropWhile_cons_of_neg (by simp [isControlOrSpace_of_isAlpha hc])]
  rw [Uri.clean, Text.trimBy, hfirst]
  change ((scheme ++ ':' :: tail).rdropWhile Uri.isControlOrSpace).filter _ = _
  rw [Uri.rdropWhile_append_cons rfl, List.filter_append, hscheme]
  rfl

theorem seen_slashes (rest : List Char) :
    Uri.seen ('/' :: '/' :: rest) = '/' :: '/' :: Uri.seen rest := by
  have hdrop := Uri.rdropWhile_append_cons (p := Uri.isControlOrSpace) (c := '/') rfl ['/'] rest
  rw [List.singleton_append, List.singleton_append] at hdrop
  rw [Uri.seen, hdrop]
  rfl

/-- The check of a text behind a scheme is the check of what it sees of the authority. -/
theorem fault?_of_isSchemeText {scheme : List Char} (h : IsSchemeText scheme) (rest : List Char) :
    Uri.fault? (scheme ++ ':' :: '/' :: '/' :: rest) = Uri.authorityFault? (Uri.seen rest) := by
  rw [Uri.fault?, clean_of_isSchemeText h, dropWhile_of_isSchemeText h, seen_slashes]
  rfl

theorem read_of_isScheme {s : String} {scheme rest : List Char} (h : IsSchemeText scheme)
    (hs3 : isScheme "s3" scheme = true) (hs : s.toList = scheme ++ ':' :: rest) :
    read s = readObjectStore s.toList := by
  rw [read, scheme?_eq_some_iff.2 ⟨h, rest, hs⟩]
  simp [hs3]

/-- What the reading of an object store has made sure of. -/
theorem parts_of_read {s bucket path : String} (h : read s = .ok (.objectStore bucket path)) :
    ∃ scheme rest, IsSchemeText scheme ∧ isScheme "s3" scheme = true ∧
      s.toList = scheme ++ ':' :: '/' :: '/' :: rest ∧
      Uri.authorityFault? (Uri.seen rest) = none ∧
      bucket.toList = (Uri.splitUserinfo (authorityOf rest)).2 ∧ bucket.toList ≠ [] := by
  rw [read] at h
  split at h
  · simp at h
  · next scheme hscheme =>
      obtain ⟨hs, tail, htail⟩ := scheme?_eq_some_iff.1 hscheme
      split at h
      · next hs3 =>
          rw [readObjectStore] at h
          split at h
          · simp at h
          · next hfault =>
              split at h
              · simp at h
              · next authority rest hauthority =>
                  obtain ⟨more, hmore⟩ := slashes_of_authority? hauthority
                  obtain ⟨path, hpath⟩ := authority?_of_slashes hmore
                  rw [htail, dropWhile_of_isSchemeText hs] at hmore
                  obtain rfl := (List.cons.inj hmore).2
                  rw [htail, fault?_of_isSchemeText hs] at hfault
                  rw [hpath, Option.some.injEq, Prod.mk.injEq] at hauthority
                  obtain ⟨rfl, -⟩ := hauthority
                  refine ⟨scheme, more, hs, hs3, htail, hfault, ?_⟩
                  dsimp only at h
                  split at h
                  · simp at h
                  · next hne =>
                      split at h
                      · simp at h
                      · simp only [Except.ok.injEq, Endpoint.objectStore.injEq] at h
                        obtain ⟨rfl, -⟩ := h
                        simpa using hne
      · split at h <;> simp at h

end SyncPlan.Endpoint
