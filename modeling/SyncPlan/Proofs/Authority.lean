import SyncPlan.Plan
import SyncPlan.Proofs.EndpointParts

/-!
When the bucket of an object store is an authority: a host and perhaps a port, as a URI writes them.
The check of the URI does not see the ignored characters of the text and stops at a backslash behind
the port, while the bucket is cut from the text as it stands. So the bucket is an authority exactly
when it has none of the characters that the check passes over.
-/

namespace SyncPlan.Endpoint
open Text

/-- The code points that no host of a URL may have. -/
def forbiddenHostCharacters : List Char :=
  ['\x00', '\t', '\n', '\r', ' ', '#', '/', ':', '<', '>', '?', '@', '[', '\\', ']', '^', '|']

/-- An IPv6 address in brackets, or a text without forbidden characters. -/
def IsHost (host : List Char) : Prop :=
  host ≠ [] ∧
    ((∃ address, host = '[' :: address ++ [']'] ∧ Ipv6.isAddress address = true) ∨
      ∀ c ∈ host, c ∉ forbiddenHostCharacters)

def IsPort (port : List Char) : Prop :=
  port = [] ∨
    ∃ digits, port = ':' :: digits ∧ (∀ c ∈ digits, IsDigit 10 c) ∧ valueOf 10 digits ≤ 65535

/-- A host and perhaps a port, without user information. -/
def IsAuthority (cs : List Char) : Prop :=
  ∃ host port, cs = host ++ port ∧ IsHost host ∧ IsPort port

/-- The characters of a bucket that the check of the URI may pass over: those it ignores at the end
or anywhere, and the backslash that ends a port for it. -/
def passedOver : List Char := ['\x00', '\t', '\n', '\r', ' ', '\\']

/-- The check of the URI has seen all of a bucket that a host and a port can be judged by. Controls
at the end that a host may have do no harm unless a port stands before them. -/
def IsSeen (bucket : List Char) : Prop :=
  (∀ c ∈ bucket, c ∉ passedOver) ∧
    (':' ∈ bucket → ∀ c ∈ bucket.getLast?, Uri.isControlOrSpace c = false)

/-- The authority of a text, empty where it has none. -/
def authorityIn (cs : List Char) : List Char := ((authority? cs).map Prod.fst).getD []

theorem isForbiddenInHost_iff (c : Char) :
    Uri.isForbiddenInHost c = true ↔ c ∈ forbiddenHostCharacters := by
  have hmore : " #/:<>?@[\\]^|".toList =
      [' ', '#', '/', ':', '<', '>', '?', '@', '[', '\\', ']', '^', '|'] := rfl
  simp only [Uri.isForbiddenInHost, forbiddenHostCharacters, hmore, Bool.or_eq_true, beq_iff_eq,
    List.contains_iff_mem, List.mem_cons, List.not_mem_nil, or_false, or_assoc]

theorem passedOver_forbidden : passedOver ⊆ forbiddenHostCharacters := by decide

theorem notMem_passedOver_of_isAddressChar {c : Char} (h : Ipv6.IsAddressChar c) :
    c ∉ passedOver := by
  have hno : passedOver.all (fun d => decide (¬Ipv6.IsAddressChar d)) = true := by decide
  exact fun hc => of_decide_eq_true (List.all_eq_true.1 hno c hc) h

theorem notMem_passedOver_of_isDigit {c : Char} (h : IsDigit 10 c) : c ∉ passedOver := by
  have hno : passedOver.all (fun d => decide (¬IsDigit 10 d)) = true := by decide
  exact fun hc => of_decide_eq_true (List.all_eq_true.1 hno c hc) h

theorem isControlOrSpace_of_isDigit {c : Char} (h : IsDigit 10 c) :
    Uri.isControlOrSpace c = false := by
  have h0 : '0'.toNat = 48 := rfl
  simp only [IsDigit, h0] at h
  simp only [Uri.isControlOrSpace, decide_eq_false_iff_not]
  omega

theorem notMem_passedOver_of_isHost {host : List Char} (h : IsHost host) :
    ∀ c ∈ host, c ∉ passedOver := by
  intro c hc
  cases h.2 with
  | inl hbracketed =>
      obtain ⟨address, rfl, haddress⟩ := hbracketed
      simp only [List.cons_append, List.mem_cons, List.mem_append, List.not_mem_nil,
        or_false] at hc
      obtain rfl | hc | rfl := hc
      · decide
      · exact notMem_passedOver_of_isAddressChar (Ipv6.isAddressChar_of_isAddress haddress c hc)
      · decide
  | inr hplain => exact fun hpassed => hplain c hc (passedOver_forbidden hpassed)

theorem notMem_passedOver_of_isPort {port : List Char} (h : IsPort port) :
    ∀ c ∈ port, c ∉ passedOver := by
  intro c hc
  cases h with
  | inl hnil => simp [hnil] at hc
  | inr hdigits =>
      obtain ⟨digits, rfl, hall, -⟩ := hdigits
      cases List.mem_cons.1 hc with
      | inl heq =>
          subst heq
          decide
      | inr hmem => exact notMem_passedOver_of_isDigit (hall c hmem)

theorem getLast?_of_isAuthority {cs : List Char} (h : IsAuthority cs) (hcolon : ':' ∈ cs) :
    ∀ c ∈ cs.getLast?, Uri.isControlOrSpace c = false := by
  obtain ⟨host, port, rfl, hhost, hport⟩ := h
  cases hport with
  | inl hnil =>
      subst hnil
      rw [List.append_nil] at hcolon ⊢
      cases hhost.2 with
      | inl hbracketed =>
          obtain ⟨address, rfl, -⟩ := hbracketed
          simp only [List.getLast?_append, List.getLast?_singleton, Option.mem_def]
          intro c hc
          obtain rfl := Option.some.inj hc
          rfl
      | inr hplain => exact absurd (by decide) (hplain ':' hcolon)
  | inr hdigits =>
      obtain ⟨digits, rfl, hall, -⟩ := hdigits
      intro c hc
      rw [List.getLast?_append_of_ne_nil _ (List.cons_ne_nil _ _)] at hc
      cases List.mem_cons.1 (List.mem_of_mem_getLast? hc) with
      | inl heq =>
          subst heq
          rfl
      | inr hmem => exact isControlOrSpace_of_isDigit (hall c hmem)

theorem isSeen_of_isAuthority {cs : List Char} (h : IsAuthority cs) : IsSeen cs := by
  refine ⟨?_, getLast?_of_isAuthority h⟩
  obtain ⟨host, port, rfl, hhost, hport⟩ := h
  intro c hc
  cases List.mem_append.1 hc with
  | inl hc => exact notMem_passedOver_of_isHost hhost c hc
  | inr hc => exact notMem_passedOver_of_isPort hport c hc

theorem notMem_forbidden_of_isControlOrSpace {c : Char} (h : Uri.isControlOrSpace c = true)
    (hpassed : c ∉ passedOver) : c ∉ forbiddenHostCharacters := by
  have hcontrol : forbiddenHostCharacters.filter Uri.isControlOrSpace ⊆ passedOver := by decide
  exact fun hc => hpassed (hcontrol (List.mem_filter.2 ⟨hc, h⟩))

theorem ne_at_of_isControlOrSpace {c : Char} (h : Uri.isControlOrSpace c = true) : c ≠ '@' := by
  intro heq
  subst heq
  exact absurd h (by decide)

theorem isIgnored_eq_false {c : Char} (h : c ∉ passedOver) : Uri.isIgnored c = false := by
  simp only [passedOver, List.mem_cons, List.not_mem_nil, or_false, not_or] at h
  simp [Uri.isIgnored, h.2.1, h.2.2.1, h.2.2.2.1]

theorem isHost_of_hostFault? {host : List Char} (hne : host ≠ [])
    (h : Uri.hostFault? host = none) : IsHost host := by
  refine ⟨hne, ?_⟩
  cases Uri.hostFault?_eq_none h with
  | inl hbracketed => exact .inl hbracketed
  | inr hplain =>
      right
      intro c hc hmem
      rw [← isForbiddenInHost_iff, hplain c hc] at hmem
      exact absurd hmem (by decide)

/-- What stands behind the user information is what the check has seen there, and behind it the
controls at the end of the text that belong to the authority. -/
theorem place_of_seen {rest : List Char} (hfault : Uri.authorityFault? (Uri.seen rest) = none)
    (hpassed : ∀ c ∈ (Uri.splitUserinfo (authorityOf rest)).2, c ∉ passedOver) :
    ∃ host port back, (Uri.splitUserinfo (authorityOf rest)).2 = host ++ port ++ back ∧
      (∀ c ∈ back, Uri.isControlOrSpace c = true) ∧ Uri.hostFault? host = none ∧
      (port = [] ∨ ∃ digits, port = ':' :: digits ∧ host ≠ [] ∧
        Uri.portFault? digits = none) := by
  obtain ⟨front, back, hraw, hback, hseen⟩ := Uri.takeWhile_seen rest
  obtain ⟨host, port, hplace, hhost, hport⟩ := Uri.authorityFault?_eq_none hfault
  have hkept (c : Char) : (!Uri.isIgnored c) = false → (c != '@') = true := by
    intro hc
    simp only [Uri.isIgnored, Bool.not_eq_false', Bool.or_eq_true, beq_iff_eq] at hc
    obtain (rfl | rfl) | rfl := hc <;> rfl
  have hsplit : (Uri.splitUserinfo (authorityOf rest)).2 =
      front.rtakeWhile (· != '@') ++ back := by
    rw [Uri.splitUserinfo_snd, authorityOf, hraw, Uri.rtakeWhile_append]
    intro c hc
    simpa using ne_at_of_isControlOrSpace (hback c hc)
  have hall : ∀ c ∈ front.rtakeWhile (· != '@'), (!Uri.isIgnored c) = true := by
    intro c hc
    rw [isIgnored_eq_false (hpassed c (hsplit ▸ List.mem_append_left _ hc))]
    rfl
  rw [Uri.splitUserinfo_snd, hseen, Uri.rtakeWhile_filter hkept,
    List.filter_eq_self.2 hall] at hplace
  exact ⟨host, port, back, by rw [hsplit, hplace], hback, hhost, hport⟩

theorem isAuthority_of_parts {host port : List Char} (hne : host ++ port ≠ [])
    (hslash : '\\' ∉ host ++ port) (hhost : Uri.hostFault? host = none)
    (hport : port = [] ∨ ∃ digits, port = ':' :: digits ∧ host ≠ [] ∧
      Uri.portFault? digits = none) : IsAuthority (host ++ port) := by
  refine ⟨host, port, rfl, ?_⟩
  cases hport with
  | inl hnil =>
      subst hnil
      exact ⟨isHost_of_hostFault? (by simpa using hne) hhost, .inl rfl⟩
  | inr hdigits =>
      obtain ⟨digits, rfl, hhostne, hport⟩ := hdigits
      have hno : '\\' ∉ digits := fun hmem =>
        hslash (List.mem_append_right _ (List.mem_cons_of_mem _ hmem))
      exact ⟨isHost_of_hostFault? hhostne hhost,
        .inr ⟨digits, rfl, Uri.portFault?_eq_none hport hno⟩⟩

theorem isAuthority_of_controls {host port back : List Char} (hne : host ++ port ++ back ≠ [])
    (hcolon : ':' ∉ host ++ port ++ back)
    (hback : ∀ c ∈ back, Uri.isControlOrSpace c = true ∧ c ∉ passedOver)
    (hhost : Uri.hostFault? host = none)
    (hport : port = [] ∨ ∃ digits, port = ':' :: digits ∧ host ≠ [] ∧
      Uri.portFault? digits = none) : IsAuthority (host ++ port ++ back) := by
  have hnil : port = [] := by
    cases hport with
    | inl hnil => exact hnil
    | inr hdigits =>
        obtain ⟨digits, rfl, -⟩ := hdigits
        exact absurd (by simp) hcolon
  subst hnil
  rw [List.append_nil] at hcolon hne ⊢
  refine ⟨host ++ back, [], by simp, ⟨hne, .inr ?_⟩, .inl rfl⟩
  intro c hc
  cases List.mem_append.1 hc with
  | inr hmem => exact notMem_forbidden_of_isControlOrSpace (hback c hmem).1 (hback c hmem).2
  | inl hmem =>
      cases Uri.hostFault?_eq_none hhost with
      | inl hbracketed =>
          obtain ⟨address, rfl, haddress⟩ := hbracketed
          exact absurd (by simp [Ipv6.colon_mem_of_isAddress haddress]) hcolon
      | inr hplain =>
          intro hforbidden
          rw [← isForbiddenInHost_iff, hplain c hmem] at hforbidden
          exact absurd hforbidden (by decide)

theorem isAuthority_of_isSeen {rest : List Char}
    (hfault : Uri.authorityFault? (Uri.seen rest) = none)
    (hne : (Uri.splitUserinfo (authorityOf rest)).2 ≠ [])
    (hseen : IsSeen (Uri.splitUserinfo (authorityOf rest)).2) :
    IsAuthority (Uri.splitUserinfo (authorityOf rest)).2 := by
  obtain ⟨host, port, back, hplace, hback, hhost, hport⟩ := place_of_seen hfault hseen.1
  rw [hplace] at hne hseen ⊢
  by_cases hnil : back = []
  · subst hnil
    rw [List.append_nil] at hne hseen ⊢
    exact isAuthority_of_parts hne (fun hmem => hseen.1 _ hmem (by decide)) hhost hport
  · have hcolon : ':' ∉ host ++ port ++ back := by
      intro hcolon
      have hlast := hseen.2 hcolon (back.getLast hnil)
        (by rw [List.getLast?_append_of_ne_nil _ hnil, List.getLast?_eq_some_getLast hnil]; rfl)
      rw [hback _ (List.getLast_mem hnil)] at hlast
      exact absurd hlast (by decide)
    apply isAuthority_of_controls hne hcolon _ hhost hport
    intro c hc
    exact ⟨hback c hc, hseen.1 c (List.mem_append_right _ hc)⟩

theorem authorityFault?_of_authorityOf {cs : List Char} (h : authorityOf cs = []) :
    Uri.authorityFault? cs = none := by
  rw [authorityOf] at h
  simp [Uri.authorityFault?, h, Uri.splitUserinfo, Uri.splitHost, Uri.hostFault?]

theorem fault?_of_authorityIn {cs : List Char} (h : authorityIn (Uri.clean cs) = []) :
    Uri.fault? cs = none := by
  rw [Uri.fault?]
  split
  · next rest hrest =>
      obtain ⟨path, hpath⟩ := authority?_of_slashes hrest
      rw [authorityIn, hpath] at h
      exact authorityFault?_of_authorityOf h
  · rfl

theorem readObjectStore_eq_noBucket_iff {cs : List Char} (h : Uri.fault? cs = none) :
    readObjectStore cs = .error .noBucket ↔ (Uri.splitUserinfo (authorityIn cs)).2 = [] := by
  rw [readObjectStore, h, authorityIn]
  cases authority? cs with
  | none => simp [Uri.splitUserinfo]
  | some parts =>
      simp only [Option.map_some, Option.getD_some, List.isEmpty_iff]
      split
      · next hnil => simp [hnil]
      · next hne => split <;> simp [hne]

/-- An authority that the check does not see has no at sign, so the bucket is all of it. -/
theorem splitUserinfo_of_seen_nil {rest : List Char} (h : authorityOf (Uri.seen rest) = []) :
    (Uri.splitUserinfo (authorityOf rest)).2 = authorityOf rest := by
  obtain ⟨front, back, hraw, hback, hseen⟩ := Uri.takeWhile_seen rest
  rw [authorityOf, hseen, List.filter_eq_nil_iff] at h
  rw [Uri.splitUserinfo_snd, authorityOf, hraw, List.rtakeWhile_eq_self_iff]
  intro c hc
  cases List.mem_append.1 hc with
  | inl hc =>
      have hignored := h c hc
      simp only [Uri.isIgnored, Bool.not_eq_true', Bool.not_eq_false, Bool.or_eq_true,
        beq_iff_eq] at hignored
      obtain (rfl | rfl) | rfl := hignored <;> rfl
  | inr hc => simpa using ne_at_of_isControlOrSpace (hback c hc)

theorem read_eq_noBucket_iff {s : String} {scheme : List Char}
    (hscheme : scheme? s.toList = some scheme)
    (hs3 : isScheme "s3" scheme = true) (hblank : authorityIn (Uri.clean s.toList) = []) :
    read s = .error .noBucket ↔ authorityIn s.toList = [] := by
  obtain ⟨hs, tail, htail⟩ := scheme?_eq_some_iff.1 hscheme
  rw [read_of_isScheme hs hs3 htail, readObjectStore_eq_noBucket_iff (fault?_of_authorityIn hblank)]
  cases hparts : authority? s.toList with
  | none => simp [authorityIn, hparts, Uri.splitUserinfo]
  | some parts =>
      obtain ⟨rest, hrest⟩ := slashes_of_authority? hparts
      obtain ⟨path, hpath⟩ := authority?_of_slashes hrest
      have hraw : authorityIn s.toList = authorityOf rest := by rw [authorityIn, hpath]; rfl
      have hclean : authorityIn (Uri.clean s.toList) = authorityOf (Uri.seen rest) := by
        rw [htail, dropWhile_of_isSchemeText hs] at hrest
        have hseen := dropWhile_of_isSchemeText hs (Uri.seen tail)
        rw [(List.cons.inj hrest).2, seen_slashes] at hseen
        obtain ⟨cleanPath, hcleanPath⟩ := authority?_of_slashes hseen
        rw [htail, clean_of_isSchemeText hs, (List.cons.inj hrest).2, seen_slashes, authorityIn,
          hcleanPath]
        rfl
      rw [hraw, splitUserinfo_of_seen_nil (hclean ▸ hblank)]

/-- The bucket of an object store is an authority without user information exactly when the check
of the URI has seen all of it, and a text without an authority for the check is refused for want of
a bucket exactly when it has none as it stands. -/
theorem bucket_isAuthority_iff_isSeen (side : Side) (s : String) :
    (∀ bucket path, readEndpoint side s = .ok (.objectStore bucket path) →
      bucket ≠ "" ∧ (IsAuthority bucket.toList ↔ IsSeen bucket.toList)) ∧
    (∀ scheme, scheme? s.toList = some scheme → isScheme "s3" scheme = true →
      authorityIn (Uri.clean s.toList) = [] →
        (readEndpoint side s = .error (.endpoint side s .noBucket) ↔
          authorityIn s.toList = [])) := by
  constructor
  · intro bucket path h
    have hread : read s = .ok (.objectStore bucket path) := by
      rw [readEndpoint] at h
      split at h
      · next hread => rw [hread, Except.ok.inj h]
      · simp at h
    obtain ⟨scheme, rest, -, -, -, hfault, hbucket, hne⟩ := parts_of_read hread
    refine ⟨?_, isSeen_of_isAuthority, ?_⟩
    · intro hempty
      simp [hempty] at hne
    · rw [hbucket] at hne ⊢
      exact isAuthority_of_isSeen hfault hne
  · intro scheme hscheme hs3 hblank
    rw [← read_eq_noBucket_iff hscheme hs3 hblank, readEndpoint]
    cases read s with
    | ok e => simp
    | error fault => simp

theorem bucket_with_port_isAuthority :
    readEndpoint .source "s3://key@host:80/a" = .ok (.objectStore "host:80" "a") ∧
      IsAuthority "host:80".toList ∧
      readEndpoint .target "s3:///a" = .error (.endpoint .target "s3:///a" .noBucket) := by
  have hread : readEndpoint .source "s3://key@host:80/a" = .ok (.objectStore "host:80" "a") := by
    decide +kernel
  have hpassed : ∀ c ∈ ['h', 'o', 's', 't', ':', '8', '0'], c ∉ passedOver := by simp [passedOver]
  have hseen : IsSeen "host:80".toList := by
    refine ⟨hpassed, ?_⟩
    intro _ c hc
    obtain rfl : c = '0' := (Option.some.inj hc).symm
    decide
  obtain ⟨-, hbucket⟩ := (bucket_isAuthority_iff_isSeen .source _).1 _ _ hread
  have hblank := (bucket_isAuthority_iff_isSeen .target "s3:///a").2 ['s', '3'] (by decide +kernel)
    (by decide +kernel) (by decide +kernel)
  exact ⟨hread, hbucket.2 hseen, hblank.2 (by decide +kernel)⟩

/-- A tab in place of the authority is a bucket, although the check of the URI does not see it. -/
theorem blank_bucket_of_tab :
    readEndpoint .source "s3://\t/x" = .ok (.objectStore "\t" "x") ∧ ¬IsAuthority "\t".toList ∧
      authorityIn (Uri.clean "s3://\t/x".toList) = [] := by
  refine ⟨by decide +kernel, ?_, by decide +kernel⟩
  intro h
  exact (isSeen_of_isAuthority h).1 '\t' (by decide) (by decide)

end SyncPlan.Endpoint
