import SyncPlan.Proofs.Authority
import SyncPlan.Proofs.EndpointGrammar

/-!
Every key of an object store can be addressed. A key with its percent signs, question marks and
number signs coded, and any other characters coded or not, is read behind a plain bucket as the key
itself, also where it ends in characters that the check of the URI does not see.
-/

namespace SyncPlan.Endpoint
open Text

/-- The characters of plain buckets. -/
def IsBucketChar (c : Char) : Prop := c.isAlphanum = true ∨ c = '.' ∨ c = '-' ∨ c = '_'

instance : DecidablePred IsBucketChar := fun c =>
  inferInstanceAs (Decidable (c.isAlphanum = true ∨ c = '.' ∨ c = '-' ∨ c = '_'))

theorem notMem_forbidden_of_isBucketChar {c : Char} (h : IsBucketChar c) :
    c ∉ forbiddenHostCharacters := by
  have hno : forbiddenHostCharacters.all (fun d => decide (¬IsBucketChar d)) = true := by decide
  exact fun hmem => of_decide_eq_true (List.all_eq_true.1 hno c hmem) h

/-- A host without a colon has no port behind it. -/
theorem splitHost_of_notMem {host : List Char} (h : ':' ∉ host) (bracketed : Bool) :
    Uri.splitHost bracketed host = (host, []) := by
  induction host generalizing bracketed with
  | nil => rfl
  | cons c host ih =>
      rw [List.mem_cons, not_or] at h
      have hc : (c == ':') = false := by simpa using Ne.symm h.1
      rw [Uri.splitHost, ih h.2]
      simp [hc]

theorem hostFault?_of_notMem {host : List Char} (h : ∀ c ∈ host, c ∉ forbiddenHostCharacters) :
    Uri.hostFault? host = none := by
  have hplain : host.any Uri.isForbiddenInHost = false := by
    rw [List.any_eq_false]
    intro c hc
    rw [isForbiddenInHost_iff]
    exact h c hc
  rw [Uri.hostFault?.eq_def]
  split
  · next rest => exact absurd (by decide) (h '[' List.mem_cons_self)
  · rw [hplain]
    rfl

/-- The check of the URI finds no fault in a plain bucket, whatever stands behind its slash. -/
theorem authorityFault?_of_bucket {bucket : List Char}
    (h : ∀ c ∈ bucket, c ∉ forbiddenHostCharacters) (rest : List Char) :
    Uri.authorityFault? (bucket ++ '/' :: rest) = none := by
  have hends : ∀ c ∈ bucket, (!Uri.endsAuthority c) = true := by
    intro c hc
    have hno := h c hc
    simp only [forbiddenHostCharacters, List.mem_cons, List.not_mem_nil, or_false, not_or] at hno
    simp [Uri.endsAuthority, hno]
  have htake : (bucket ++ '/' :: rest).takeWhile (!Uri.endsAuthority ·) = bucket := by
    rw [List.takeWhile_append_of_pos hends, List.takeWhile_cons_of_neg (by decide),
      List.append_nil]
  have hat : '@' ∉ bucket := fun hmem => h '@' hmem (by decide)
  have hcolon : ':' ∉ bucket := fun hmem => h ':' hmem (by decide)
  rw [Uri.authorityFault?, htake, Uri.splitUserinfo_of_no_at hat]
  simp [splitHost_of_notMem hcolon, hostFault?_of_notMem h]

theorem seen_bucket {bucket : List Char} (h : ∀ c ∈ bucket, c ∉ forbiddenHostCharacters)
    (rest : List Char) :
    Uri.seen (bucket ++ '/' :: rest) = bucket ++ '/' :: Uri.seen rest := by
  have hkept : bucket.filter (!Uri.isIgnored ·) = bucket := by
    rw [List.filter_eq_self]
    intro c hc
    have hpassed : c ∉ passedOver := fun hmem => h c hc (passedOver_forbidden hmem)
    simp [isIgnored_eq_false hpassed]
  rw [Uri.seen, Uri.rdropWhile_append_cons rfl, List.filter_append, hkept,
    List.filter_cons_of_pos rfl, Uri.seen]

/-- No code has a character that ends a path. -/
theorem chars_of_codes {octets : List UInt8} {codes : List Char} (h : Codes octets codes) :
    ∀ c ∈ codes, c ≠ '?' ∧ c ≠ '#' := by
  have hquery : digitIn 16 '?' = none := by decide
  have hfragment : digitIn 16 '#' = none := by decide
  have hdigit {c : Char} {n : Nat} (hc : digitIn 16 c = some n) : c ≠ '?' ∧ c ≠ '#' := by
    constructor
    · intro heq
      simp [heq, hquery] at hc
    · intro heq
      simp [heq, hfragment] at hc
  induction h with
  | nil => simp
  | cons hhigh hlow _ ih =>
      intro c hc
      simp only [List.mem_cons] at hc
      obtain rfl | rfl | rfl | hc := hc
      · decide
      · exact hdigit hhigh
      · exact hdigit hlow
      · exact ih c hc

theorem chars_of_encodes {coded : Char → Prop} (hquery : coded '?') (hfragment : coded '#')
    {text written : List Char} (h : Encodes coded text written) :
    ∀ c ∈ written, c ≠ '?' ∧ c ≠ '#' := by
  induction h with
  | nil => simp
  | code _ hcodes _ ih =>
      intro c hc
      cases List.mem_append.1 hc with
      | inl hc => exact chars_of_codes hcodes c hc
      | inr hc => exact ih c hc
  | self hno _ ih =>
      intro c hc
      cases List.mem_cons.1 hc with
      | inl heq =>
          subst heq
          exact ⟨fun heq => hno (heq ▸ hquery), fun heq => hno (heq ▸ hfragment)⟩
      | inr hc => exact ih c hc

/-- The endpoint that names a key in a bucket. -/
def ofKey (bucket written : String) : String := "s3://" ++ bucket ++ "/" ++ written

theorem toList_ofKey (bucket written : String) : (ofKey bucket written).toList =
    ['s', '3'] ++ ':' :: '/' :: '/' :: (bucket.toList ++ '/' :: written.toList) := by
  simp [ofKey]

theorem fault?_ofKey {bucket : String} (h : ∀ c ∈ bucket.toList, c ∉ forbiddenHostCharacters)
    (written : String) : Uri.fault? (ofKey bucket written).toList = none := by
  have hscheme : IsStoreScheme ['s', '3'] := .inl rfl
  rw [toList_ofKey, fault?_of_isSchemeText hscheme.isSchemeText, seen_bucket h,
    authorityFault?_of_bucket h]

/-- The parts of this endpoint. -/
def keyParts {bucket written : String} (hne : bucket ≠ "")
    (hbucket : ∀ c ∈ bucket.toList, c ∉ forbiddenHostCharacters)
    (hwritten : ∀ c ∈ written.toList, c ≠ '?' ∧ c ≠ '#') : Parts where
  scheme := ['s', '3']
  userinfo := none
  bucket := bucket.toList
  path := some written.toList
  tail := []
  isStoreScheme := .inl rfl
  userinfo_chars := by simp
  bucket_ne_nil := by simpa using hne
  bucket_chars := by
    intro c hc
    have hno := hbucket c hc
    simp only [forbiddenHostCharacters, List.mem_cons, List.not_mem_nil, or_false, not_or] at hno
    simp [hno]
  path_chars := by
    intro r hr
    obtain rfl : written.toList = r := Option.some.inj hr
    exact hwritten
  tail_head := by simp

theorem text_keyParts {bucket written : String} (hne : bucket ≠ "")
    (hbucket : ∀ c ∈ bucket.toList, c ∉ forbiddenHostCharacters)
    (hwritten : ∀ c ∈ written.toList, c ≠ '?' ∧ c ≠ '#') :
    (keyParts hne hbucket hwritten).text = (ofKey bucket written).toList := by
  simp [toList_ofKey, keyParts, Parts.text, Parts.authority, behindUserinfo, behindSlash]

/-- Every key can be written with any characters coded, and whatever is written for it so names the
bucket and the key, if the percent sign, the question mark and the number sign are coded. -/
theorem readEndpoint_ofKey (side : Side) {coded : Char → Prop}
    (hcoded : coded '%' ∧ coded '?' ∧ coded '#') {bucket : String} (hne : bucket ≠ "")
    (hbucket : ∀ c ∈ bucket.toList, IsBucketChar c) (key : String) :
    (∃ written : String, Encodes coded key.toList written.toList) ∧
    ∀ written : String, Encodes coded key.toList written.toList →
      readEndpoint side (ofKey bucket written) = .ok (.objectStore bucket key) := by
  constructor
  · obtain ⟨written, h⟩ := exists_encodes coded key.toList
    exact ⟨String.ofList written, by simpa using h⟩
  · intro written h
    have hplain : ∀ c ∈ bucket.toList, c ∉ forbiddenHostCharacters :=
      fun c hc => notMem_forbidden_of_isBucketChar (hbucket c hc)
    have htext := text_keyParts hne hplain (chars_of_encodes hcoded.2.1 hcoded.2.2 h)
    apply readEndpoint_of_denotes
    refine ⟨fault?_ofKey hplain written, _, htext, key, standsFor_of_encodes hcoded.1 h, ?_⟩
    exact congrArg (Endpoint.objectStore · key) String.ofList_toList.symm

/-- The characters coded in the key of the endpoint below. -/
def CodedInAwkwardKey (c : Char) : Prop := c = '%' ∨ c = '?' ∨ c = '#' ∨ c = 'é'

instance : DecidablePred CodedInAwkwardKey := fun c =>
  inferInstanceAs (Decidable (c = '%' ∨ c = '?' ∨ c = '#' ∨ c = 'é'))

theorem encodes_awkwardKey :
    Encodes CodedInAwkwardKey "//%4?é😀@ \t".toList "//%254%3F%c3%A9😀@ \t".toList := by
  have hpercent : Codes (String.utf8EncodeChar '%') ['%', '2', '5'] := .cons rfl rfl .nil
  have hquery : Codes (String.utf8EncodeChar '?') ['%', '3', 'F'] := .cons rfl rfl .nil
  have hletter : Codes (String.utf8EncodeChar 'é') ['%', 'c', '3', '%', 'A', '9'] :=
    .cons rfl rfl (.cons rfl rfl .nil)
  have hend : Encodes CodedInAwkwardKey ['😀', '@', ' ', '\t'] ['😀', '@', ' ', '\t'] :=
    .self (by decide) (.self (by decide) (.self (by decide) (.self (by decide) .nil)))
  exact .self (by decide) (.self (by decide) (.code (by decide) hpercent (.self (by decide)
    (.code (by decide) hquery (.code (by decide) hletter hend)))))

/-- Slashes at its start, a percent sign before a digit, characters beyond ASCII and white space at
its end are all kept. -/
theorem readEndpoint_awkwardKey :
    (CodedInAwkwardKey '%' ∧ CodedInAwkwardKey '?' ∧ CodedInAwkwardKey '#') ∧
    (∀ c ∈ "b-1.x_Y".toList, IsBucketChar c) ∧
    readEndpoint .target "s3://b-1.x_Y///%254%3F%c3%A9😀@ \t" =
      .ok (.objectStore "b-1.x_Y" "//%4?é😀@ \t") := by
  have hcoded : CodedInAwkwardKey '%' ∧ CodedInAwkwardKey '?' ∧ CodedInAwkwardKey '#' := by decide
  have hall : "b-1.x_Y".toList.all (fun c => decide (IsBucketChar c)) = true := by decide
  have hbucket : ∀ c ∈ "b-1.x_Y".toList, IsBucketChar c := fun c hc =>
    of_decide_eq_true (List.all_eq_true.1 hall c hc)
  have hread := (readEndpoint_ofKey .target hcoded (by decide) hbucket _).2 _ encodes_awkwardKey
  exact ⟨hcoded, hbucket, hread⟩

end SyncPlan.Endpoint
