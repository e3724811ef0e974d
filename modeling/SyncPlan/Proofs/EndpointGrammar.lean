import SyncPlan.Plan
import SyncPlan.Proofs.Text.Percent
import SyncPlan.Proofs.Text.Undecodable
import SyncPlan.Proofs.Userinfo

/-!
The grammar of endpoints in an object store. A text is put together from parts in at most one way,
and what it is read into are its bucket, as it stands, and its path, decoded. A text that is not
put together so has no bucket for the reader.
-/

namespace SyncPlan.Uri

theorem splitUserinfo_of_no_at {cs : List Char} (h : '@' ∉ cs) : splitUserinfo cs = (none, cs) := by
  have hhost : (cs.reverse.takeWhile (· != '@')).reverse = cs := rtakeWhile_of_notMem h
  rw [splitUserinfo, hhost, if_neg (Nat.lt_irrefl _)]

end SyncPlan.Uri

namespace SyncPlan.Endpoint
open Text

/-- A scheme of object stores, in any case. -/
def IsStoreScheme (scheme : List Char) : Prop := scheme = ['s', '3'] ∨ scheme = ['S', '3']

/-- The parts of an endpoint text. User information and a path may be left out; the tail is a query
or a fragment, or both. -/
@[ext]
structure Parts where
  scheme : List Char
  userinfo : Option (List Char)
  bucket : List Char
  path : Option (List Char)
  tail : List Char
  isStoreScheme : IsStoreScheme scheme
  userinfo_chars : ∀ u ∈ userinfo, ∀ c ∈ u, c ≠ '/' ∧ c ≠ '?' ∧ c ≠ '#'
  bucket_ne_nil : bucket ≠ []
  bucket_chars : ∀ c ∈ bucket, (c ≠ '/' ∧ c ≠ '?' ∧ c ≠ '#') ∧ c ≠ '@'
  path_chars : ∀ r ∈ path, ∀ c ∈ r, c ≠ '?' ∧ c ≠ '#'
  tail_head : ∀ c ∈ tail.head?, c = '?' ∨ c = '#'

/-- A bucket behind user information, if there is some. -/
def behindUserinfo (userinfo : Option (List Char)) (bucket : List Char) : List Char :=
  match userinfo with
  | some u => u ++ '@' :: bucket
  | none => bucket

/-- A path behind its slash, if there is one. -/
def behindSlash (path : Option (List Char)) : List Char :=
  match path with
  | some r => '/' :: r
  | none => []

namespace Parts

def authority (p : Parts) : List Char := behindUserinfo p.userinfo p.bucket

/-- The text that parts are put together to. -/
def text (p : Parts) : List Char :=
  p.scheme ++ ':' :: '/' :: '/' :: (p.authority ++ behindSlash p.path ++ p.tail)

/-- The path as it is written, empty where there is no slash. -/
def writtenPath (p : Parts) : List Char := p.path.getD []

end Parts

/-- A text is cut where the first character stands that stops the cut. -/
theorem takeWhile_append_of_head? {q : Char → Bool} {front rest : List Char}
    (hfront : ∀ c ∈ front, q c = true) (hrest : ∀ c ∈ rest.head?, q c = false) :
    (front ++ rest).takeWhile q = front ∧ (front ++ rest).dropWhile q = rest := by
  rw [List.takeWhile_append_of_pos hfront, List.dropWhile_append_of_pos hfront]
  cases rest with
  | nil => simp
  | cons c more => simp [hrest c rfl]

theorem splitUserinfo_behindUserinfo {bucket : List Char} (h : '@' ∉ bucket)
    (userinfo : Option (List Char)) :
    Uri.splitUserinfo (behindUserinfo userinfo bucket) = (userinfo, bucket) := by
  cases userinfo with
  | none => exact Uri.splitUserinfo_of_no_at h
  | some u => exact Uri.splitUserinfo_of_notMem h u

theorem exists_behindUserinfo (authority : List Char) :
    ∃ userinfo bucket, authority = behindUserinfo userinfo bucket ∧ '@' ∉ bucket := by
  by_cases hat : '@' ∈ authority
  · obtain ⟨front, back, rfl, hback⟩ := Uri.exists_last_of_mem hat
    exact ⟨some front, back, rfl, hback⟩
  · exact ⟨none, authority, rfl, hat⟩

theorem exists_behindSlash (cs : List Char) :
    ∃ path, cs.dropWhile (· != '/') = behindSlash path := by
  have hhead := List.head?_dropWhile_not (· != '/') cs
  cases hdrop : cs.dropWhile (· != '/') with
  | nil => exact ⟨none, rfl⟩
  | cons c r =>
      obtain rfl : c = '/' := by simpa [hdrop] using hhead
      exact ⟨some r, rfl⟩

theorem IsStoreScheme.isSchemeText {scheme : List Char} (h : IsStoreScheme scheme) :
    IsSchemeText scheme := by
  obtain rfl | rfl := h
  · exact ⟨'s', ['3'], rfl, rfl, List.all_eq_true.1 (by decide)⟩
  · exact ⟨'S', ['3'], rfl, rfl, List.all_eq_true.1 (by decide)⟩

theorem IsStoreScheme.isScheme {scheme : List Char} (h : IsStoreScheme scheme) :
    isScheme "s3" scheme = true := by
  obtain rfl | rfl := h <;> decide

theorem IsStoreScheme.length {scheme : List Char} (h : IsStoreScheme scheme) :
    scheme.length = 2 := by
  obtain rfl | rfl := h <;> rfl

namespace Parts

variable (p : Parts)

theorem at_notMem_bucket : '@' ∉ p.bucket := fun hmem => (p.bucket_chars '@' hmem).2 rfl

theorem authority_chars : ∀ c ∈ p.authority, c ≠ '/' ∧ c ≠ '?' ∧ c ≠ '#' := by
  intro c hc
  rw [authority] at hc
  cases hu : p.userinfo with
  | none =>
      rw [hu] at hc
      exact (p.bucket_chars c hc).1
  | some u =>
      rw [hu, behindUserinfo, List.mem_append, List.mem_cons] at hc
      obtain hc | rfl | hc := hc
      · exact p.userinfo_chars u hu c hc
      · decide
      · exact (p.bucket_chars c hc).1

theorem slashedPath_chars : ∀ c ∈ behindSlash p.path, c ≠ '?' ∧ c ≠ '#' := by
  intro c hc
  cases hpath : p.path with
  | none => simp [hpath, behindSlash] at hc
  | some r =>
      rw [hpath, behindSlash, List.mem_cons] at hc
      obtain rfl | hc := hc
      · decide
      · exact p.path_chars r hpath c hc

/-- The reader cuts a text where its parts meet. -/
theorem authority?_text : authority? p.text = some (p.authority, behindSlash p.path) := by
  have hbefore : ∀ c ∈ p.authority ++ behindSlash p.path, (c != '?' && c != '#') = true := by
    intro c hc
    cases List.mem_append.1 hc with
    | inl hc => simp [p.authority_chars c hc]
    | inr hc => simp [p.slashedPath_chars c hc]
  have htail : ∀ c ∈ p.tail.head?, (c != '?' && c != '#') = false := by
    intro c hc
    obtain rfl | rfl := p.tail_head c hc <;> rfl
  have hslash : ∀ c ∈ p.authority, (c != '/') = true := by
    intro c hc
    simp [p.authority_chars c hc]
  have hpath : ∀ c ∈ (behindSlash p.path).head?, (c != '/') = false := by
    intro c hc
    cases hp : p.path with
    | none => simp [behindSlash, hp] at hc
    | some r =>
        obtain rfl : '/' = c := by simpa [behindSlash, hp] using hc
        rfl
  rw [authority?, text, dropWhile_of_isSchemeText p.isStoreScheme.isSchemeText]
  simp only [(takeWhile_append_of_head? hbefore htail).1]
  rw [(takeWhile_append_of_head? hslash hpath).1, (takeWhile_append_of_head? hslash hpath).2]

theorem splitUserinfo_authority : Uri.splitUserinfo p.authority = (p.userinfo, p.bucket) :=
  splitUserinfo_behindUserinfo p.at_notMem_bucket p.userinfo

/-- A text has only one set of parts. -/
theorem text_injective {p q : Parts} (h : p.text = q.text) : p = q := by
  have hcut : (p.authority, behindSlash p.path) = (q.authority, behindSlash q.path) := by
    rw [← Option.some_inj, ← p.authority?_text, ← q.authority?_text, h]
  obtain ⟨hauthority, hslashed⟩ := Prod.mk.inj hcut
  have hsplit : (p.userinfo, p.bucket) = (q.userinfo, q.bucket) := by
    rw [← p.splitUserinfo_authority, ← q.splitUserinfo_authority, hauthority]
  obtain ⟨huserinfo, hbucket⟩ := Prod.mk.inj hsplit
  have hpath : p.path = q.path := by
    cases hp : p.path <;> cases hq : q.path <;> simp_all [behindSlash]
  have hlength : p.scheme.length = q.scheme.length := by
    rw [p.isStoreScheme.length, q.isStoreScheme.length]
  obtain ⟨hscheme, hrest⟩ := List.append_inj h hlength
  have htail : p.tail = q.tail := by
    rw [hauthority, hslashed] at hrest
    simpa using hrest
  exact Parts.ext hscheme huserinfo hbucket hpath htail

end Parts

/-- A text that the reader can cut is put together from parts, if a bucket is left. -/
theorem exists_parts {scheme rest authority slashed : List Char} (hscheme : IsStoreScheme scheme)
    (hcut : authority? (scheme ++ ':' :: rest) = some (authority, slashed))
    (hne : (Uri.splitUserinfo authority).2 ≠ []) :
    ∃ p : Parts, p.text = scheme ++ ':' :: rest := by
  obtain ⟨userinfo, bucket, rfl, hat⟩ := exists_behindUserinfo authority
  rw [splitUserinfo_behindUserinfo hat] at hne
  rw [authority?, dropWhile_of_isSchemeText hscheme.isSchemeText] at hcut
  split at hcut
  · next more heq =>
      obtain rfl := (List.cons.inj heq).2
      obtain ⟨hfront, hback⟩ := Prod.mk.inj (Option.some.inj hcut)
      obtain ⟨path, hpath⟩ := exists_behindSlash (more.takeWhile fun c => c != '?' && c != '#')
      obtain rfl : behindSlash path = slashed := hpath.symm.trans hback
      have hquery : ∀ c ∈ more.takeWhile fun c => c != '?' && c != '#', c ≠ '?' ∧ c ≠ '#' := by
        intro c hc
        simpa using List.mem_takeWhile_imp hc
      have hauthority : ∀ c ∈ behindUserinfo userinfo bucket, c ≠ '/' ∧ c ≠ '?' ∧ c ≠ '#' := by
        intro c hc
        rw [← hfront] at hc
        have hmem := (List.takeWhile_prefix (· != '/')).subset hc
        exact ⟨by simpa using List.mem_takeWhile_imp hc, hquery c hmem⟩
      have hbefore := List.takeWhile_append_dropWhile (p := (· != '/'))
        (l := more.takeWhile fun c => c != '?' && c != '#')
      have hall := List.takeWhile_append_dropWhile (p := fun c => c != '?' && c != '#') (l := more)
      rw [hfront, hback] at hbefore
      refine ⟨⟨scheme, userinfo, bucket, path, more.dropWhile fun c => c != '?' && c != '#',
        hscheme, ?_, hne, ?_, ?_, ?_⟩, ?_⟩
      · intro u hu c hc
        obtain rfl : userinfo = some u := hu
        exact hauthority c (List.mem_append_left _ hc)
      · intro c hc
        refine ⟨hauthority c ?_, fun heq => hat (heq ▸ hc)⟩
        cases userinfo with
        | none => exact hc
        | some u => exact List.mem_append_right _ (List.mem_cons_of_mem _ hc)
      · intro r hr c hc
        obtain rfl : path = some r := hr
        exact hquery c (hbefore ▸ List.mem_append_right _ (List.mem_cons_of_mem _ hc))
      · intro c hc
        have hhead := List.head?_dropWhile_not (fun c => c != '?' && c != '#') more
        rw [Option.mem_def.1 hc] at hhead
        simpa [imp_iff_not_or] using hhead
      · simp only [Parts.text, Parts.authority, hbefore, hall]
  · simp at hcut

/-- What a text put together from parts is read into. -/
theorem readObjectStore_text (p : Parts) : readObjectStore p.text =
    match Uri.fault? p.text with
    | some fault => .error (.uri fault)
    | none =>
      match decodePath p.writtenPath with
      | .error fault => .error (.path fault)
      | .ok path => .ok (.objectStore (String.ofList p.bucket) (String.ofList path)) := by
  have hpath : (behindSlash p.path).drop 1 = p.writtenPath := by
    rw [Parts.writtenPath]
    cases p.path <;> rfl
  have hbucket : p.bucket.isEmpty = false := by simpa using p.bucket_ne_nil
  rw [readObjectStore, p.authority?_text]
  cases Uri.fault? p.text with
  | some fault => rfl
  | none =>
      cases hdecode : decodePath p.writtenPath <;>
        simp only [p.splitUserinfo_authority, hbucket, hpath, hdecode, Bool.false_eq_true, if_false]

theorem readObjectStore_of_no_parts {scheme rest : List Char} (hscheme : IsStoreScheme scheme)
    (hno : ∀ p : Parts, p.text ≠ scheme ++ ':' :: rest) :
    readObjectStore (scheme ++ ':' :: rest) =
      match Uri.fault? (scheme ++ ':' :: rest) with
      | some fault => .error (.uri fault)
      | none => .error .noBucket := by
  rw [readObjectStore]
  cases Uri.fault? (scheme ++ ':' :: rest) with
  | some fault => rfl
  | none =>
      cases hcut : authority? (scheme ++ ':' :: rest) with
      | none => rfl
      | some cut =>
          have hnil : (Uri.splitUserinfo cut.1).2 = [] := by
            by_contra hne
            obtain ⟨p, hp⟩ := exists_parts hscheme hcut hne
            exact hno p hp
          simp [hnil]

theorem decodePath_eq_ok_iff {cs path : List Char} :
    decodePath cs = .ok path ↔ StandsFor (utf8 cs) (utf8 path) := by
  rw [decodePath, decodeUtf8, decodeUtf8From_eq_ok_iff, standsFor_iff]

/-- The place that a text names: the check of the URI finds no fault, and the bucket and the decoded
path are those of its parts. -/
def Denotes (cs : List Char) (e : Endpoint) : Prop :=
  Uri.fault? cs = none ∧ ∃ p : Parts, p.text = cs ∧
    ∃ path : String, StandsFor (utf8 p.writtenPath) (utf8 path.toList) ∧
      e = .objectStore (String.ofList p.bucket) path

/-- Why a text names no place: the first of a fault of the URI, the want of a bucket, and octets of
the path that are no text. -/
inductive FirstFault (cs : List Char) : EndpointFault → Prop
  | uri {fault : UriFault} : Uri.fault? cs = some fault → FirstFault cs (.uri fault)
  | noBucket : Uri.fault? cs = none → (∀ p : Parts, p.text ≠ cs) → FirstFault cs .noBucket
  | path {p : Parts} {octets : List UInt8} {fault : Utf8Fault} : Uri.fault? cs = none →
      p.text = cs → StandsFor (utf8 p.writtenPath) octets → IsUtf8Fault octets fault →
      FirstFault cs (.path fault)

/-- The words in which a fault is told. -/
inductive IsTold : EndpointFault → String → Prop
  | emptyHost : IsTold (.uri .emptyHost) "empty host"
  | badPort : IsTold (.uri .badPort) "invalid port number"
  | badIpv6 : IsTold (.uri .badIpv6) "invalid IPv6 address"
  | badHostCharacter : IsTold (.uri .badHostCharacter) "invalid domain character"
  | noBucket : IsTold .noBucket "missing bucket name"
  | invalid (width start : Nat) : IsTold (.path (.invalid width start))
      ("invalid utf-8 sequence of " ++ toString width ++ " bytes from index " ++ toString start)
  | incomplete (start : Nat) : IsTold (.path (.incomplete start))
      ("incomplete utf-8 byte sequence from index " ++ toString start)

theorem isTold_message (fault : EndpointFault) : IsTold fault fault.message := by
  cases fault with
  | uri fault =>
      cases fault with
      | emptyHost => exact .emptyHost
      | badPort => exact .badPort
      | badIpv6 => exact .badIpv6
      | badHostCharacter => exact .badHostCharacter
  | noBucket => exact .noBucket
  | path fault =>
      cases fault with
      | invalid width start => exact .invalid width start
      | incomplete start => exact .incomplete start

/-- How a text that names no place is refused: with its side, and with the text as it stands before
the words for its fault. -/
theorem message_endpoint (side : Side) (s : String) (fault : EndpointFault) :
    ∃ name reason, (side, name) ∈ [(Side.source, "source"), (.target, "target")] ∧
      IsTold fault reason ∧ (Refusal.endpoint side s fault).option = name ∧
      (Refusal.endpoint side s fault).message =
        "invalid " ++ name ++ " endpoint '" ++ s ++ "': " ++ reason := by
  refine ⟨side.name, fault.message, ?_, isTold_message fault, rfl, rfl⟩
  cases side <;> simp [Side.name]

theorem denotes_or_firstFault (cs : List Char) :
    (∃ e, Denotes cs e) ∨ ∃ fault, FirstFault cs fault := by
  cases hfault : Uri.fault? cs with
  | some fault => exact .inr ⟨_, .uri hfault⟩
  | none =>
      by_cases hparts : ∃ p : Parts, p.text = cs
      · obtain ⟨p, hp⟩ := hparts
        have hstands := standsFor_percentDecode (utf8 p.writtenPath)
        cases hdecode : decodeUtf8 (percentDecode (utf8 p.writtenPath)) with
        | error fault =>
            exact .inr ⟨_, .path hfault hp hstands (decodeUtf8_eq_error_iff.1 hdecode)⟩
        | ok path =>
            rw [decodeUtf8, decodeUtf8From_eq_ok_iff] at hdecode
            rw [hdecode] at hstands
            exact .inl ⟨_, hfault, p, hp, String.ofList path, by simpa using hstands, rfl⟩
      · exact .inr ⟨_, .noBucket hfault fun p hp => hparts ⟨p, hp⟩⟩

theorem read_of_denotes {s : String} {e : Endpoint} (h : Denotes s.toList e) : read s = .ok e := by
  obtain ⟨hfault, p, hp, path, hstands, rfl⟩ := h
  rw [read_of_isScheme p.isStoreScheme.isSchemeText p.isStoreScheme.isScheme hp.symm, ← hp]
  rw [← hp] at hfault
  simp only [readObjectStore_text, hfault, decodePath_eq_ok_iff.2 hstands, String.ofList_toList]

theorem readEndpoint_of_denotes {s : String} {e : Endpoint} (side : Side)
    (h : Denotes s.toList e) : readEndpoint side s = .ok e := by
  rw [readEndpoint, read_of_denotes h]

theorem readEndpoint_of_firstFault {s : String} {scheme rest : List Char} {fault : EndpointFault}
    (side : Side) (hscheme : IsStoreScheme scheme) (hs : s.toList = scheme ++ ':' :: rest)
    (h : FirstFault s.toList fault) :
    readEndpoint side s = .error (.endpoint side s fault) := by
  have hread : readObjectStore s.toList = .error fault := by
    cases h with
    | uri hfault => simp only [readObjectStore, hfault]
    | noBucket hfault hno =>
        rw [hs] at hfault hno ⊢
        rw [readObjectStore_of_no_parts hscheme hno, hfault]
    | path hfault hp hstands hoctets =>
        have hpath : decodePath _ = .error _ :=
          (standsFor_iff.1 hstands).symm ▸ decodeUtf8_eq_error_iff.2 hoctets
        rw [← hp] at hfault ⊢
        simp only [readObjectStore_text, hfault, hpath]
  rw [readEndpoint, read_of_isScheme hscheme.isSchemeText hscheme.isScheme hs, hread]

/-- A text with the scheme of an object store has at most one set of parts, and it is read exactly
into the place that they name. It is refused for the first reason why there is none, with its side,
the text as it stands and the words for this reason. -/
theorem readEndpoint_by_parts (side : Side) {s : String} {scheme rest : List Char}
    (hscheme : IsStoreScheme scheme) (hs : s.toList = scheme ++ ':' :: rest) :
    (∀ p q : Parts, p.text = s.toList → q.text = s.toList → p = q) ∧
    (∀ e, readEndpoint side s = .ok e ↔ Denotes s.toList e) ∧
    ∀ r, readEndpoint side s = .error r ↔
      ∃ fault name reason, FirstFault s.toList fault ∧ r = .endpoint side s fault ∧
        (side, name) ∈ [(Side.source, "source"), (.target, "target")] ∧ IsTold fault reason ∧
        r.option = name ∧
        r.message = "invalid " ++ name ++ " endpoint '" ++ s ++ "': " ++ reason := by
  have hrefused (fault : EndpointFault) (h : FirstFault s.toList fault) :
      readEndpoint side s = .error (.endpoint side s fault) :=
    readEndpoint_of_firstFault side hscheme hs h
  refine ⟨fun p q hp hq => Parts.text_injective (hp.trans hq.symm), ?_, ?_⟩
  · intro e
    refine ⟨fun h => ?_, readEndpoint_of_denotes side⟩
    obtain ⟨e', he'⟩ | ⟨fault, hfault⟩ := denotes_or_firstFault s.toList
    · rw [readEndpoint_of_denotes side he'] at h
      exact Except.ok.inj h ▸ he'
    · simp [hrefused fault hfault] at h
  · intro r
    constructor
    · intro h
      obtain ⟨e, he⟩ | ⟨fault, hfault⟩ := denotes_or_firstFault s.toList
      · simp [readEndpoint_of_denotes side he] at h
      · rw [hrefused fault hfault] at h
        obtain rfl := Except.error.inj h
        obtain ⟨name, reason, hname, htold, hoption, hmessage⟩ := message_endpoint side s fault
        exact ⟨fault, name, reason, hfault, rfl, hname, htold, hoption, hmessage⟩
    · intro h
      obtain ⟨fault, name, reason, hfault, rfl, -⟩ := h
      exact hrefused fault hfault

/-- Parts with at signs and slashes where they delimit nothing, and with a code that is decoded to
another one. -/
def mixedParts : Parts where
  scheme := ['S', '3']
  userinfo := some ['u', '@', 'x']
  bucket := ['b', ':', '8', '0']
  path := some ['/', '.', '.', '/', '%', '2', '5', '4', '1', '%', 'z', '@', '%', 'C', '3', '%', 'a',
    '9']
  tail := ['?', 'a', '@', 'b', '/', 'c', '#', 'd']
  isStoreScheme := .inr rfl
  userinfo_chars := by
    intro u hu
    obtain rfl := Option.some.inj hu
    simp
  bucket_ne_nil := by simp
  bucket_chars := by simp
  path_chars := by
    intro r hr
    obtain rfl := Option.some.inj hr
    simp
  tail_head := by simp

theorem readEndpoint_mixedParts :
    IsStoreScheme ['S', '3'] ∧
    readEndpoint .source "S3://u@x@b:80//../%2541%z@%C3%a9?a@b/c#d" =
      .ok (.objectStore "b:80" "/../%41%z@é") ∧
    IsStoreScheme ['s', '3'] ∧
    ∃ r, readEndpoint .target "s3://b:x/%FF" = .error r ∧
      r.message = "invalid target endpoint 's3://b:x/%FF': invalid port number" := by
  have hcapital : IsStoreScheme ['S', '3'] := .inr rfl
  have hsmall : IsStoreScheme ['s', '3'] := .inl rfl
  refine ⟨hcapital, ?_, hsmall, ?_⟩
  · have hread := (readEndpoint_by_parts .source hcapital
      (s := "S3://u@x@b:80//../%2541%z@%C3%a9?a@b/c#d") rfl).2.1
    have hpath : StandsFor (utf8 mixedParts.writtenPath) (utf8 "/../%41%z@é".toList) :=
      standsFor_iff.2 (by decide +kernel)
    exact (hread _).2 ⟨by decide +kernel, mixedParts, by decide +kernel, _, hpath,
      by decide +kernel⟩
  · have hread := (readEndpoint_by_parts .target hsmall (s := "s3://b:x/%FF") rfl).2.2
    refine ⟨.endpoint .target "s3://b:x/%FF" (.uri .badPort), ?_, rfl⟩
    exact (hread _).2 ⟨_, "target", "invalid port number", .uri (by decide +kernel), rfl,
      by simp, .badPort, rfl, rfl⟩

end SyncPlan.Endpoint
