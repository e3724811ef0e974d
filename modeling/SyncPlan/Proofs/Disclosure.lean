import SyncPlan.Proofs.Resolution
import SyncPlan.Proofs.Userinfo
import SyncPlan.Run

/-!
What a run tells of the secrets that it is given. Two runs whose options differ in nothing but keys
and secrets, or in the user information of an endpoint, tell the same: they note the same and end
with the same refusal or print the same plan. Only the document for other programs tells of an
object store whether a key and a secret are there.
-/

namespace SyncPlan

/-- The options that hold the key and the secret of one end. -/
def Side.credentials : Side → List TextField
  | .source => [.sourceKey, .sourceSecret]
  | .target => [.targetKey, .targetSecret]

def credentials : List TextField := Side.source.credentials ++ Side.target.credentials

namespace Options

/-- Options that differ in the given texts at most. -/
structure AgreeOutside (hidden : List TextField) (o p : Options) : Prop where
  text : ∀ f ∉ hidden, o.text f = p.text f
  count : o.count = p.count
  number : o.number = p.number
  switch : o.switch = p.switch
  list : o.list = p.list

/-- What is told of options: the lines of the log, and the refusal or the plan as it is printed. -/
def disclosed (o : Options) (env : Environment) (format : Format) :
    List Log.Line × Except Refusal String :=
  let (notes, result) := Plan.resolve o env.onTerminal
  (Log.shown (o.switch .debug) env.logFilter notes,
    result.map (·.rendered format env.noColor.isNone))

end Options

/-- The texts that a plan does not print, the two ends among them, of which it prints what has been
read. -/
def unprinted : List TextField := .source :: .target :: credentials

/-- At each end that is an object store a key is there in both options or in none, and a secret. -/
def SameGiven (route : Route) (o o' : Options) : Prop :=
  ∀ side, (route.endpoint side).isObjectStore = true →
    ∀ f ∈ side.credentials, o.text f = "" ↔ o'.text f = ""

theorem Options.AgreeOutside.mono {hidden more : List TextField} {o o' : Options}
    (h : o.AgreeOutside hidden o') (hsub : hidden ⊆ more) : o.AgreeOutside more o' :=
  ⟨fun f hf => h.text f fun hmem => hf (hsub hmem), h.count, h.number, h.switch, h.list⟩

theorem Options.AgreeOutside.trans {hidden : List TextField} {o o' o'' : Options}
    (h : o.AgreeOutside hidden o') (h' : o'.AgreeOutside hidden o'') : o.AgreeOutside hidden o'' :=
  ⟨fun f hf => (h.text f hf).trans (h'.text f hf), h.count.trans h'.count,
    h.number.trans h'.number, h.switch.trans h'.switch, h.list.trans h'.list⟩

theorem Options.agreeOutside_set (o : Options) (f : TextField) (value : String) :
    o.AgreeOutside [f] (o.set (.text f value)) := by
  refine ⟨?_, rfl, rfl, rfl, rfl⟩
  intro g hg
  rw [List.mem_singleton] at hg
  simp [Options.set, hg]

theorem Route.ofOptions_congr {o o' : Options} (h : o.AgreeOutside unprinted o')
    (hends : ∀ side, readEndpoint side (o.text side.field) =
      readEndpoint side (o'.text side.field)) : Route.ofOptions o = Route.ofOptions o' := by
  rw [Route.ofOptions, Route.ofOptions, h.text .acl (by decide), h.text .onFail (by decide),
    h.text .bandwidth (by decide)]
  have hsource : readEndpoint .source (o.text .source) = readEndpoint .source (o'.text .source) :=
    hends .source
  have htarget : readEndpoint .target (o.text .target) = readEndpoint .target (o'.text .target) :=
    hends .target
  rw [hsource, htarget]

theorem mask_congr {a b : String} (h : a = "" ↔ b = "") : mask a = mask b := by
  simp only [mask, String.isEmpty_iff, h]

theorem members_access_congr {o o' : Options} {side : Side} (h : o.AgreeOutside unprinted o')
    (hgiven : ∀ f ∈ side.credentials, o.text f = "" ↔ o'.text f = "") :
    (o.access side).members = (o'.access side).members := by
  cases side with
  | source =>
      have hkey := mask_congr (hgiven .sourceKey (by decide))
      have hsecret := mask_congr (hgiven .sourceSecret (by decide))
      simp only [Options.access, Access.members, hkey, hsecret,
        h.text .sourceRegion (by decide), h.text .sourceEndpoint (by decide)]
  | target =>
      have hkey := mask_congr (hgiven .targetKey (by decide))
      have hsecret := mask_congr (hgiven .targetSecret (by decide))
      simp only [Options.access, Access.members, hkey, hsecret,
        h.text .targetRegion (by decide), h.text .targetEndpoint (by decide)]

namespace Plan

/-- Plans that agree in all that is printed of them but keys and secrets. -/
structure Alike (p q : Plan) : Prop where
  options : p.options.AgreeOutside unprinted q.options
  route : p.route = q.route
  retryInterval : p.retryInterval = q.retryInterval
  fileMode : p.fileMode = q.fileMode
  directoryMode : p.directoryMode = q.directoryMode
  usesHttp2 : p.usesHttp2 = q.usesHttp2

variable {p q : Plan}

theorem Alike.summary (h : Alike p q) : p.summary = q.summary := by
  simp only [Plan.summary, h.route, h.retryInterval, h.fileMode, h.directoryMode]

theorem Alike.human (h : Alike p q) (bold : Bool) : p.human bold = q.human bold := by
  rw [Plan.human, Plan.human, lines, lines, h.retryInterval, h.usesHttp2, h.route, h.fileMode,
    h.directoryMode, h.options.count, h.options.list, h.options.switch]

theorem Alike.json (h : Alike p q) (hgiven : SameGiven p.route p.options q.options) :
    p.json = q.json := by
  have hstorage : p.options.text .storageClass = q.options.text .storageClass :=
    h.options.text _ (by decide)
  have hends (side : Side) : p.endpointJson side = q.endpointJson side := by
    simp only [endpointJson, ← h.route]
    cases hstore : (p.route.endpoint side).isObjectStore with
    | false => rfl
    | true => simp only [members_access_congr h.options (hgiven side hstore)]
  simp only [Plan.json, h.retryInterval, h.usesHttp2, hends, hstorage, h.route, h.fileMode,
    h.directoryMode, h.options.count, h.options.number, h.options.list, h.options.switch]

theorem Alike.rendered (h : Alike p q) {format : Format}
    (hgiven : format = .json → SameGiven p.route p.options q.options) (bold : Bool) :
    p.rendered format bold = q.rendered format bold := by
  cases format with
  | json => exact congrArg (·.text .pretty) (h.json (hgiven rfl))
  | human => exact h.human bold

end Plan

theorem endpoint_of_ofOptions {o : Options} {route : Route} (h : Route.ofOptions o = .ok route)
    (side : Side) : Endpoint.read (o.text side.field) = .ok (route.endpoint side) := by
  obtain ⟨-, -, -, hsource, htarget⟩ := route_eq_ok h
  cases side with
  | source => exact endpoint_eq_ok_iff.1 hsource
  | target => exact endpoint_eq_ok_iff.1 htarget

/-- What has been read of two options decides of what is told of them. -/
theorem disclosed_congr {o o' : Options} {env : Environment} {format : Format}
    (h : o.AgreeOutside unprinted o') (hroute : Route.ofOptions o = Route.ofOptions o')
    (hgiven : ∀ route, Route.ofOptions o = .ok route → format = .json → SameGiven route o o') :
    o.disclosed env format = o'.disclosed env format := by
  have hmodes : readModes o env.onTerminal = readModes o' env.onTerminal := by
    simp only [readModes, h.switch, h.text .fileMode (by decide), h.text .directoryMode (by decide)]
  rw [Options.disclosed, Options.disclosed, Plan.resolve, Plan.resolve, ← hroute, ← hmodes,
    h.switch, h.count]
  cases hr : Route.ofOptions o with
  | error r => rfl
  | ok route =>
      cases hm : readModes o env.onTerminal with
      | error r => rfl
      | ok modes =>
          have halike (interval : UInt32) (http2 : Bool) : Plan.Alike
              ⟨o, route, interval, modes.1, modes.2, http2⟩
              ⟨o', route, interval, modes.1, modes.2, http2⟩ := ⟨h, rfl, rfl, rfl, rfl, rfl⟩
          have hrendered := (halike (o'.count .retryInterval) (!o'.switch .disableHttp2)).rendered
            (hgiven route hr) env.noColor.isNone
          simp only [(halike _ _).summary]
          cases o'.switch .onlyModified && o'.switch .disableAttributes with
          | false => simpa [Except.map] using hrendered
          | true => rfl

section Hidden

variable {o o' : Options} {env : Environment} {format : Format}

/-- What is told does not depend on keys and secrets, but for whether one of an object store is
there where the plan is printed as a document. -/
theorem disclosed_of_credentials (h : o.AgreeOutside credentials o')
    (hgiven : format = .json → ∀ side bucket path,
      Endpoint.read (o.text (Side.field side)) = .ok (.objectStore bucket path) →
        ∀ f ∈ side.credentials, o.text f = "" ↔ o'.text f = "") :
    o.disclosed env format = o'.disclosed env format := by
  have hprinted : o.AgreeOutside unprinted o' := h.mono (by decide)
  have hends (side : Side) : o.text side.field = o'.text side.field := by
    cases side <;> exact h.text _ (by decide)
  refine disclosed_congr hprinted (Route.ofOptions_congr hprinted fun side => by rw [hends side]) ?_
  intro route hroute hjson side hstore
  have hread := endpoint_of_ofOptions hroute side
  cases hend : route.endpoint side with
  | objectStore bucket path => exact hgiven hjson side bucket path (hend ▸ hread)
  | filesystem path => simp [hend, Endpoint.isObjectStore] at hstore

/-- Nor does it depend on the text of an endpoint, once that has been read. -/
theorem disclosed_of_endpoint {side : Side} {value : String} {e : Endpoint}
    (hread : Endpoint.read (o.text side.field) = .ok e) (hvalue : Endpoint.read value = .ok e) :
    (o.set (.text side.field value)).disclosed env format = o.disclosed env format := by
  have hset := o.agreeOutside_set side.field value
  have hprinted : o.AgreeOutside unprinted (o.set (.text side.field value)) :=
    hset.mono (by cases side <;> decide)
  refine (disclosed_congr hprinted (Route.ofOptions_congr hprinted ?_) ?_).symm
  · intro other
    by_cases hother : other = side
    · subst hother
      have hself : (o.set (.text other.field value)).text other.field = value := by
        simp [Options.set]
      rw [hself, endpoint_eq_ok_iff.2 hread, endpoint_eq_ok_iff.2 hvalue]
    · have hne : other.field ≠ side.field := by
        cases other <;> cases side <;> simp_all [Side.field]
      rw [hset.text other.field (by simpa using hne)]
  · intro route hroute hjson other hstore f hf
    have hne : f ≠ side.field := by
      intro heq
      subst heq
      cases other <;> cases side <;> exact absurd hf (by decide)
    rw [hset.text f (by simpa using hne)]

theorem disclosed_snd : (o.disclosed env format).2 =
    (Plan.ofOptions o env.onTerminal).map (·.rendered format env.noColor.isNone) := rfl

end Hidden

/-- Keys, secrets and user information are not told. Options that differ in keys and secrets only
are refused alike or have plans that are printed alike, with the same lines of the log, unless they
are printed as a document and at an object store a key or a secret is there in one of them only.
Options with user information in an endpoint that have a plan have one with any other user
information, or an empty one, and the same is told of it. -/
theorem disclosed_without_secrets (env : Environment) (format : Format) :
    (∀ o o' : Options, o.AgreeOutside credentials o' →
      (format = .json → ∀ side bucket path,
        Endpoint.read (o.text (Side.field side)) = .ok (.objectStore bucket path) →
          ∀ f ∈ side.credentials, o.text f = "" ↔ o'.text f = "") →
      o.disclosed env format = o'.disclosed env format) ∧
    (∀ (o : Options) (side : Side) (u v rest : String), Uri.IsUserinfo u.toList →
      Uri.IsUserinfo v.toList → (∃ c ∈ rest.toList.head?, c.isAlphanum = true) →
      o.text side.field = Endpoint.withUserinfo u rest →
      (∃ plan, Plan.ofOptions o env.onTerminal = .ok plan) →
        (∃ plan, Plan.ofOptions (o.set (.text side.field (Endpoint.withUserinfo v rest)))
          env.onTerminal = .ok plan) ∧
        (o.set (.text side.field (Endpoint.withUserinfo v rest))).disclosed env format =
          o.disclosed env format) := by
  refine ⟨fun o o' h hgiven => disclosed_of_credentials h hgiven, ?_⟩
  intro o side u v rest hu hv hrest htext hplan
  obtain ⟨plan, hplan⟩ := hplan
  have hdenotes := denotes_of_ofOptions hplan
  have hread : Endpoint.read (o.text side.field) = .ok (plan.route.endpoint side) := by
    cases side with
    | source => exact hdenotes.source
    | target => exact hdenotes.target
  have hvalue : Endpoint.read (Endpoint.withUserinfo v rest) = .ok (plan.route.endpoint side) := by
    rw [← hread, htext, Endpoint.read_withUserinfo hv hu hrest]
  have hdisclosed : (o.set (.text side.field (Endpoint.withUserinfo v rest))).disclosed env format =
      o.disclosed env format := disclosed_of_endpoint hread hvalue
  refine ⟨?_, hdisclosed⟩
  have hresult := congrArg Prod.snd hdisclosed
  rw [disclosed_snd, disclosed_snd, hplan] at hresult
  obtain ⟨plan', hplan', -⟩ := map_eq_ok_iff.1 hresult
  exact ⟨plan', hplan'⟩

/-- A source with a secret in front of its bucket, and a key and a secret of its own. -/
def secretOptions : Options :=
  ((Options.default.set (.text .source "s3://me:pw@photos/2024")).set (.text .sourceKey "AKIA")).set
    (.text .sourceSecret "hunter2")

/-- Another key and secret, or no user information, are printed no differently. -/
theorem secretOptions_disclosed :
    secretOptions.disclosed {} .json =
        ((secretOptions.set (.text .sourceKey "AKIB")).set
          (.text .sourceSecret "swordfish")).disclosed {} .json ∧
      (secretOptions.set (.text .source "s3://@photos/2024")).disclosed {} .json =
        secretOptions.disclosed {} .json := by
  have hkey := secretOptions.agreeOutside_set .sourceKey "AKIB"
  have hsecret := (secretOptions.set (.text .sourceKey "AKIB")).agreeOutside_set .sourceSecret
    "swordfish"
  have hplan : (Plan.ofOptions secretOptions false).isOk = true := by decide +kernel
  refine ⟨(disclosed_without_secrets {} .json).1 _ _
    ((hkey.mono (by decide)).trans (hsecret.mono (by decide))) ?_, ?_⟩
  · intro hjson side bucket path hread f hf
    cases side with
    | source =>
        obtain rfl | rfl : f = .sourceKey ∨ f = .sourceSecret := by
          simpa [Side.credentials] using hf
        · decide
        · decide
    | target =>
        obtain rfl | rfl : f = .targetKey ∨ f = .targetSecret := by
          simpa [Side.credentials] using hf
        · decide
        · decide
  · have hall : ("me:pw".toList.all fun c => !Uri.endsAuthority c) = true := by decide
    have hu : Uri.IsUserinfo "me:pw".toList :=
      fun c hc => by simpa using List.all_eq_true.1 hall c hc
    have hsource : secretOptions.text .source = Endpoint.withUserinfo "me:pw" "photos/2024" := by
      decide
    refine ((disclosed_without_secrets {} .json).2 secretOptions .source "me:pw" "" "photos/2024"
      hu (by simp [Uri.IsUserinfo]) ⟨'p', by decide, by decide⟩ hsource ?_).2
    cases h : Plan.ofOptions secretOptions false with
    | ok plan => exact ⟨plan, rfl⟩
    | error r => simp [h, Except.isOk, Except.toBool] at hplan

end SyncPlan
