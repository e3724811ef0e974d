import SyncPlan.CommandLine.Argument
import SyncPlan.Plan
import SyncPlan.Proofs.RateGrammar

/-!
When options can be turned into a plan. There are nine conditions, which are looked at in a fixed
order; the options have a plan exactly when all of them hold, and otherwise the first that does not
is the one that is reported, with the option that it is about and the value of this option.
-/

namespace SyncPlan
open Text

theorem FileMode.read_eq_ok_iff {s : String} {m : FileMode} :
    FileMode.read s = .ok m ↔ IsNatural 8 s.toList m.bits.toNat := by
  have hlt : m.bits.toNat < boundOfBits 32 := m.bits.toNat_lt
  rw [FileMode.read, map_eq_ok_iff]
  simp only [readNatural_eq_ok_iff (show 8 ≤ 10 by decide)]
  constructor
  · intro h
    obtain ⟨n, ⟨hnatural, hle⟩, rfl⟩ := h
    have hn : n < 2 ^ 32 := Nat.lt_of_le_of_lt hle (by decide)
    rwa [UInt32.toNat_ofNat', Nat.mod_eq_of_lt hn]
  · intro h
    refine ⟨m.bits.toNat, ⟨h, Nat.le_sub_one_of_lt hlt⟩, ?_⟩
    rw [UInt32.ofNat_toNat]

theorem AccessClass.ofWord?_eq_some_iff {s : String} {c : AccessClass} :
    AccessClass.ofWord? s = some c ↔ c.word = s := by
  constructor
  · intro h
    have hword := List.find?_some h
    simpa using hword
  · intro h
    exact h ▸ AccessClass.ofWord?_word c

theorem FailureAction.ofWord?_eq_some_iff {s : String} {a : FailureAction} :
    FailureAction.ofWord? s = some a ↔ a.word = s := by
  constructor
  · intro h
    have hword := List.find?_some h
    simpa using hword
  · intro h
    exact h ▸ FailureAction.ofWord?_word a

section Readers

variable {s : String}

theorem accessClass_eq_ok_iff {c : AccessClass} : AccessClass.read s = .ok c ↔ c.word = s := by
  rw [AccessClass.read, ← AccessClass.ofWord?_eq_some_iff]
  cases AccessClass.ofWord? s <;> simp

theorem failureAction_eq_ok_iff {a : FailureAction} :
    FailureAction.read s = .ok a ↔ a.word = s := by
  rw [FailureAction.read, ← FailureAction.ofWord?_eq_some_iff]
  cases FailureAction.ofWord? s <;> simp

theorem rate_eq_ok_iff {k : UInt64} :
    readRate s = .ok k ↔ Rate.IsRate s.toList k.toNat := by
  rw [readRate, ← Rate.read_eq_some_iff]
  cases Rate.read s <;> simp

theorem endpoint_eq_ok_iff {side : Side} {e : Endpoint} :
    readEndpoint side s = .ok e ↔ Endpoint.read s = .ok e := by
  rw [readEndpoint]
  cases Endpoint.read s <;> simp

theorem mode_eq_ok_iff {option : ModeOption} {m : FileMode} :
    readMode option s = .ok m ↔ IsNatural 8 s.toList m.bits.toNat := by
  rw [readMode, ← FileMode.read_eq_ok_iff]
  cases FileMode.read s <;> simp

end Readers

theorem exists_rate_iff {p : Nat → Prop} :
    (∃ k : UInt64, p k.toNat) ↔ ∃ n, p n ∧ n < boundOfBits 64 := by
  constructor
  · intro h
    obtain ⟨k, hk⟩ := h
    exact ⟨k.toNat, hk, k.toNat_lt⟩
  · intro h
    obtain ⟨n, hn, hlt⟩ := h
    exact ⟨UInt64.ofNat n, by rwa [UInt64.toNat_ofNat_of_lt' hlt]⟩

theorem exists_mode_iff {p : Nat → Prop} :
    (∃ m : FileMode, p m.bits.toNat) ↔ ∃ n, p n ∧ n < boundOfBits 32 := by
  constructor
  · intro h
    obtain ⟨m, hm⟩ := h
    exact ⟨m.bits.toNat, hm, m.bits.toNat_lt⟩
  · intro h
    obtain ⟨n, hn, hlt⟩ := h
    exact ⟨⟨UInt32.ofNat n⟩, by rwa [UInt32.toNat_ofNat_of_lt' hlt]⟩

/-- The words that an access class can be given by, of which the empty one leaves it open. -/
def accessWords : List String := [
  "", "private", "public-read", "public-read-write", "aws-exec-read", "authenticated-read",
  "bucket-owner-read", "bucket-owner-full-control"]

def actionWords : List String := ["fatal", "skip", "skipmissing"]

theorem exists_accessClass_iff {s : String} :
    (∃ c : AccessClass, c.word = s) ↔ s ∈ accessWords := by
  constructor
  · intro h
    obtain ⟨c, rfl⟩ := h
    cases c <;> decide
  · intro h
    have hall : ∀ w ∈ accessWords, ∃ c ∈ AccessClass.all, c.word = w := by decide
    obtain ⟨c, -, hc⟩ := hall s h
    exact ⟨c, hc⟩

theorem exists_failureAction_iff {s : String} :
    (∃ a : FailureAction, a.word = s) ↔ s ∈ actionWords := by
  constructor
  · intro h
    obtain ⟨a, rfl⟩ := h
    cases a <;> decide
  · intro h
    have hall : ∀ w ∈ actionWords, ∃ a ∈ FailureAction.all, a.word = w := by decide
    obtain ⟨a, -, ha⟩ := hall s h
    exact ⟨a, ha⟩

/-- What is asked of options before there is a plan. -/
inductive Condition
  | accessClass
  | onFail
  | bandwidth
  | endpoint (side : Side)
  | progress
  | mode (option : ModeOption)
  | modified
  deriving DecidableEq, Repr

def Side.field : Side → TextField
  | .source => .source
  | .target => .target

def ModeOption.field : ModeOption → TextField
  | .file => .fileMode
  | .directory => .directoryMode

namespace Condition

/-- All conditions in the order in which they are looked at. -/
def all : List Condition := [
  .accessClass, .onFail, .bandwidth, .endpoint .source, .endpoint .target, .progress, .mode .file,
  .mode .directory, .modified]

/-- The option that a condition is about, the first of the two where it is about two. -/
def field : Condition → Field
  | .accessClass => .text .acl
  | .onFail => .text .onFail
  | .bandwidth => .text .bandwidth
  | .endpoint side => .text side.field
  | .progress => .switch .progress
  | .mode option => .text option.field
  | .modified => .switch .onlyModified

def Holds (o : Options) (onTerminal : Bool) : Condition → Prop
  | .accessClass => o.text .acl ∈ accessWords
  | .onFail => o.text .onFail ∈ actionWords
  | .bandwidth => ∃ n, Rate.IsRate (o.text .bandwidth).toList n ∧ n < boundOfBits 64
  | .endpoint side => ∃ e, Endpoint.read (o.text side.field) = .ok e
  | .progress => o.switch .progress = true → onTerminal = true
  | .mode option => ∃ n, IsNatural 8 (o.text option.field).toList n ∧ n < boundOfBits 32
  | .modified => ¬(o.switch .onlyModified = true ∧ o.switch .disableAttributes = true)

/-- The refusal for a condition, with the value of its option as it stands and the fault that has
been found in it. -/
def Refuses (o : Options) : Condition → Refusal → Prop
  | .accessClass, r => r = .accessClass (o.text .acl)
  | .onFail, r => r = .failureAction (o.text .onFail)
  | .bandwidth, r => r = .bandwidth (o.text .bandwidth)
  | .endpoint side, r => ∃ fault, Endpoint.read (o.text side.field) = .error fault ∧
      r = .endpoint side (o.text side.field) fault
  | .progress, r => r = .progressWithoutTerminal
  | .mode option, r => ∃ fault, FileMode.read (o.text option.field) = .error fault ∧
      r = .mode option (o.text option.field) fault
  | .modified, r => r = .modifiedWithoutAttributes

/-- The refusal for a condition that does not hold. -/
def refusal? (o : Options) (onTerminal : Bool) : Condition → Option Refusal
  | .accessClass => errorOf? (AccessClass.read (o.text .acl))
  | .onFail => errorOf? (FailureAction.read (o.text .onFail))
  | .bandwidth => errorOf? (readRate (o.text .bandwidth))
  | .endpoint side => errorOf? (readEndpoint side (o.text side.field))
  | .progress => if o.switch .progress && !onTerminal then some .progressWithoutTerminal else none
  | .mode option => errorOf? (readMode option (o.text option.field))
  | .modified =>
    if o.switch .onlyModified && o.switch .disableAttributes then some .modifiedWithoutAttributes
    else none

variable {o : Options} {onTerminal : Bool}

theorem refusal?_eq_none_iff {c : Condition} :
    c.refusal? o onTerminal = none ↔ c.Holds o onTerminal := by
  cases c with
  | accessClass =>
      simp only [refusal?, errorOf?_eq_none_iff, accessClass_eq_ok_iff, Holds]
      exact exists_accessClass_iff
  | onFail =>
      simp only [refusal?, errorOf?_eq_none_iff, failureAction_eq_ok_iff, Holds]
      exact exists_failureAction_iff
  | bandwidth =>
      simp only [refusal?, errorOf?_eq_none_iff, rate_eq_ok_iff, Holds]
      exact exists_rate_iff
  | endpoint side => simp only [refusal?, errorOf?_eq_none_iff, endpoint_eq_ok_iff, Holds]
  | progress => simp [refusal?, Holds]
  | mode option =>
      simp only [refusal?, errorOf?_eq_none_iff, mode_eq_ok_iff, Holds]
      exact exists_mode_iff
  | modified => simp [refusal?, Holds]

theorem refuses_of_refusal? {c : Condition} {r : Refusal} (h : c.refusal? o onTerminal = some r) :
    c.Refuses o r := by
  cases c with
  | accessClass =>
      simp only [refusal?, errorOf?_eq_some_iff, AccessClass.read] at h
      split at h <;> simp_all [Refuses]
  | onFail =>
      simp only [refusal?, errorOf?_eq_some_iff, FailureAction.read] at h
      split at h <;> simp_all [Refuses]
  | bandwidth =>
      simp only [refusal?, errorOf?_eq_some_iff, readRate] at h
      split at h <;> simp_all [Refuses]
  | endpoint side =>
      simp only [refusal?, errorOf?_eq_some_iff, readEndpoint] at h
      split at h
      · simp at h
      · next fault hfault => exact ⟨fault, hfault, (Except.error.inj h).symm⟩
  | progress =>
      simp only [refusal?, Option.ite_none_right_eq_some] at h
      exact (Option.some.inj h.2).symm
  | mode option =>
      simp only [refusal?, errorOf?_eq_some_iff, readMode] at h
      split at h
      · simp at h
      · next fault hfault => exact ⟨fault, hfault, (Except.error.inj h).symm⟩
  | modified =>
      simp only [refusal?, Option.ite_none_right_eq_some] at h
      exact (Option.some.inj h.2).symm

theorem errorOf?_ofRoute : errorOf? (Route.ofOptions o) =
    [accessClass, onFail, bandwidth, endpoint .source, endpoint .target].findSome?
      (·.refusal? o onTerminal) := by
  simp only [Route.ofOptions, List.findSome?_cons, refusal?, Side.field]
  cases AccessClass.read (o.text .acl) with
  | error r => rfl
  | ok c =>
  cases FailureAction.read (o.text .onFail) with
  | error r => rfl
  | ok a =>
  cases readRate (o.text .bandwidth) with
  | error r => rfl
  | ok n =>
  cases readEndpoint .source (o.text .source) with
  | error r => rfl
  | ok e =>
  cases readEndpoint .target (o.text .target) <;> rfl

theorem errorOf?_readModes : errorOf? (readModes o onTerminal) =
    [progress, mode .file, mode .directory].findSome? (·.refusal? o onTerminal) := by
  simp only [readModes, List.findSome?_cons, refusal?, ModeOption.field]
  cases o.switch .progress && !onTerminal with
  | true => rfl
  | false =>
  cases readMode .file (o.text .fileMode) with
  | error r => rfl
  | ok m =>
  cases readMode .directory (o.text .directoryMode) <;> rfl

/-- The first condition that does not hold is the one that is reported. -/
theorem errorOf?_ofOptions :
    errorOf? (Plan.ofOptions o onTerminal) = all.findSome? (·.refusal? o onTerminal) := by
  have hall : all = [accessClass, onFail, bandwidth, endpoint .source, endpoint .target] ++
      ([progress, mode .file, mode .directory] ++ [modified]) := rfl
  rw [hall, List.findSome?_append, List.findSome?_append, ← errorOf?_ofRoute,
    ← errorOf?_readModes, Plan.ofOptions, Plan.resolve]
  cases Route.ofOptions o with
  | error r => rfl
  | ok route =>
  cases readModes o onTerminal with
  | error r => rfl
  | ok modes =>
  cases hmodified : o.switch .onlyModified && o.switch .disableAttributes with
  | true => simp [errorOf?, refusal?, hmodified]
  | false => simp [errorOf?, refusal?, hmodified]

end Condition

/-- The text of the option that a refusal carries. -/
def Refusal.value? : Refusal → Option String
  | .accessClass v | .failureAction v | .bandwidth v | .endpoint _ v _ | .mode _ v _ => some v
  | .progressWithoutTerminal | .modifiedWithoutAttributes => none

namespace Condition

theorem mem_all (c : Condition) : c ∈ all := by
  cases c with
  | endpoint side => cases side <;> decide
  | mode option => cases option <;> decide
  | _ => decide

theorem option_of_refuses {o : Options} {c : Condition} {r : Refusal} (h : c.Refuses o r) :
    r.option = (Argument.field c.field).long := by
  cases c with
  | endpoint side =>
      obtain ⟨fault, -, rfl⟩ := h
      cases side <;> rfl
  | mode option =>
      obtain ⟨fault, -, rfl⟩ := h
      cases option <;> rfl
  | _ =>
      rw [Refuses] at h
      subst h
      rfl

theorem value_of_refuses {o : Options} {c : Condition} {r : Refusal} {v : String}
    (h : c.Refuses o r) (hv : r.value? = some v) : ∃ f, c.field = .text f ∧ v = o.text f := by
  cases c with
  | endpoint side =>
      obtain ⟨fault, -, rfl⟩ := h
      exact ⟨_, rfl, (Option.some.inj hv).symm⟩
  | mode option =>
      obtain ⟨fault, -, rfl⟩ := h
      exact ⟨_, rfl, (Option.some.inj hv).symm⟩
  | progress | modified =>
      rw [Refuses] at h
      subst h
      simp [Refusal.value?] at hv
  | _ =>
      rw [Refuses] at h
      subst h
      exact ⟨_, rfl, (Option.some.inj hv).symm⟩

end Condition

/-- A plan that holds some options as they are, and of each option that it is derived from the value
that this option alone denotes. -/
structure Plan.Denotes (p : Plan) (o : Options) : Prop where
  options : p.options = o
  accessClass : p.route.accessClass.word = o.text .acl
  onFail : p.route.onFail.word = o.text .onFail
  bandwidth : Rate.IsRate (o.text .bandwidth).toList p.route.bandwidth.toNat
  source : Endpoint.read (o.text .source) = .ok p.route.source
  target : Endpoint.read (o.text .target) = .ok p.route.target
  fileMode : IsNatural 8 (o.text .fileMode).toList p.fileMode.bits.toNat
  directoryMode : IsNatural 8 (o.text .directoryMode).toList p.directoryMode.bits.toNat
  retryInterval : p.retryInterval = o.count .retryInterval
  usesHttp2 : p.usesHttp2 = !o.switch .disableHttp2

section Success

variable {o : Options} {onTerminal : Bool}

theorem route_eq_ok {route : Route} (h : Route.ofOptions o = .ok route) :
    AccessClass.read (o.text .acl) = .ok route.accessClass ∧
      FailureAction.read (o.text .onFail) = .ok route.onFail ∧
      readRate (o.text .bandwidth) = .ok route.bandwidth ∧
      readEndpoint .source (o.text .source) = .ok route.source ∧
      readEndpoint .target (o.text .target) = .ok route.target := by
  simp only [Route.ofOptions, bind_eq_ok_iff, pure_eq_ok_iff] at h
  obtain ⟨c, hc, a, ha, n, hn, source, hsource, target, htarget, rfl⟩ := h
  exact ⟨hc, ha, hn, hsource, htarget⟩

theorem modes_eq_ok {modes : FileMode × FileMode} (h : readModes o onTerminal = .ok modes) :
    readMode .file (o.text .fileMode) = .ok modes.1 ∧
      readMode .directory (o.text .directoryMode) = .ok modes.2 := by
  rw [readModes] at h
  split at h
  · simp [throw, throwThe, MonadExceptOf.throw, bind, Except.bind] at h
  · simp only [bind_eq_ok_iff, pure_eq_ok_iff] at h
    obtain ⟨file, hfile, directory, hdirectory, rfl⟩ := h
    exact ⟨hfile, hdirectory⟩

theorem denotes_of_ofOptions {p : Plan} (h : Plan.ofOptions o onTerminal = .ok p) :
    p.Denotes o := by
  rw [Plan.ofOptions, Plan.resolve] at h
  cases hroute : Route.ofOptions o with
  | error r => simp [hroute] at h
  | ok route =>
      cases hmodes : readModes o onTerminal with
      | error r => simp [hroute, hmodes] at h
      | ok modes =>
          obtain ⟨hc, ha, hn, hsource, htarget⟩ := route_eq_ok hroute
          obtain ⟨hfile, hdirectory⟩ := modes_eq_ok hmodes
          simp only [hroute, hmodes] at h
          split at h
          · simp at h
          · obtain rfl := Except.ok.inj h
            exact {
              options := rfl
              accessClass := accessClass_eq_ok_iff.1 hc
              onFail := failureAction_eq_ok_iff.1 ha
              bandwidth := rate_eq_ok_iff.1 hn
              source := endpoint_eq_ok_iff.1 hsource
              target := endpoint_eq_ok_iff.1 htarget
              fileMode := mode_eq_ok_iff.1 hfile
              directoryMode := mode_eq_ok_iff.1 hdirectory
              retryInterval := rfl
              usesHttp2 := rfl }

theorem holds_of_ofOptions {p : Plan} (h : Plan.ofOptions o onTerminal = .ok p) (c : Condition) :
    c.Holds o onTerminal := by
  have hnone := @Condition.errorOf?_ofOptions o onTerminal
  rw [h, errorOf?, eq_comm, List.findSome?_eq_none_iff] at hnone
  exact Condition.refusal?_eq_none_iff.1 (hnone c c.mem_all)

/-- The plan of options is the one that holds what they denote, if their switches allow for it. -/
theorem ofOptions_eq_ok_iff {p : Plan} :
    Plan.ofOptions o onTerminal = .ok p ↔
      p.Denotes o ∧ Condition.Holds o onTerminal .progress ∧
        Condition.Holds o onTerminal .modified := by
  constructor
  · intro h
    exact ⟨denotes_of_ofOptions h, holds_of_ofOptions h _, holds_of_ofOptions h _⟩
  · intro h
    obtain ⟨hdenotes, hprogress, hmodified⟩ := h
    have hroute : Route.ofOptions o = .ok p.route := by
      rw [Route.ofOptions, accessClass_eq_ok_iff.2 hdenotes.accessClass,
        failureAction_eq_ok_iff.2 hdenotes.onFail, rate_eq_ok_iff.2 hdenotes.bandwidth,
        endpoint_eq_ok_iff.2 hdenotes.source, endpoint_eq_ok_iff.2 hdenotes.target]
      rfl
    have hmodes : readModes o onTerminal = .ok (p.fileMode, p.directoryMode) := by
      have hshown : (o.switch .progress && !onTerminal) = false := by
        simpa [Condition.Holds] using hprogress
      rw [readModes, hshown, mode_eq_ok_iff.2 hdenotes.fileMode,
        mode_eq_ok_iff.2 hdenotes.directoryMode]
      rfl
    have hkept : (o.switch .onlyModified && o.switch .disableAttributes) = false := by
      simpa [Condition.Holds] using hmodified
    have hretry := hdenotes.retryInterval
    have hhttp2 := hdenotes.usesHttp2
    obtain rfl := hdenotes.options
    simp only [Plan.ofOptions, Plan.resolve, hroute, hmodes, hkept, ← hretry, ← hhttp2]
    rfl

end Success

/-- Options have a plan exactly when all conditions hold, and then it holds what they denote. If one
does not hold, the first of them in their order is reported with its own option and its value. -/
theorem ofOptions_iff_conditions (o : Options) (onTerminal : Bool) :
    ((∃ p, Plan.ofOptions o onTerminal = .ok p) ↔
      ∀ c, Condition.Holds o onTerminal c) ∧
    (∀ p, Plan.ofOptions o onTerminal = .ok p → p.Denotes o) ∧
    (∀ r, Plan.ofOptions o onTerminal = .error r →
      ∃ before c after, Condition.all = before ++ c :: after ∧
        (∀ b ∈ before, Condition.Holds o onTerminal b) ∧ ¬Condition.Holds o onTerminal c ∧
        c.Refuses o r ∧ r.option = (Argument.field c.field).long ∧
        ∀ v, r.value? = some v → ∃ f, c.field = .text f ∧ v = o.text f) := by
  refine ⟨?_, fun p hp => denotes_of_ofOptions hp, ?_⟩
  · rw [← errorOf?_eq_none_iff, Condition.errorOf?_ofOptions, List.findSome?_eq_none_iff]
    simp only [Condition.refusal?_eq_none_iff, Condition.mem_all, true_implies]
  · intro r hr
    rw [← errorOf?_eq_some_iff, Condition.errorOf?_ofOptions, List.findSome?_eq_some_iff] at hr
    obtain ⟨before, c, after, hall, hc, hbefore⟩ := hr
    have hrefuses := Condition.refuses_of_refusal? hc
    refine ⟨before, c, after, hall, ?_, ?_, hrefuses, Condition.option_of_refuses hrefuses,
      fun v hv => Condition.value_of_refuses hrefuses hv⟩
    · intro b hb
      exact Condition.refusal?_eq_none_iff.1 (hbefore b hb)
    · intro hholds
      rw [← Condition.refusal?_eq_none_iff, hc] at hholds
      simp at hholds

example : errorOf? (Plan.ofOptions ((Options.default.set (.text .onFail "retry")).set
    (.text .fileMode "9")) false) = some (.failureAction "retry") := by rfl

end SyncPlan
