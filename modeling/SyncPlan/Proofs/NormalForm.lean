import SyncPlan.Proofs.Json.Report
import SyncPlan.Proofs.LocalPaths

/-!
Options in normal form. What has been read of an option can be written back in one way: a word, the
decimal digits of a rate, the octal digits of permission bits, a path behind the scheme of the file
system. Options that are written back so have the plan that they were written from, whatever the
spelling was before, and are written back as they are.
-/

namespace SyncPlan
open Text

/-- A path of the file system behind its scheme, and a place in an object store as it was given. -/
def Endpoint.normalText (given : String) : Endpoint → String
  | .objectStore .. => given
  | .filesystem path => "fs://" ++ path

/-- The texts of options, of which those that a plan is read from are written back from it. -/
def Plan.normalText (p : Plan) (o : Options) : TextField → String
  | .acl => p.route.accessClass.word
  | .onFail => p.route.onFail.word
  | .bandwidth => p.route.bandwidth.toNat.repr
  | .fileMode => p.fileMode.text
  | .directoryMode => p.directoryMode.text
  | .source => p.route.source.normalText (o.text .source)
  | .target => p.route.target.normalText (o.text .target)
  | f => o.text f

def Options.normal (o : Options) (p : Plan) : Options := { o with text := p.normalText o }

theorem Endpoint.read_normalText {given : String} {e : Endpoint} (h : read given = .ok e) :
    read (e.normalText given) = .ok e := by
  cases e with
  | objectStore bucket path => exact h
  | filesystem path => exact read_fs path

theorem Endpoint.normalText_normalText (given : String) (e : Endpoint) :
    e.normalText (e.normalText given) = e.normalText given := by
  cases e <;> rfl

theorem Rate.isRate_repr (n : Nat) : IsRate n.repr.toList n := by
  rw [toList_repr]
  refine .inr ⟨[], digits n, [], [], [], 1, by simp, ?_, ?_, ?_, isRun_digits n, ?_, ?_⟩
  · exact List.forall_mem_nil _
  · exact List.forall_mem_nil _
  · exact List.forall_mem_nil _
  · exact List.mem_cons_self
  · rw [valueOf_digits, Nat.mul_one]

theorem FileMode.isNatural_text (m : FileMode) : IsNatural 8 m.text.toList m.bits.toNat :=
  FileMode.read_eq_ok_iff.1 m.read_text

section Normal

variable {o : Options} {p : Plan}

/-- Each option that is written back denotes what it was written from. -/
theorem Plan.Denotes.normal (h : p.Denotes o) :
    Plan.Denotes { p with options := o.normal p } (o.normal p) where
  options := rfl
  accessClass := rfl
  onFail := rfl
  bandwidth := Rate.isRate_repr _
  source := Endpoint.read_normalText h.source
  target := Endpoint.read_normalText h.target
  fileMode := p.fileMode.isNatural_text
  directoryMode := p.directoryMode.isNatural_text
  retryInterval := h.retryInterval
  usesHttp2 := h.usesHttp2

/-- Writing back looks only at what has been read. -/
theorem Options.normal_normal (o : Options) (p : Plan) (o' : Options) :
    (o.normal p).normal { p with options := o' } = o.normal p := by
  simp only [Options.normal, Options.mk.injEq, and_self, and_true]
  funext f
  cases f with
  | source => exact Endpoint.normalText_normalText _ _
  | target => exact Endpoint.normalText_normalText _ _
  | _ => rfl

theorem json_normal (h : p.options = o) :
    Plan.json { p with options := o.normal p } = p.json := by
  subst h
  rfl

/-- Options with a plan have one in normal form too, where all that is read of them is the same, and
so is the document of the plan. They are then their own normal form. -/
theorem ofOptions_normal {onTerminal : Bool} (h : Plan.ofOptions o onTerminal = .ok p) :
    ∃ q, Plan.ofOptions (o.normal p) onTerminal = .ok q ∧
      q.route = p.route ∧ q.fileMode = p.fileMode ∧ q.directoryMode = p.directoryMode ∧
      q.retryInterval = p.retryInterval ∧ q.usesHttp2 = p.usesHttp2 ∧
      q.json = p.json ∧ (o.normal p).normal q = o.normal p := by
  obtain ⟨hdenotes, hprogress, hmodified⟩ := ofOptions_eq_ok_iff.1 h
  refine ⟨{ p with options := o.normal p }, ?_, rfl, rfl, rfl, rfl, rfl, ?_, ?_⟩
  · exact ofOptions_eq_ok_iff.2 ⟨hdenotes.normal, hprogress, hmodified⟩
  · exact json_normal hdenotes.options
  · exact o.normal_normal p _

end Normal

/-- Options whose texts are spelled in no normal way. -/
def roughOptions : Options := [
  Setting.text .acl "", .text .onFail "skipmissing", .text .bandwidth " 007 K",
  .text .fileMode "+0000644", .text .directoryMode "37777777777", .text .source "FS://a",
  .text .target "S3://me@photos/a%20b"].foldl Options.set Options.default

theorem roughOptions_normal : ∃ p, Plan.ofOptions roughOptions false = .ok p ∧
    [TextField.acl, .bandwidth, .fileMode, .directoryMode, .source, .target].map
        (roughOptions.normal p).text =
      ["", "7168", "0644", "37777777777", "fs://FS://a", "S3://me@photos/a%20b"] ∧
    ∃ q, Plan.ofOptions (roughOptions.normal p) false = .ok q ∧ q.route = p.route ∧
      q.json = p.json := by
  have htexts : ((Plan.ofOptions roughOptions false).toOption.map fun p =>
      [TextField.acl, .bandwidth, .fileMode, .directoryMode, .source, .target].map
        (roughOptions.normal p).text) = some
      ["", "7168", "0644", "37777777777", "fs://FS://a", "S3://me@photos/a%20b"] := by
    decide +kernel
  cases h : Plan.ofOptions roughOptions false with
  | error r => simp [h, Except.toOption] at htexts
  | ok p =>
      obtain ⟨q, hq, hroute, -, -, -, -, hjson, -⟩ := ofOptions_normal h
      refine ⟨p, rfl, ?_, q, hq, hroute, hjson⟩
      rw [h] at htexts
      exact Option.some.inj htexts

end SyncPlan
