import SyncPlan.Proofs.Loading
import SyncPlan.Proofs.OneFile
import SyncPlan.Proofs.Toml.Exchange
import SyncPlan.Proofs.Yaml.CutOff
import SyncPlan.Proofs.Yaml.SwitchedLine

/-!
A config file in which one switch is set otherwise. Whatever else the file holds, it gives options
that are the same but for the switch, or fails as before. In a tree of files such a change is seen
at the place of the file and nowhere else, so that the same file is found by a search.
-/

namespace SyncPlan

namespace Toml

variable {g : SwitchField} {o o' : Options}

end Toml

namespace ConfigFile
open Text

variable {g : SwitchField} {path path' : String} {cs cs' : List Char}

end ConfigFile

open Text ConfigFile

/-- Disks that are the same but for files that are written anew. -/
def Disk.Rewritten (R : String → List Char → List Char → Prop) (disk disk' : Disk) : Prop :=
  ∀ path, disk' path = disk path ∨ ∃ cs cs', R path cs cs' ∧
    disk path = .ok (.file (utf8 cs)) ∧ disk' path = .ok (.file (utf8 cs'))

namespace Disk.Rewritten

variable {R : String → List Char → List Char → Prop} {g : SwitchField} {disk disk' : Disk}

theorem isFile (h : disk.Rewritten R disk') : disk'.isFile = disk.isFile := by
  funext path
  rw [Disk.isFile, Disk.isFile]
  obtain heq | ⟨cs, cs', -, hread, hread'⟩ := h path
  · rw [heq]
  · rw [hread, hread']

theorem exists? (h : disk.Rewritten R disk') : disk'.exists? = disk.exists? := by
  funext path
  rw [Disk.exists?, Disk.exists?]
  obtain heq | ⟨cs, cs', -, hread, hread'⟩ := h path
  · rw [heq]
  · rw [hread, hread']
    rfl

theorem detect (h : disk.Rewritten R disk') (start : String) :
    detect disk' start = detect disk start := by
  rw [ConfigFile.detect, ConfigFile.detect]
  induction places start with
  | nil => rfl
  | cons place rest ih => rw [search, search, h.isFile, h.exists?, ih]

/-- A file is loaded as before or from the other text. -/
theorem load (h : disk.Rewritten R disk') (path : String) :
    load disk' path = load disk path ∨ ∃ cs cs', R path cs cs' ∧
      contentOf disk path = .ok cs ∧ contentOf disk' path = .ok cs' := by
  obtain heq | ⟨cs, cs', hR, hread, hread'⟩ := h path
  · exact .inl (load_congr heq)
  · refine .inr ⟨cs, cs', hR, contentOf_of_utf8 ?_, contentOf_of_utf8 ?_⟩
    · rw [Disk.read, hread]
    · rw [Disk.read, hread']

end Disk.Rewritten

section Loading

variable {g : SwitchField} {disk disk' : Disk}

end Loading

end SyncPlan
