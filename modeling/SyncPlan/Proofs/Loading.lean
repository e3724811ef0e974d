import SyncPlan.ConfigFile.Loading
import SyncPlan.Proofs.Text.Utf8

/-!
Loading a config file whose octets code a text: it comes to reading the text in the format that the
name of the file tells.
-/

namespace SyncPlan.ConfigFile
open Text

variable {disk : Disk} {path : String} {cs : List Char}

theorem contentOf_of_utf8 (hread : disk.read path = .ok (utf8 cs)) :
    contentOf disk path = .ok cs := by
  have hdecode : decodeUtf8 (utf8 cs) = .ok cs := decodeUtf8From_eq_ok_iff.2 rfl
  rw [contentOf, hread]
  simp only [hdecode]

theorem load_of_content (h : contentOf disk path = .ok cs) : load disk path =
    match optionsOf path cs with
    | .ok o => .ok o
    | .error d => .error ⟨path, d⟩ := by
  rw [load, h]
  rfl

theorem load_of_utf8 {o : Options} (hread : disk.read path = .ok (utf8 cs))
    (ho : optionsOf path cs = .ok o) : load disk path = .ok o := by
  rw [load_of_content (contentOf_of_utf8 hread), ho]

theorem optionsOf_of_not_isYaml
    (h : ∀ e, (Path.ofText path).extension? = some e → e ≠ "yaml" ∧ e ≠ "yml") (cs : List Char) :
    optionsOf path cs = Options.ofToml cs := by
  have hyaml : isYaml path = false := by
    rw [isYaml]
    split
    · next e he => simp [h e he]
    · rfl
  simp [optionsOf, hyaml]

theorem optionsOf_of_isYaml
    (h : (Path.ofText path).extension? = some "yaml" ∨
      (Path.ofText path).extension? = some "yml") (cs : List Char) :
    optionsOf path cs = Options.ofYaml cs := by
  have hyaml : isYaml path = true := by
    rcases h with h | h <;> simp [isYaml, h]
  simp [optionsOf, hyaml]

end SyncPlan.ConfigFile
