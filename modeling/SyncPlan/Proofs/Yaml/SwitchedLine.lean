import SyncPlan.Proofs.Yaml.Exchange
import SyncPlan.Proofs.Yaml.Writing

/-!
A line with another word for a switch among the lines of a block mapping. From the next line on the
scanner and the grammar are in the same state whatever the word, so that two texts with different
words are the same document but for the value of this entry.
-/

namespace SyncPlan.Yaml
open Text

section Tokens

variable {capital : Bool} {key back : List Char}

end Tokens

section Documents
open Grammar

variable {key back : List Char}

end Documents

end SyncPlan.Yaml
