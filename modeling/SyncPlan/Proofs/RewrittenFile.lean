import SyncPlan.Proofs.Ancestry
import SyncPlan.Proofs.ConfigFile.SwitchedFile

/-!
A file that is written anew. The new content is seen at the place of the file and nowhere else, and
every path that leads there ends in the name of the file, so that the file keeps its format.
-/

namespace SyncPlan
open SyncPlan.Path Text

namespace Path

end Path

namespace FileTree

variable {t t' : FileTree} {place : List String}

section Writing

variable {front : List String} {name : String} {content content' : List UInt8}

end Writing

end FileTree

end SyncPlan
