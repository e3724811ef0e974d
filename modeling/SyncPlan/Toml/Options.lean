import SyncPlan.ConfigFile.Defect
import SyncPlan.Toml.Document

/-!
Options from a TOML document. A document is read whole before its entries are looked at; these are
taken in order, and the first that does not fit is the defect of the document.
-/

namespace SyncPlan.Toml

def Value.given : Value → Given
  | .string s => .text s
  | .integer n => .integer n
  | .float x => .float x
  | .boolean b => .boolean b
  | .datetime => .mapping
  | .array _ => .sequence
  | .inlineTable => .mapping

def Tree.given : Tree → Given
  | .value v => v.given
  | .table .. => .mapping
  | .tables _ => .sequence

/-- The texts that are the items of an array. -/
def textsOf : List Given → Except Defect (List String)
  | [] => .ok []
  | .text s :: rest => (textsOf rest).map (s :: ·)
  | g :: _ => .error (.wrongType g .text)

/-- The items of an array, also one of tables. -/
def Tree.items? : Tree → Option (List Given)
  | .value (.array vs) => some (vs.map Value.given)
  | .tables rows => some (rows.map fun _ => .mapping)
  | _ => none

def integerSetting (f : Field) (n : Int) (make : Option Setting) : Except Defect Setting :=
  match make with
  | some s => .ok s
  | none => .error (.wrongValue (.integer n) f.wanted)

/-- The value of an option as an entry gives it. -/
def settingOf (f : Field) (t : Tree) : Except Defect Setting :=
  match f, t.given with
  | .text f, .text s => .ok (.text f s)
  | .count g, .integer n => integerSetting f n ((countOf? n).map (.count g))
  | .number g, .integer n => integerSetting f n ((numberOf? n).map (.number g))
  | .switch f, .boolean b => .ok (.switch f b)
  | .list g, given =>
    match t.items? with
    | some items => (textsOf items).map (.list g)
    | none => .error (.wrongType given f.wanted)
  | f, given => .error (.wrongType given f.wanted)

/-- Sets the options of entries, from the first on. -/
def entriesOptions (o : Options) : Entries → Except Defect Options
  | [] => .ok o
  | (key, t) :: rest =>
    match Field.ofKey? key with
    | none => .error (.unknownField key)
    | some f =>
      match settingOf f t with
      | .error d => .error d
      | .ok s => entriesOptions (o.set s) rest

end SyncPlan.Toml

namespace SyncPlan

/-- The options of a TOML text. -/
def Options.ofToml (cs : List Char) : Except Defect Options :=
  match Toml.read cs with
  | none => .error .malformed
  | some entries => Toml.entriesOptions .default entries

end SyncPlan
