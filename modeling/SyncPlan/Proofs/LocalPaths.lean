import SyncPlan.Proofs.EndpointGrammar
import SyncPlan.Proofs.Resolution

/-!
Paths of the local file system. A text is one unless it begins with the scheme of object stores, and
then nothing can be wrong with it. Of its characters only a scheme of the file system that is
spelled in just one way is not part of the path, so that the text of a path can be told from the
path but for such a scheme.
-/

namespace SyncPlan

namespace Endpoint
open Text

/-- A text that begins with the scheme of object stores, in either case. -/
def IsStoreText (s : String) : Prop := ∃ rest, s = "s3:" ++ rest ∨ s = "S3:" ++ rest

/-- A character in lower case is the character itself, or the small letter of a capital one. -/
theorem eq_or_capital_of_toLower {c d : Char} (h : c.toLower = d) :
    c = d ∨ 65 ≤ c.toNat ∧ c.toNat + 32 = d.toNat := by
  delta Char.toLower at h
  split at h
  · next hc =>
      have hlow : 65 ≤ c.toNat := UInt32.le_iff_toNat_le.1 hc.1
      have hhigh : c.toNat ≤ 90 := UInt32.le_iff_toNat_le.1 hc.2
      have hval : d.toNat = (c.val + ('a'.val - 'A'.val)).toNat := by
        rw [← h]
        rfl
      have hsum : (c.val + ('a'.val - 'A'.val)).toNat = (c.toNat + 32) % 2 ^ 32 :=
        UInt32.toNat_add _ _
      omega
  · exact .inl h

/-- The comparison in lower case takes two spellings and no more. -/
theorem isScheme_s3_iff {scheme : List Char} :
    isScheme "s3" scheme = true ↔ IsStoreScheme scheme := by
  refine ⟨?_, fun h => h.isScheme⟩
  intro h
  have hmap : scheme.map Char.toLower = ['s', '3'] := beq_iff_eq.1 h
  obtain ⟨c, rest, rfl, hc, hrest⟩ := List.map_eq_cons_iff.1 hmap
  obtain ⟨d, rest, rfl, hd, hnil⟩ := List.map_eq_cons_iff.1 hrest
  obtain rfl := List.map_eq_nil_iff.1 hnil
  obtain rfl : d = '3' := by
    have hthree : '3'.toNat = 51 := rfl
    exact (eq_or_capital_of_toLower hd).resolve_right (by omega)
  obtain rfl | ⟨-, hcapital⟩ := eq_or_capital_of_toLower hc
  · exact .inl rfl
  · obtain rfl : c = 'S' := Char.toNat_inj.1 (Nat.add_right_cancel hcapital)
    exact .inr rfl

variable {s : String}

theorem isStoreText_iff : IsStoreText s ↔
    ∃ scheme rest, IsStoreScheme scheme ∧ s.toList = scheme ++ ':' :: rest := by
  constructor
  · intro h
    obtain ⟨rest, rfl | rfl⟩ := h
    · exact ⟨['s', '3'], rest.toList, .inl rfl, String.toList_append⟩
    · exact ⟨['S', '3'], rest.toList, .inr rfl, String.toList_append⟩
  · intro h
    obtain ⟨scheme, rest, rfl | rfl, hs⟩ := h
    · exact ⟨String.ofList rest, .inl (String.toList_inj.1 (by simp [hs]))⟩
    · exact ⟨String.ofList rest, .inr (String.toList_inj.1 (by simp [hs]))⟩

/-- The scheme of object stores is found just where a text begins with it. -/
theorem isStoreText_iff_scheme? : IsStoreText s ↔
    ∃ scheme, scheme? s.toList = some scheme ∧ isScheme "s3" scheme = true := by
  simp only [isStoreText_iff, scheme?_eq_some_iff, isScheme_s3_iff]
  constructor
  · intro h
    obtain ⟨scheme, rest, hscheme, hs⟩ := h
    exact ⟨scheme, ⟨hscheme.isSchemeText, rest, hs⟩, hscheme⟩
  · intro h
    obtain ⟨scheme, ⟨-, rest, hs⟩, hscheme⟩ := h
    exact ⟨scheme, rest, hscheme, hs⟩

theorem toList_fs (p : String) :
    ("fs://" ++ p).toList = ['f', 's'] ++ ':' :: '/' :: '/' :: p.toList :=
  String.toList_append

theorem scheme?_fs (p : String) : scheme? ("fs://" ++ p).toList = some ['f', 's'] :=
  scheme?_eq_some_iff.2 ⟨⟨'f', ['s'], rfl, rfl, List.all_eq_true.1 (by decide)⟩, _, toList_fs p⟩

theorem filesystemPath_of_ne (h : ∀ p, s ≠ "fs://" ++ p) : filesystemPath s.toList = s.toList := by
  rw [filesystemPath.eq_def]
  split
  · next rest heq =>
      have hs : s = "fs://" ++ String.ofList rest := by
        rw [← String.toList_inj, toList_fs, heq, String.toList_ofList]
        rfl
      exact absurd hs (h _)
  · rfl

/-- A text that does not begin with the scheme of object stores is read as a path. -/
theorem read_of_not_isStoreText (h : ¬IsStoreText s) :
    read s = .ok (.filesystem (String.ofList (filesystemPath s.toList))) := by
  have hplain (hne : ∀ p, s ≠ "fs://" ++ p) : String.ofList (filesystemPath s.toList) = s := by
    rw [filesystemPath_of_ne hne, String.ofList_toList]
  rw [read]
  split
  · next hnone =>
      rw [hplain]
      rintro p rfl
      rw [scheme?_fs] at hnone
      exact absurd hnone (Option.some_ne_none _)
  · next scheme hscheme =>
      have hs3 : ¬isScheme "s3" scheme = true := fun hs3 =>
        h (isStoreText_iff_scheme?.2 ⟨scheme, hscheme, hs3⟩)
      rw [if_neg hs3]
      split
      · rfl
      · next hfs =>
          rw [hplain]
          rintro p rfl
          rw [scheme?_fs] at hscheme
          exact hfs (Option.some.inj hscheme ▸ rfl)

theorem isObjectStore_of_readObjectStore {cs : List Char} {e : Endpoint}
    (h : readObjectStore cs = .ok e) : e.isObjectStore = true := by
  rw [readObjectStore] at h
  split at h
  · simp at h
  · split at h
    · simp at h
    · dsimp only at h
      split at h
      · simp at h
      · split at h
        · simp at h
        · exact Except.ok.inj h ▸ rfl

/-- One that does is never read as a path. -/
theorem read_ne_filesystem (h : IsStoreText s) (path : String) :
    read s ≠ .ok (.filesystem path) := by
  obtain ⟨scheme, hscheme, hs3⟩ := isStoreText_iff_scheme?.1 h
  rw [read, hscheme]
  simp only [hs3, if_true]
  intro hread
  exact absurd (isObjectStore_of_readObjectStore hread) (by simp [isObjectStore])

theorem not_isStoreText_fs (p : String) : ¬IsStoreText ("fs://" ++ p) := by
  rw [isStoreText_iff_scheme?]
  rintro ⟨scheme, hscheme, hs3⟩
  rw [scheme?_fs] at hscheme
  obtain rfl := Option.some.inj hscheme
  exact absurd hs3 (by decide)

/-- All behind the scheme is the path, also where it looks like a scheme itself. -/
theorem read_fs (path : String) : read ("fs://" ++ path) = .ok (.filesystem path) := by
  rw [read_of_not_isStoreText (not_isStoreText_fs path), toList_fs]
  exact congrArg _ (congrArg _ String.ofList_toList)

theorem read_plain (hstore : ¬IsStoreText s) (hfs : ∀ p, s ≠ "fs://" ++ p) :
    read s = .ok (.filesystem s) := by
  rw [read_of_not_isStoreText hstore, filesystemPath_of_ne hfs, String.ofList_toList]

/-- The text of a path is the path, but for its scheme. -/
theorem eq_or_fs_of_read {path : String} (h : read s = .ok (.filesystem path)) :
    s = path ∨ s = "fs://" ++ path := by
  have hstore : ¬IsStoreText s := fun hs => read_ne_filesystem hs path h
  by_cases hfs : ∃ p, s = "fs://" ++ p
  · obtain ⟨p, rfl⟩ := hfs
    rw [read_fs] at h
    simp only [Except.ok.injEq, filesystem.injEq] at h
    exact .inr (h ▸ rfl)
  · rw [read_plain hstore fun p hp => hfs ⟨p, hp⟩] at h
    simp only [Except.ok.injEq, filesystem.injEq] at h
    exact .inl h

end Endpoint

open Endpoint

/-- What fails or is an object store begins with the scheme of one. -/
theorem fails_or_objectStore_iff {side : Side} {s : String} :
    ((∃ r, readEndpoint side s = .error r) ∨
      ∃ bucket path, readEndpoint side s = .ok (.objectStore bucket path)) ↔ IsStoreText s := by
  constructor
  · intro h
    by_contra hstore
    rw [readEndpoint, read_of_not_isStoreText hstore] at h
    simp at h
  · intro h
    rw [readEndpoint]
    cases hread : Endpoint.read s with
    | error fault => exact .inl ⟨_, rfl⟩
    | ok e =>
        cases e with
        | objectStore bucket path => exact .inr ⟨bucket, path, rfl⟩
        | filesystem path => exact absurd hread (read_ne_filesystem h path)

/-- Only a text that begins with the scheme of object stores fails or is an object store, and there
the reader finds this scheme. Every other text is a path: without its scheme, if that is spelled in
small letters and two slashes come behind it, and otherwise as it stands. So every path can be given
behind a scheme, and texts of one path are the same but for one. -/
theorem readEndpoint_by_prefix (side : Side) :
    (∀ s, ((∃ r, readEndpoint side s = .error r) ∨
        ∃ bucket path, readEndpoint side s = .ok (.objectStore bucket path)) ↔ IsStoreText s) ∧
    (∀ s, (∃ scheme, scheme? s.toList = some scheme ∧ isScheme "s3" scheme = true) ↔
      IsStoreText s) ∧
    (∀ s, ¬IsStoreText s → ∃ e, readEndpoint side s = .ok e ∧ e.isObjectStore = false ∧
      e.bucket = "" ∧
      ((∃ p, s = "fs://" ++ p ∧ e.path = p) ∨ ((∀ p, s ≠ "fs://" ++ p) ∧ e.path = s))) ∧
    (∀ p, readEndpoint side ("fs://" ++ p) = .ok (.filesystem p)) ∧
    (∀ s s' e, readEndpoint side s = .ok e → readEndpoint side s' = .ok e →
      e.isObjectStore = false → s = s' ∨ s = "fs://" ++ s' ∨ s' = "fs://" ++ s) := by
  refine ⟨fun s => fails_or_objectStore_iff, fun s => isStoreText_iff_scheme?.symm, ?_, ?_, ?_⟩
  · intro s hstore
    by_cases hfs : ∃ p, s = "fs://" ++ p
    · obtain ⟨p, rfl⟩ := hfs
      exact ⟨_, endpoint_eq_ok_iff.2 (read_fs p), rfl, rfl, .inl ⟨p, rfl, rfl⟩⟩
    · have hne : ∀ p, s ≠ "fs://" ++ p := fun p hp => hfs ⟨p, hp⟩
      exact ⟨_, endpoint_eq_ok_iff.2 (read_plain hstore hne), rfl, rfl, .inr ⟨hne, rfl⟩⟩
  · exact fun p => endpoint_eq_ok_iff.2 (read_fs p)
  · intro s s' e hs hs' he
    cases e with
    | objectStore bucket path => simp [isObjectStore] at he
    | filesystem path =>
        obtain rfl | rfl := eq_or_fs_of_read (endpoint_eq_ok_iff.1 hs)
        · obtain rfl | rfl := eq_or_fs_of_read (endpoint_eq_ok_iff.1 hs')
          · exact .inl rfl
          · exact .inr (.inr rfl)
        · obtain rfl | rfl := eq_or_fs_of_read (endpoint_eq_ok_iff.1 hs')
          · exact .inr (.inl rfl)
          · exact .inl rfl

/-- A scheme in another case, or one behind another, is part of a path. -/
theorem readEndpoint_awkward_paths :
    (∃ e, readEndpoint .source "FS://s3:a" = .ok e ∧ e.path = "FS://s3:a") ∧
      readEndpoint .target "fs://s3://b/k" = .ok (.filesystem "s3://b/k") ∧
      readEndpoint .target "fs://fs:x" = .ok (.filesystem "fs:x") ∧
      readEndpoint .target "fs:x" = .ok (.filesystem "fs:x") ∧
      ("fs://fs:x" = "fs:x" ∨ "fs://fs:x" = "fs://" ++ "fs:x" ∨
        "fs:x" = "fs://" ++ "fs://fs:x") := by
  obtain ⟨-, -, hplain, -, -⟩ := readEndpoint_by_prefix .source
  obtain ⟨-, -, -, hbehind, hsame⟩ := readEndpoint_by_prefix .target
  refine ⟨?_, hbehind "s3://b/k", by decide, by decide, ?_⟩
  · have hstore : ¬IsStoreText "FS://s3:a" := by
      rintro ⟨rest, h | h⟩ <;> simpa using congrArg String.toList h
    obtain ⟨e, he, -, -, ⟨p, hp, -⟩ | ⟨-, hpath⟩⟩ := hplain "FS://s3:a" hstore
    · simpa using congrArg String.toList hp
    · exact ⟨e, he, hpath⟩
  · exact hsame "fs://fs:x" "fs:x" (.filesystem "fs:x") (by decide) (by decide) rfl

end SyncPlan
