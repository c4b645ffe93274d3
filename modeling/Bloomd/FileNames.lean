import Bloomd.MetadataRoundTrip

/-! The five kinds of files that belong to a filter. No two of them share a place, not
even when both roots are one directory, and the loader takes none but the metadata file
for a filter. -/

namespace Bloomd

/-- The files of one filter: its metadata, the temporary file of a process, a copy that
was set aside at some time, the digest log, and the pin -/
inductive FileKind where
  | metadata
  | temporary (pid : Nat)
  | quarantined (now : Nat)
  | log
  | pin
  deriving DecidableEq, Repr

namespace FileKind

/-- The path that the daemon builds -/
def path (config : Config) (name : Bytes) : FileKind → Bytes
  | metadata => config.metaPathOf name
  | temporary pid => tempPath (config.metaPathOf name) pid
  | quarantined now => config.metaPathOf name ++ bytes ".stale." ++ natText now
  | log => config.logPathOf name
  | pin => config.pinPathOf name

def root (config : Config) : FileKind → Bytes
  | pin => config.pinRoot
  | _ => config.metaRoot

/-- What follows the name of the filter -/
def suffix : FileKind → Bytes
  | metadata => bytes ".meta"
  | temporary pid => bytes ".meta.tmp." ++ natText pid
  | quarantined now => bytes ".meta.stale." ++ natText now
  | log => bytes ".digests"
  | pin => []

theorem path_eq_joined (config : Config) (name : Bytes) (kind : FileKind) :
    kind.path config name = joined (kind.root config) name kind.suffix := by
  cases kind with
  | metadata => rfl
  | temporary pid => simp [path, tempPath, Config.metaPathOf, joined, root, suffix, bytes]
  | quarantined now => simp [path, Config.metaPathOf, joined, root, suffix, bytes]
  | log => rfl
  | pin => rfl

theorem slash_not_mem_suffix (kind : FileKind) : slash ∉ kind.suffix := by
  cases kind with
  | metadata => decide
  | temporary pid => exact fun member => (List.mem_append.mp member).elim (by decide) (slash_not_mem_natText pid)
  | quarantined now => exact fun member => (List.mem_append.mp member).elim (by decide) (slash_not_mem_natText now)
  | log => decide
  | pin => decide

theorem component (kind : FileKind) {name : Bytes} (valid : nameIsValid name = true) :
    Component (name ++ kind.suffix) :=
  component_of_valid valid kind.suffix kind.slash_not_mem_suffix

/-- The kind of a file, read off its suffix -/
def ofSuffix (suffix : Bytes) : FileKind :=
  if suffix.take 7 = bytes ".meta.t" then temporary (digitsValue (suffix.drop 10))
  else if suffix.take 7 = bytes ".meta.s" then quarantined (digitsValue (suffix.drop 12))
  else if suffix = bytes ".meta" then metadata
  else if suffix = bytes ".digests" then log
  else pin

theorem ofSuffix_suffix (kind : FileKind) : ofSuffix kind.suffix = kind := by
  cases kind with
  | metadata => decide
  | temporary pid =>
    have front : (suffix (temporary pid)).take 7 = bytes ".meta.t" := rfl
    have number : (suffix (temporary pid)).drop 10 = natText pid := rfl
    rw [ofSuffix, if_pos front, number, digitsValue_natText]
  | quarantined now =>
    have front : (suffix (quarantined now)).take 7 = bytes ".meta.s" := rfl
    have number : (suffix (quarantined now)).drop 12 = natText now := rfl
    have other : ¬ bytes ".meta.s" = bytes ".meta.t" := by decide
    rw [ofSuffix, front, if_neg other, if_pos rfl, number, digitsValue_natText]
  | log => decide
  | pin => decide

theorem suffix_injective : Function.Injective suffix :=
  Function.LeftInverse.injective ofSuffix_suffix

/-- A suffix is empty or begins with a dot, which no name contains. -/
theorem suffix_dotted (kind : FileKind) : kind.suffix = [] ∨ ∃ rest, kind.suffix = 46 :: rest := by
  cases kind with
  | metadata => exact Or.inr ⟨_, rfl⟩
  | temporary pid => exact Or.inr ⟨_, rfl⟩
  | quarantined now => exact Or.inr ⟨_, rfl⟩
  | log => exact Or.inr ⟨_, rfl⟩
  | pin => exact Or.inl rfl

/-- The name of a filter is what stands before the first dot. -/
theorem takeWhile_leaf (kind : FileKind) {name : Bytes} (valid : nameIsValid name = true) :
    (name ++ kind.suffix).takeWhile (fun char => char != 46) = name := by
  have plain : ∀ char ∈ name, (char != 46) = true := by
    intro char member
    have dotless : (46 : UInt8) ∉ name := not_mem_of_valid valid (by decide)
    simp only [bne_iff_ne, ne_eq]
    rintro rfl
    exact dotless member
  rw [List.takeWhile_append_of_pos plain]
  rcases kind.suffix_dotted with none | ⟨rest, dotted⟩
  · rw [none, List.takeWhile_nil, List.append_nil]
  · rw [dotted, List.takeWhile_cons_of_neg (by decide), List.append_nil]

theorem leaf_injective {kind kind' : FileKind} {name name' : Bytes} (valid : nameIsValid name = true)
    (valid' : nameIsValid name' = true) (same : name ++ kind.suffix = name' ++ kind'.suffix) :
    kind = kind' ∧ name = name' := by
  have named : name = name' := by
    rw [← kind.takeWhile_leaf valid, ← kind'.takeWhile_leaf valid', same]
  subst named
  exact ⟨suffix_injective (List.append_cancel_left same), rfl⟩

theorem leaf_path (config : Config) (kind : FileKind) {name : Bytes} (valid : nameIsValid name = true) :
    (resolve (kind.path config name)).leaf = name ++ kind.suffix := by
  rw [path_eq_joined]
  exact leaf_resolve_joined _ _ _ (kind.component valid)

/-- Where a file of a filter lies: right below its root, under a name that is none of the
two special entries of a directory -/
structure Below (config : Config) (name : Bytes) (kind : FileKind) : Prop where
  text : kind.path config name = kind.root config ++ slash :: (name ++ kind.suffix)
  component : Component (name ++ kind.suffix)
  ordinary : name ++ kind.suffix ≠ bytes "." ∧ name ++ kind.suffix ≠ bytes ".."
  place : kind.root config ≠ [] →
    resolve (kind.path config name) = (resolve (kind.root config)).child (name ++ kind.suffix)

theorem below (config : Config) {name : Bytes} (valid : nameIsValid name = true) (kind : FileKind) :
    Below config name kind := by
  have first : ∀ rest : Bytes, name ++ kind.suffix ≠ 46 :: rest := by
    intro rest same
    have dotless : (46 : UInt8) ∉ name := not_mem_of_valid valid (by decide)
    cases name with
    | nil => exact nonempty_of_valid valid rfl
    | cons char more =>
      obtain ⟨rfl, -⟩ := List.cons.inj same
      exact dotless List.mem_cons_self
  constructor
  · exact path_eq_joined config name kind
  · exact kind.component valid
  · exact ⟨first _, first _⟩
  · intro rooted
    rw [path_eq_joined, resolve_joined _ _ _ rooted (kind.component valid)]

end FileKind

/-- An entry has a name exactly when it is the metadata file of that valid name. -/
theorem metaEntryName_eq_ok_iff {entry name : Bytes} :
    metaEntryName entry = .ok name ↔ entry = metaLeaf name ∧ nameIsValid name = true := by
  constructor
  · exact metaEntryName_ok
  · rintro ⟨rfl, valid⟩
    exact metaEntryName_metaLeaf valid

/-- Files of different filters, and different files of one filter, lie at different
places right below their roots, and only a metadata file is loaded, under its name. -/
theorem filter_files_apart (config : Config) :
    (∀ kind kind' name name', nameIsValid name = true → nameIsValid name' = true →
      resolve (FileKind.path config name kind) = resolve (FileKind.path config name' kind') →
        kind = kind' ∧ name = name') ∧
    (∀ kind name, nameIsValid name = true → FileKind.Below config name kind) ∧
    (∀ entry name, metaEntryName entry = .ok name ↔ entry = metaLeaf name ∧ nameIsValid name = true) ∧
    (∀ kind name found, nameIsValid name = true →
      metaEntryName (resolve (FileKind.path config name kind)).leaf = .ok found →
        kind = .metadata ∧ found = name) := by
  refine ⟨?_, ?_, ?_, ?_⟩
  · intro kind kind' name name' valid valid' same
    have leaf := congrArg Loc.leaf same
    rw [FileKind.leaf_path config kind valid, FileKind.leaf_path config kind' valid'] at leaf
    exact FileKind.leaf_injective valid valid' leaf
  · exact fun kind name valid => FileKind.below config valid kind
  · exact fun entry name => metaEntryName_eq_ok_iff
  · intro kind name found valid loaded
    rw [FileKind.leaf_path config kind valid] at loaded
    obtain ⟨entry, valid'⟩ := metaEntryName_ok loaded
    obtain ⟨own, rfl⟩ := @FileKind.leaf_injective kind .metadata name found valid valid' entry
    exact ⟨own, rfl⟩

/-- One directory for both roots: the pin of one filter and the copy of another one's file
that was set aside -/
theorem filter_files_apart_shared :
    resolve (FileKind.path ⟨bytes "/r", bytes "/r", .always⟩ demoName .pin) ≠
      resolve (FileKind.path ⟨bytes "/r", bytes "/r", .always⟩ (bytes "y") (.quarantined 7)) := by
  intro same
  have apart := (filter_files_apart ⟨bytes "/r", bytes "/r", .always⟩).1 _ _ _ _ (by decide) (by decide) same
  exact absurd apart.2 (by decide)

end Bloomd
