import Bloomd.FilterSet

/-! What the paths of a filter lead to. Valid names have neither slashes nor dots,
so the last components of the metadata file, its temporary and quarantined copies,
the log and the pin tell filters and kinds of files apart. -/

namespace Bloomd

def metaLeaf (name : Bytes) : Bytes := name ++ bytes ".meta"
def logLeaf (name : Bytes) : Bytes := name ++ bytes ".digests"

def Config.metaPathOf (config : Config) (name : Bytes) : Bytes :=
  joined config.metaRoot name (bytes ".meta")

def Config.logPathOf (config : Config) (name : Bytes) : Bytes :=
  joined config.metaRoot name (bytes ".digests")

def Config.pinPathOf (config : Config) (name : Bytes) : Bytes := joined config.pinRoot name []

/-- A component of a path that names an entry: not empty, no dots alone and without a slash -/
structure Component (leaf : Bytes) : Prop where
  nonempty : leaf ≠ []
  undotted : leaf ≠ [dot] ∧ leaf ≠ [dot, dot]
  plain : slash ∉ leaf

theorem Component.enter {leaf : Bytes} (component : Component leaf) (absolute : Bool) (parts : List Bytes) :
    Bloomd.enter absolute parts leaf = parts ++ [leaf] := by
  simp [Bloomd.enter, component.nonempty, component.undotted]

theorem splitOn_joined (root leaf suffix : Bytes) (component : Component (leaf ++ suffix)) :
    (joined root leaf suffix).splitOn slash = root.splitOn slash ++ [leaf ++ suffix] := by
  rw [joined, List.splitOn_append_cons_self, List.splitOn_eq_singleton component.plain]

theorem leaf_resolve_joined (root leaf suffix : Bytes) (component : Component (leaf ++ suffix)) :
    (resolve (joined root leaf suffix)).leaf = leaf ++ suffix := by
  simp [Loc.leaf, resolve, splitOn_joined root leaf suffix component, component.enter]

/-- A path below a root is an entry of the directory the root leads to. -/
theorem resolve_joined (root leaf suffix : Bytes) (rooted : root ≠ [])
    (component : Component (leaf ++ suffix)) :
    resolve (joined root leaf suffix) = (resolve root).child (leaf ++ suffix) := by
  have same : (joined root leaf suffix).head? = root.head? := by
    cases root with
    | nil => exact absurd rfl rooted
    | cons head tail => rfl
  simp [resolve, splitOn_joined root leaf suffix component, component.enter, same, Loc.child]

theorem joinPath_ok (built : joinPath root leaf suffix = .ok path) :
    (joined root leaf suffix).length < pathMax ∧ path = joined root leaf suffix := by
  unfold joinPath at built
  split at built
  · cases built
  · cases built
    exact ⟨by omega, rfl⟩

theorem leaf_resolve_of_pathHasName (component : Component name) (named : pathHasName path name = true) :
    (resolve path).leaf = name := by
  have last : (path.splitOn slash).getLast? = some name := by
    have both : slash ∈ path ∧ (path.splitOn slash).getLast? = some name := by
      simpa [pathHasName] using named
    exact both.2
  obtain ⟨front, parts⟩ := List.getLast?_eq_some_iff.mp last
  simp [Loc.leaf, resolve, parts, component.enter]

theorem nameChar_of_valid (valid : nameIsValid name = true) (member : char ∈ name) :
    nameChar char = true := by
  have parts : (¬ name = [] ∧ name.length ≤ maxNameLen) ∧ ∀ char ∈ name, nameChar char = true := by
    simpa [nameIsValid] using valid
  exact parts.2 char member

theorem nonempty_of_valid (valid : nameIsValid name = true) : name ≠ [] := by
  have parts : (¬ name = [] ∧ name.length ≤ maxNameLen) ∧ ∀ char ∈ name, nameChar char = true := by
    simpa [nameIsValid] using valid
  exact parts.1.1

theorem length_of_valid (valid : nameIsValid name = true) : name.length ≤ maxNameLen := by
  have parts : (¬ name = [] ∧ name.length ≤ maxNameLen) ∧ ∀ char ∈ name, nameChar char = true := by
    simpa [nameIsValid] using valid
  exact parts.1.2

theorem not_mem_of_valid (valid : nameIsValid name = true) (other : nameChar char = false) :
    char ∉ name := by
  intro member
  simp [nameChar_of_valid valid member] at other

theorem component_of_valid (valid : nameIsValid name = true) (suffix : Bytes)
    (plain : slash ∉ suffix) : Component (name ++ suffix) where
  nonempty := by simp [nonempty_of_valid valid]
  undotted := by
    have dotless : dot ∉ name := not_mem_of_valid valid (by decide)
    cases name with
    | nil => exact absurd rfl (nonempty_of_valid valid)
    | cons head tail =>
      have other : head ≠ dot := fun same => dotless (same ▸ List.mem_cons_self)
      simp [other]
  plain := by
    simp only [List.mem_append, not_or]
    exact ⟨not_mem_of_valid valid (by decide), plain⟩

theorem component_of_name (valid : nameIsValid name = true) : Component name := by
  have component := component_of_valid valid [] (by decide)
  rwa [List.append_nil] at component

theorem natText_digit (member : byte ∈ natText n) : 48 ≤ byte ∧ byte ≤ 57 := by
  obtain ⟨digit, found, rfl⟩ := List.mem_map.mp member
  have decimal : digit.isDigit = true := Nat.isDigit_of_mem_toDigits (by decide) (by decide) found
  have bounds : 48 ≤ digit.toNat ∧ digit.toNat ≤ 57 := by
    simp only [Char.isDigit, Bool.and_eq_true, decide_eq_true_eq] at decimal
    exact decimal
  constructor
  · simp only [UInt8.le_iff_toNat_le, Nat.toUInt8_eq, UInt8.toNat_ofNat']
    rw [Nat.mod_eq_of_lt (by omega)]
    exact bounds.1
  · simp only [UInt8.le_iff_toNat_le, Nat.toUInt8_eq, UInt8.toNat_ofNat']
    rw [Nat.mod_eq_of_lt (by omega)]
    exact bounds.2

theorem natText_ne_nil (n : Nat) : natText n ≠ [] := by
  simp [natText, Nat.toDigits_ne_nil]

theorem slash_not_mem_natText (n : Nat) : slash ∉ natText n := by
  intro member
  have digit := natText_digit member
  revert digit
  decide

section Leaves

variable (config : Config) {name other : Bytes} (valid : nameIsValid name = true)
include valid

theorem leaf_metaPathOf : (resolve (config.metaPathOf name)).leaf = metaLeaf name :=
  leaf_resolve_joined _ _ _ (component_of_valid valid _ (by decide))

theorem leaf_logPathOf : (resolve (config.logPathOf name)).leaf = logLeaf name :=
  leaf_resolve_joined _ _ _ (component_of_valid valid _ (by decide))

theorem leaf_pinPathOf : (resolve (config.pinPathOf name)).leaf = name := by
  rw [Config.pinPathOf, leaf_resolve_joined _ _ _ (component_of_valid valid _ (by decide)),
    List.append_nil]

/-- The leaf of a copy beside the metadata file, `mark` being `.tmp.` or `.stale.` -/
theorem leaf_copy (mark : Bytes) (plain : slash ∉ mark) (n : Nat) :
    (resolve (config.metaPathOf name ++ mark ++ natText n)).leaf =
      metaLeaf name ++ mark ++ natText n := by
  have same : config.metaPathOf name ++ mark ++ natText n =
      joined config.metaRoot name (bytes ".meta" ++ mark ++ natText n) := by
    simp [Config.metaPathOf, joined]
  have component : Component (name ++ (bytes ".meta" ++ mark ++ natText n)) := by
    refine component_of_valid valid _ ?_
    simp only [List.mem_append, not_or]
    exact ⟨⟨by decide, plain⟩, slash_not_mem_natText n⟩
  rw [same, leaf_resolve_joined _ _ _ component]
  simp [metaLeaf]

end Leaves

theorem metaLeaf_injective (same : metaLeaf name = metaLeaf other) : name = other :=
  List.append_cancel_right same

theorem logLeaf_injective (same : logLeaf name = logLeaf other) : name = other :=
  List.append_cancel_right same

/-- A numbered copy ends in a digit, so it is nobody's metadata file. -/
theorem copy_ne_metaLeaf (front : Bytes) (n : Nat) (name : Bytes) :
    front ++ natText n ≠ metaLeaf name := by
  intro same
  have last := congrArg List.getLast? same
  rw [List.getLast?_append_of_ne_nil _ (natText_ne_nil n)] at last
  have ending : (metaLeaf name).getLast? = some 97 := by
    rw [metaLeaf, List.getLast?_append_of_ne_nil _ (by decide)]
    decide
  rw [ending] at last
  have digit := natText_digit (List.mem_of_getLast? last)
  revert digit
  decide

/-- On valid names the comparison of the lookups is equality. -/
theorem nameMatches_iff (stored : nameIsValid kept = true) (asked : nameIsValid name = true) :
    nameMatches kept name = true ↔ kept = name := by
  have zero : (0 : UInt8) ∉ kept := not_mem_of_valid stored (by decide)
  have bound := length_of_valid stored
  have bound' := length_of_valid asked
  constructor
  · intro matched
    have parts : (nameBuffer kept)[name.length]? = some 0 ∧ (nameBuffer kept).take name.length = name := by
      simpa [nameMatches] using matched
    obtain ⟨ended, equal⟩ := parts
    have long : kept.length ≤ name.length := by
      by_contra short
      rw [nameBuffer, List.getElem?_append_left (by omega)] at ended
      exact zero (List.mem_of_getElem? ended)
    rcases Nat.lt_or_eq_of_le long with longer | same
    · have padded : (nameBuffer kept)[kept.length]? = some 0 := by
        rw [nameBuffer, List.getElem?_append_right (by omega)]
        simp only [Nat.sub_self, List.getElem?_replicate]
        rw [if_pos (by omega)]
      have inside : name[kept.length]? = some 0 := by
        rw [← equal, List.getElem?_take_of_lt longer]
        exact padded
      exact absurd (List.mem_of_getElem? inside) (not_mem_of_valid asked (by decide))
    · rw [nameBuffer, ← same, List.take_left] at equal
      exact equal
  · rintro rfl
    have ended : (nameBuffer kept)[kept.length]? = some 0 := by
      rw [nameBuffer, List.getElem?_append_right (by omega)]
      simp only [Nat.sub_self, List.getElem?_replicate]
      rw [if_pos (by omega)]
    have front : (nameBuffer kept).take kept.length = kept := by simp [nameBuffer]
    simp [nameMatches, ended, front]

theorem hasSuffix_append (front suffix : Bytes) : hasSuffix (front ++ suffix) suffix = true := by
  simp [hasSuffix]

theorem hasSuffix_metaLeaf (name : Bytes) : hasSuffix (metaLeaf name) (bytes ".meta") = true :=
  hasSuffix_append name _

theorem metaEntryName_metaLeaf (valid : nameIsValid name = true) :
    metaEntryName (metaLeaf name) = .ok name := by
  have length : (metaLeaf name).length - (bytes ".meta").length = name.length := by
    simp [metaLeaf]
  have nonempty : name.length ≠ 0 := by simp [nonempty_of_valid valid]
  have bound := length_of_valid valid
  have front : (metaLeaf name).take name.length = name := by simp [metaLeaf]
  rw [metaEntryName, hasSuffix_metaLeaf]
  simp only [Bool.not_true, Bool.false_eq_true, ↓reduceIte]
  rw [length, front, if_neg (by omega), if_pos valid]

/-- Only the metadata file of a valid name has an entry name. -/
theorem metaEntryName_ok (found : metaEntryName entry = .ok name) :
    entry = metaLeaf name ∧ nameIsValid name = true := by
  simp only [metaEntryName] at found
  split at found
  · cases found
  · rename_i suffixed
    split at found
    · cases found
    · split at found
      · rename_i valid
        obtain rfl : entry.take (entry.length - (bytes ".meta").length) = name := by
          simpa using found
        refine ⟨?_, valid⟩
        have back : entry.drop (entry.length - (bytes ".meta").length) = bytes ".meta" := by
          simp only [hasSuffix, Bool.not_eq_true] at suffixed
          split at suffixed
          · simp at suffixed
          · simpa using suffixed
        have whole := List.take_append_drop (entry.length - (bytes ".meta").length) entry
        rw [back] at whole
        exact whole.symm
      · cases found

theorem pathHasName_pinPathOf (config : Config) (valid : nameIsValid name = true) :
    pathHasName (config.pinPathOf name) name = true := by
  have split := splitOn_joined config.pinRoot name [] (component_of_valid valid _ (by decide))
  rw [pathHasName, Config.pinPathOf, split]
  simp [joined]

end Bloomd
