import Bloomd.FrameInvariant

/-! Lookups in a set of filters with valid and different names, whatever the
cached index is. -/

namespace Bloomd

namespace FilterSet

variable {set : FilterSet} {name : Bytes}

@[simp] theorem findN_items : (set.findN name).2.items = set.items := by
  unfold findN findN.scan
  split
  · split
    · rfl
    · split <;> rfl
  · split <;> rfl

private theorem scan_some (found : (findN.scan set name).1 = some index) :
    ∃ filter, set.items[index]? = some filter ∧ nameMatches filter.name name = true := by
  unfold findN.scan at found
  split at found
  · rename_i position located
    obtain rfl : position = index := by simpa using found
    obtain ⟨bound, matched, _⟩ := List.findIdx?_eq_some_iff_getElem.mp located
    exact ⟨_, List.getElem?_eq_getElem bound, matched⟩
  · cases found

private theorem scan_none (missing : (findN.scan set name).1 = none) :
    ∀ filter ∈ set.items, nameMatches filter.name name = false := by
  unfold findN.scan at missing
  split at missing
  · cases missing
  · rename_i unlocated
    exact List.findIdx?_eq_none_iff.mp unlocated

theorem findN_some (found : (set.findN name).1 = some index) :
    ∃ filter, set.items[index]? = some filter ∧ nameMatches filter.name name = true := by
  unfold findN at found
  split at found
  · split at found
    · rename_i last _ matched
      obtain rfl : last = index := by simpa using found
      unfold matchesAt at matched
      split at matched
      · rename_i filter there
        exact ⟨filter, there, matched⟩
      · cases matched
    · exact scan_some found
  · exact scan_some found

theorem findN_none (missing : (set.findN name).1 = none) :
    ∀ filter ∈ set.items, nameMatches filter.name name = false := by
  unfold findN at missing
  split at missing
  · split at missing
    · cases missing
    · exact scan_none missing
  · exact scan_none missing

variable (named : ∀ filter ∈ set.items, nameIsValid filter.name = true)
  (valid : nameIsValid name = true)
include named valid

/-- A lookup finds the filter of that name, and where it is. -/
theorem findN_name (found : (set.findN name).1 = some index) :
    ∃ filter, set.items[index]? = some filter ∧ filter.name = name := by
  obtain ⟨filter, there, matched⟩ := findN_some found
  exact ⟨filter, there, (nameMatches_iff (named filter (List.mem_of_getElem? there)) valid).mp matched⟩

theorem findN_missing (missing : (set.findN name).1 = none) :
    ∀ filter ∈ set.items, filter.name ≠ name := by
  intro filter member same
  have matched := (nameMatches_iff (named filter member) valid).mpr same
  simp [findN_none missing filter member] at matched

theorem findN_isSome (member : filter ∈ set.items) (same : filter.name = name) :
    ((set.findN name).1).isSome = true := by
  cases found : (set.findN name).1 with
  | some index => rfl
  | none => exact absurd same (findN_missing named valid found filter member)

end FilterSet

/-- In a list with different names an index is determined by the name. -/
theorem index_of_name {items : List Filter} {filter other : Filter} {left right : Nat}
    (unique : (items.map Filter.name).Nodup)
    (first : items[left]? = some filter) (second : items[right]? = some other)
    (same : filter.name = other.name) : left = right := by
  obtain ⟨leftBound, leftAt⟩ := List.getElem?_eq_some_iff.mp first
  obtain ⟨rightBound, rightAt⟩ := List.getElem?_eq_some_iff.mp second
  have distinct := (List.nodup_iff_injective_get.mp unique)
  have equal := @distinct ⟨left, by simpa using leftBound⟩ ⟨right, by simpa using rightBound⟩
    (by simp [leftAt, rightAt, same])
  simpa using equal

end Bloomd
