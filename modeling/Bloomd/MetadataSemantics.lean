import Bloomd.PathSemantics
import Mathlib.Data.List.TakeWhile

/-! What the metadata reader makes of a record that the daemon wrote. A pin path
that the reader's line buffer cannot hold, or that has a newline in it, comes back
as an error or cut short, and a path that was cut short no longer lies under its
root. -/

namespace Bloomd

variable {record read : MetaRecord} {input line rest path root name : Bytes}

/-- Everything but the pin path is read back as it was written. -/
theorem readBack_eq (readable : record.readBack = some read) :
    read = { record with pinPath := read.pinPath } := by
  unfold MetaRecord.readBack at readable
  simp only at readable
  split at readable
  · exact (Option.some.inj readable) ▸ rfl
  · cases readable

/-- A record that is read back passes the reader's checks. -/
theorem readBack_isValid (readable : record.readBack = some read) : read.isValid = true := by
  have same := readBack_eq readable
  unfold MetaRecord.readBack at readable
  simp only at readable
  split at readable
  · rename_i passes
    rw [Bool.and_eq_true, Bool.and_eq_true] at passes
    rw [same]
    exact passes.1.1
  · cases readable

theorem fgets_append (input : Bytes) : (fgets input).1 ++ (fgets input).2 = input := by
  simp [fgets]

theorem length_fgets (input : Bytes) : (fgets input).1.length ≤ 1023 := by
  simp only [fgets, List.splitAt_eq, List.length_take]
  omega

/-- A line that `fgets` read has its newline at the end. -/
theorem fgets_newline (member : 10 ∈ (fgets input).1) :
    ∃ front, (fgets input).1 = front ++ [10] ∧ 10 ∉ front := by
  have found : 10 ∈ input.take 1023 := by
    have smaller : (fgets input).1 <+: input.take 1023 := by
      simp only [fgets, List.splitAt_eq]
      refine (List.prefix_take_iff).mpr ⟨List.take_prefix _ _, ?_⟩
      simp only [List.length_take]
      omega
    exact smaller.subset member
  have bound := List.idxOf_lt_length_of_mem found
  refine ⟨(input.take 1023).take ((input.take 1023).idxOf 10), ?_, ?_⟩
  · have cut : (fgets input).1 = (input.take 1023).take ((input.take 1023).idxOf 10 + 1) := by
      simp only [fgets, List.splitAt_eq]
      rw [Nat.min_eq_left bound, List.take_take, Nat.min_eq_left]
      simp only [List.length_take] at bound
      omega
    rw [cut, ← List.take_append_getElem bound]
    simp
  · intro early
    obtain ⟨index, small, same⟩ := List.mem_iff_getElem.mp early
    simp only [List.length_take] at small
    have early : index < (input.take 1023).findIdx (· == 10) := by
      change index < (input.take 1023).idxOf 10
      omega
    have first := List.not_of_lt_findIdx early
    simp only [List.getElem_take] at same first
    simp [same] at first

theorem trimNewline_append (line : Bytes) : trimNewline (line ++ [10]) = trimNewline line := by
  simp [trimNewline]

theorem trimNewline_front (line : Bytes) : trimNewline line <+: line := by
  have shorter : (line.reverse.dropWhile fun char => char == 10 || char == 13) <:+ line.reverse :=
    List.dropWhile_suffix _
  rw [trimNewline, ← List.reverse_suffix, List.reverse_reverse]
  exact shorter

theorem trimNewline_of_last (front : Bytes) {char : UInt8} (plain : char ≠ 10 ∧ char ≠ 13) :
    trimNewline (front ++ [char]) = front ++ [char] := by
  simp [trimNewline, plain]

/-- What the reader passes over starts with a newline, a carriage return or `#`. -/
theorem onlySkipped_head {char : UInt8} {fuel : Nat} (skipped : onlySkipped fuel (char :: rest) = true) :
    char = 10 ∨ char = 13 ∨ char = 35 := by
  cases fuel with
  | zero => simp [onlySkipped] at skipped
  | succ fuel =>
    obtain ⟨more, first⟩ : ∃ more, (fgets (char :: rest)).1 = char :: more := by
      have split := fgets_append (char :: rest)
      cases taken : (fgets (char :: rest)).1 with
      | nil =>
        have length := congrArg List.length taken
        simp [fgets] at length
      | cons head more =>
        rw [taken, List.cons_append] at split
        obtain ⟨rfl, -⟩ := List.cons.inj split
        exact ⟨more, rfl⟩
    have ends : trimNewline (char :: more) = [] ∨ (trimNewline (char :: more)).head? = some 35 := by
      simp only [onlySkipped, first, reduceCtorEq, beq_iff_eq, Bool.or_eq_true, Bool.and_eq_true] at skipped
      rcases skipped with impossible | ⟨ends, _⟩
      · simp at impossible
      · exact ends
    rcases ends with empty | comment
    · have blank : ∀ other ∈ char :: more, other = 10 ∨ other = 13 := by
        simp only [trimNewline, List.reverse_eq_nil_iff, List.dropWhile_eq_nil_iff] at empty
        intro other member
        simpa using empty other (List.mem_reverse.mpr member)
      rcases blank char List.mem_cons_self with newline | carriage
      · exact Or.inl newline
      · exact Or.inr (Or.inl carriage)
    · obtain ⟨tail, split⟩ := trimNewline_front (char :: more)
      cases trimmed : trimNewline (char :: more) with
      | nil => simp [trimmed] at comment
      | cons head others =>
        rw [trimmed] at split comment
        obtain ⟨rfl, -⟩ := List.cons.inj split
        exact Or.inr (Or.inr (by simpa using comment))

theorem nameChar_plain {char : UInt8} (valid : nameChar char = true) :
    char ≠ 10 ∧ char ≠ 13 ∧ char ≠ 35 := by
  refine ⟨?_, ?_, ?_⟩
  all_goals
    rintro rfl
    revert valid
    decide

/-- A path that ends in a valid name is not trimmed. -/
theorem trimNewline_joined (valid : nameIsValid name = true) (front root : Bytes) :
    trimNewline (front ++ joined root name []) = front ++ joined root name [] := by
  obtain ⟨start, char, rfl⟩ : ∃ start char, name = start ++ [char] :=
    ⟨_, _, (List.dropLast_append_getLast (nonempty_of_valid valid)).symm⟩
  have plain := nameChar_plain (nameChar_of_valid valid (List.mem_append_right start List.mem_cons_self))
  have last : front ++ joined root (start ++ [char]) [] = (front ++ root ++ slash :: start) ++ [char] := by
    simp [joined]
  rw [last]
  exact trimNewline_of_last _ ⟨plain.1, plain.2.1⟩

theorem prefix_of_pathUnderRoot (under : pathUnderRoot path root = true) : root <+: path := by
  unfold pathUnderRoot at under
  rw [Bool.and_eq_true] at under
  exact List.isPrefixOf_iff_prefix.mp under.1

/-- A record of the daemon whose pin path passes the loader's test was read back
as it was written. -/
theorem readBack_under_root (valid : nameIsValid name = true)
    (pinPath : record.pinPath = joined root name []) (readable : record.readBack = some read)
    (under : pathUnderRoot read.pinPath root = true) : read = record := by
  have same := readBack_eq readable
  unfold MetaRecord.readBack at readable
  simp only at readable
  split at readable
  swap
  · cases readable
  · rename_i passes
    obtain ⟨_, skipped⟩ := Bool.and_eq_true _ _ ▸ passes
    have cut : (trimNewline (fgets (metaLine "pin_path" record.pinPath)).1).drop
        (bytes "pin_path=").length = read.pinPath := (Option.some.inj readable) ▸ rfl
    suffices whole : read.pinPath = record.pinPath by
      rw [same, whole]
    have split := fgets_append (metaLine "pin_path" record.pinPath)
    generalize (fgets (metaLine "pin_path" record.pinPath)).1 = line at cut split
    generalize (fgets (metaLine "pin_path" record.pinPath)).2 = rest at skipped split
    have text : metaLine "pin_path" record.pinPath =
        (bytes "pin_path=" ++ root) ++ (slash :: name ++ [10]) := by
      rw [pinPath]
      simp [metaLine, joined, bytes]
    have finished : line = bytes "pin_path=" ++ joined root name [] ∨
        line = bytes "pin_path=" ++ joined root name [] ++ [10] → read.pinPath = record.pinPath := by
      intro whole
      have trimmed : trimNewline line = bytes "pin_path=" ++ joined root name [] := by
        rcases whole with rfl | rfl
        · exact trimNewline_joined valid _ _
        · rw [trimNewline_append]
          exact trimNewline_joined valid _ _
      rw [← cut, trimmed, List.drop_left, pinPath]
    rw [text] at split
    rcases List.append_eq_append_iff.mp split.symm with ⟨middle, late, ended⟩ | ⟨middle, early, tail⟩
    · -- The line reaches behind the root.
      rcases List.append_eq_append_iff.mp ended.symm with ⟨more, front, back⟩ | ⟨more, front, back⟩
      · cases more with
        | nil =>
          refine finished (Or.inl ?_)
          rw [late, List.append_nil] at *
          simp [joined, front]
        | cons char more =>
          have there : char ∈ slash :: name := by
            rw [front]
            exact List.mem_append_right _ List.mem_cons_self
          rw [back, List.cons_append] at skipped
          have bad := onlySkipped_head skipped
          rcases List.mem_cons.mp there with rfl | member
          · exact absurd bad (by decide)
          · have plain := nameChar_plain (nameChar_of_valid valid member)
            rcases bad with rfl | rfl | rfl
            · exact absurd rfl plain.1
            · exact absurd rfl plain.2.1
            · exact absurd rfl plain.2.2
      · cases rest with
        | nil =>
          refine finished (Or.inr ?_)
          rw [List.append_nil] at back
          rw [late, front, ← back]
          simp [joined]
        | cons char rest =>
          obtain ⟨rfl, -⟩ : more = [] ∧ _ := by
            have length := congrArg List.length back
            simp at length
            exact ⟨List.length_eq_zero_iff.mp (by omega), trivial⟩
          refine finished (Or.inl ?_)
          rw [late, front]
          simp [joined]
    · -- The line stops inside the root, so what was read is too short for it.
      cases middle with
      | nil =>
        rw [List.nil_append] at tail
        rw [tail, List.cons_append] at skipped
        exact absurd (onlySkipped_head skipped) (by decide)
      | cons char middle =>
        have long := (prefix_of_pathUnderRoot under).length_le
        have short := (trimNewline_front line).length_le
        have length := congrArg List.length early
        rw [← cut, List.length_drop] at long
        simp only [List.length_append, List.length_cons] at length
        obtain rfl : root = [] := List.length_eq_zero_iff.mp (by omega)
        have there : char ∈ bytes "pin_path=" := by
          rw [List.append_nil] at early
          rw [early]
          exact List.mem_append_right _ List.mem_cons_self
        rw [tail, List.cons_append] at skipped
        have bad := onlySkipped_head skipped
        revert there
        rcases bad with rfl | rfl | rfl
        all_goals exact fun there => absurd there (by decide)

/-- Reading the line of a path without a newline that fits into the line buffer -/
theorem fgets_short (plain : 10 ∉ line) (fits : line.length ≤ 1023) :
    fgets (line ++ [10]) = (line ++ [10], []) ∨ fgets (line ++ [10]) = (line, [10]) := by
  by_cases full : line.length = 1023
  · have room : (line ++ [10]).take 1023 = line := by
      rw [← full, List.take_left]
    right
    simp only [fgets, room, List.idxOf_eq_length_iff.mpr plain, List.splitAt_eq]
    rw [Nat.min_eq_right (Nat.le_succ _), List.take_left, List.drop_left]
  · have room : (line ++ [10]).take 1023 = line ++ [10] := by
      apply List.take_of_length_le
      simp only [List.length_append, List.length_singleton]
      omega
    have index : (line ++ [10]).idxOf 10 = line.length := by
      simp [List.idxOf_append_of_notMem plain]
    have all : min (line.length + 1) (line ++ [10]).length = (line ++ [10]).length := by simp
    left
    simp only [fgets, room, index, all, List.splitAt_eq, List.take_length, List.drop_length]

/-- Exactly the paths that fit on one line of the reader are read back, and the rates that can
be parsed. -/
theorem readBack_eq_self_iff (passes : record.isValid = true) (valid : nameIsValid name = true)
    (pinPath : record.pinPath = joined root name []) :
    record.readBack = some record ↔
      rateIsNormal record.errorRate = true ∧ record.pinPath.length ≤ 1014 ∧ 10 ∉ record.pinPath := by
  have text : metaLine "pin_path" record.pinPath = (bytes "pin_path=" ++ record.pinPath) ++ [10] := by
    simp [metaLine, bytes]
  constructor
  · intro readable
    unfold MetaRecord.readBack at readable
    simp only at readable
    split at readable
    swap
    · cases readable
    · rename_i parsed
      rw [Bool.and_eq_true, Bool.and_eq_true] at parsed
      have cut : (trimNewline (fgets (metaLine "pin_path" record.pinPath)).1).drop
          (bytes "pin_path=").length = record.pinPath := congrArg MetaRecord.pinPath (Option.some.inj readable)
      have nonempty : record.pinPath ≠ [] := by
        rw [pinPath]
        simp [joined]
      have short := length_fgets (metaLine "pin_path" record.pinPath)
      generalize taken : (fgets (metaLine "pin_path" record.pinPath)).1 = line at cut short
      have trimmed := (trimNewline_front line).length_le
      have length := congrArg List.length cut
      have positive := List.length_pos_of_ne_nil nonempty
      have nine : (bytes "pin_path=").length = 9 := rfl
      rw [List.length_drop, nine] at length
      refine ⟨parsed.1.2, by omega, fun newline => ?_⟩
      have inside : 10 ∈ trimNewline line := by
        rw [← cut] at newline
        exact List.mem_of_mem_drop newline
      obtain ⟨front, ended, plain⟩ := fgets_newline (taken.symm ▸ (trimNewline_front line).subset inside)
      rw [taken] at ended
      rw [ended, trimNewline_append] at inside
      exact plain ((trimNewline_front front).subset inside)
  · rintro ⟨normal, fits, plain⟩
    have front : 10 ∉ bytes "pin_path=" ++ record.pinPath := by
      rw [List.mem_append, not_or]
      exact ⟨by decide, plain⟩
    have trimmed : trimNewline (bytes "pin_path=" ++ record.pinPath) =
        bytes "pin_path=" ++ record.pinPath := by
      rw [pinPath]
      exact trimNewline_joined valid _ _
    have bound : (bytes "pin_path=" ++ record.pinPath).length ≤ 1023 := by
      have nine : (bytes "pin_path=").length = 9 := rfl
      rw [List.length_append, nine]
      omega
    unfold MetaRecord.readBack
    rw [text, passes, normal]
    rcases fgets_short front bound with whole | cut
    · simp only [whole, trimNewline_append, trimmed, List.drop_left]
      rfl
    · have skipped : onlySkipped 1 [10] = true := by decide
      rw [cut]
      simp [skipped, trimmed]

end Bloomd
