import Mathlib.Data.List.Basic
import Mathlib.Data.Nat.ModEq

/-! Reading a stream as consecutive records of one fixed size. A short rest at the
end is no record: readers of such a stream drop it. -/

namespace Framing

variable {α : Type} {size : Nat}

/-- A record carries the proof that it has the agreed size. -/
abbrev Record (α : Type) (size : Nat) : Type := {block : List α // block.length = size}

private def recordsWithin (size : Nat) : Nat → List α → List (Record α size)
  | 0, _ => []
  | fuel + 1, stream =>
    if enough : size ≤ stream.length then
      ⟨stream.take size, by simp [enough]⟩ :: recordsWithin size fuel (stream.drop size)
    else []

/-- The whole records at the front of a stream. -/
def records (size : Nat) (stream : List α) : List (Record α size) :=
  recordsWithin size stream.length stream

/-- The stream that holds exactly these records. -/
def encode (blocks : List (Record α size)) : List α :=
  (blocks.map Subtype.val).flatten

@[simp] theorem encode_nil : encode ([] : List (Record α size)) = [] := rfl

@[simp] theorem encode_cons (block : Record α size) (blocks : List (Record α size)) :
    encode (block :: blocks) = block.val ++ encode blocks := rfl

@[simp] theorem encode_append (front back : List (Record α size)) :
    encode (front ++ back) = encode front ++ encode back := by
  simp [encode]

@[simp] theorem length_encode (blocks : List (Record α size)) :
    (encode blocks).length = size * blocks.length := by
  induction blocks with
  | nil => simp
  | cons block blocks ih =>
    simp [ih, block.property, Nat.mul_add]
    omega

theorem records_short (short : stream.length < size) : records size (stream : List α) = [] := by
  unfold records
  cases stream with
  | nil => rfl
  | cons head tail =>
    have missing : ¬ size ≤ (head :: tail).length := Nat.not_le.mpr short
    rw [List.length_cons, recordsWithin, dif_neg missing]

private theorem recordsWithin_enough (positive : 0 < size) (fuel : Nat) :
    ∀ stream : List α, stream.length ≤ fuel →
      recordsWithin size fuel stream = records size stream := by
  induction fuel using Nat.strongRecOn with
  | ind fuel ih =>
    intro stream bound
    by_cases enough : size ≤ stream.length
    · cases fuel with
      | zero => omega
      | succ fuel =>
        obtain ⟨length, sized⟩ : ∃ length, stream.length = length + 1 :=
          ⟨stream.length - 1, by omega⟩
        have shorter : (stream.drop size).length ≤ length := by simp; omega
        simp only [records, sized, recordsWithin]
        rw [ih fuel (by omega) _ (by omega), ← ih length (by omega) _ shorter]
    · rw [records_short (by omega)]
      cases fuel with
      | zero => rfl
      | succ fuel => rw [recordsWithin, dif_neg enough]

/-- The first record of a stream that starts with one. -/
theorem records_append_block (positive : 0 < size) (block : Record α size) (rest : List α) :
    records size (block.val ++ rest) = block :: records size rest := by
  obtain ⟨length, sized⟩ : ∃ length, (block.val ++ rest).length = length + 1 :=
    ⟨(block.val ++ rest).length - 1, by simp [block.property]; omega⟩
  have enough : size ≤ (block.val ++ rest).length := by simp [block.property]
  have shorter : rest.length ≤ length := by simp [block.property] at sized; omega
  have front : (block.val ++ rest).take size = block.val := by
    rw [List.take_append_of_le_length (by simp [block.property])]
    exact List.take_of_length_le (by simp [block.property])
  have back : (block.val ++ rest).drop size = rest := by
    rw [List.drop_append_of_le_length (by simp [block.property])]
    simp [List.drop_of_length_le, block.property]
  rw [records, sized, recordsWithin, dif_pos enough]
  simp only [front, back]
  rw [recordsWithin_enough positive length rest shorter]

/-- Every stream is a run of whole records and a rest too short for another. -/
theorem records_split (positive : 0 < size) (stream : List α) :
    ∃ rest, stream = encode (records size stream) ++ rest ∧ rest.length < size := by
  induction length : stream.length using Nat.strongRecOn generalizing stream with
  | ind length ih =>
    by_cases enough : size ≤ stream.length
    · let block : Record α size := ⟨stream.take size, by simp [enough]⟩
      have divided : stream = block.val ++ stream.drop size := (List.take_append_drop size stream).symm
      obtain ⟨rest, split, short⟩ := ih (stream.drop size).length (by simp; omega) _ rfl
      refine ⟨rest, ?_, short⟩
      have first := records_append_block positive block (stream.drop size)
      rw [← divided] at first
      rw [first, encode_cons, List.append_assoc, ← split]
      exact divided
    · exact ⟨stream, by rw [records_short (by omega)]; simp, by omega⟩

theorem records_encode_append (positive : 0 < size) (blocks : List (Record α size)) (rest : List α) :
    records size (encode blocks ++ rest) = blocks ++ records size rest := by
  induction blocks with
  | nil => simp
  | cons block blocks ih =>
    rw [encode_cons, List.append_assoc, records_append_block positive, ih, List.cons_append]

theorem records_encode (positive : 0 < size) (blocks : List (Record α size)) :
    records size (encode blocks) = blocks := by
  have none : records size ([] : List α) = [] := records_short (by simpa using positive)
  have whole := records_encode_append positive blocks []
  rwa [none, List.append_nil, List.append_nil] at whole

/-- What is appended to a stream never changes the records already in it. -/
theorem records_grow (positive : 0 < size) (stream more : List α) :
    records size stream <+: records size (stream ++ more) := by
  obtain ⟨rest, split, _⟩ := records_split positive stream
  refine ⟨records size (rest ++ more), ?_⟩
  conv => rhs; rw [split, List.append_assoc]
  rw [records_encode_append positive]

/-- A stream that ends on a record boundary is the encoding of its records. -/
theorem encode_records (positive : 0 < size) (aligned : stream.length % size = 0) :
    encode (records size stream) = (stream : List α) := by
  obtain ⟨rest, split, short⟩ := records_split positive stream
  have length := congrArg List.length split
  rw [List.length_append, length_encode] at length
  have none : rest.length = 0 := by
    rw [length, Nat.mul_add_mod, Nat.mod_eq_of_lt short] at aligned
    exact aligned
  rw [List.length_eq_zero_iff.mp none, List.append_nil] at split
  exact split.symm

theorem records_append (positive : 0 < size) (aligned : stream.length % size = 0) (more : List α) :
    records size (stream ++ more) = records size stream ++ records size more := by
  conv => lhs; rw [← encode_records positive aligned]
  exact records_encode_append positive _ _

theorem length_records (positive : 0 < size) (stream : List α) :
    (records size stream).length = stream.length / size := by
  obtain ⟨rest, split, short⟩ := records_split positive stream
  have length := congrArg List.length split
  rw [List.length_append, length_encode] at length
  rw [length, Nat.mul_add_div positive, Nat.div_eq_of_lt short, Nat.add_zero]

/-- Skipping whole records of a stream skips them in its records. -/
theorem records_drop (positive : 0 < size) (stream : List α) (count : Nat)
    (bound : count ≤ (records size stream).length) :
    records size (stream.drop (size * count)) = (records size stream).drop count := by
  obtain ⟨rest, split, _⟩ := records_split positive stream
  have divided : encode (records size stream) =
      encode ((records size stream).take count) ++ encode ((records size stream).drop count) := by
    rw [← encode_append, List.take_append_drop]
  have front : (encode ((records size stream).take count)).length = size * count := by
    rw [length_encode, List.length_take, Nat.min_eq_left bound]
  have back : stream.drop (size * count) = encode ((records size stream).drop count) ++ rest := by
    conv => lhs; rw [split, divided, List.append_assoc]
    rw [← front, List.drop_left]
  have whole := records_encode_append positive (records size stream) rest
  rw [← split] at whole
  have none : records size rest = [] := List.self_eq_append_right.mp whole
  rw [back, records_encode_append positive, none, List.append_nil]

/-- The records of a stream are the blocks at the multiples of their size. -/
theorem map_val_records (positive : 0 < size) (stream : List α) :
    (records size stream).map Subtype.val =
      (List.range (stream.length / size)).map fun index => (stream.drop (size * index)).take size := by
  apply List.ext_getElem
  · rw [List.length_map, List.length_map, List.length_range, length_records positive]
  · intro index inside _
    rw [List.length_map] at inside
    obtain ⟨rest, split, _⟩ := records_split positive (stream.drop (size * index))
    rw [records_drop positive stream index (by omega), List.drop_eq_getElem_cons inside, encode_cons,
      List.append_assoc] at split
    rw [List.getElem_map, List.getElem_map, List.getElem_range, split,
      List.take_left' (records size stream)[index].property]

/-- A cut behind the last whole record takes none away. -/
theorem records_take (positive : 0 < size) (stream : List α) (length : Nat)
    (behind : size * (stream.length / size) ≤ length) :
    records size (stream.take length) = records size stream := by
  obtain ⟨rest, split, short⟩ := records_split positive stream
  have enough : (encode (records size stream)).length ≤ length := by
    rw [length_encode, length_records positive]
    exact behind
  have cut : stream.take length =
      encode (records size stream) ++ rest.take (length - (encode (records size stream)).length) := by
    conv => lhs; rw [split, List.take_append, List.take_of_length_le enough]
  have small : (rest.take (length - (encode (records size stream)).length)).length < size := by
    rw [List.length_take]
    omega
  rw [cut, records_encode_append positive, records_short small, List.append_nil]

end Framing
