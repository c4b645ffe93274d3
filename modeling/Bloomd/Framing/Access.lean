import Mathlib.Algebra.Group.Nat.Defs
import Mathlib.Data.List.Basic

/-! Accesses to memory that may be out of range, and sums that may wrap around. The
value of such a step is `none` when it goes wrong. -/

namespace Framing

variable {α : Type}

/-- The `count` elements from an offset on, each one read by its index -/
def fetch (read : Nat → Option α) (off : Nat) : Nat → Option (List α)
  | 0 => some []
  | count + 1 => do
    let first ← read off
    let rest ← fetch read (off + 1) count
    some (first :: rest)

/-- A write by index -/
def store (buffer : List α) (index : Nat) (value : α) : Option (List α) :=
  if index < buffer.length then some (buffer.set index value) else none

/-- A sum in an unsigned type of some width -/
def addWide (width first second : Nat) : Option Nat :=
  if first + second < 2 ^ width then some (first + second) else none

/-- A difference in an unsigned type -/
def subWide (first second : Nat) : Option Nat :=
  if second ≤ first then some (first - second) else none

theorem fetch_content {read : Nat → Option α} (content : List α) : ∀ {off : Nat},
    (∀ index < content.length, read (off + index) = content[index]?) →
    fetch read off content.length = some content := by
  induction content with
  | nil => exact fun _ => rfl
  | cons first rest ih =>
    intro off reads
    have here : read off = some first := reads 0 (Nat.zero_lt_succ _)
    have later : fetch read (off + 1) rest.length = some rest := by
      apply ih
      intro index small
      have next := reads (index + 1) (Nat.succ_lt_succ small)
      rw [Nat.add_right_comm, Nat.add_assoc]
      exact next
    simp only [List.length_cons, fetch, here, later, Option.bind_eq_bind, Option.bind_some]

/-- A part of a buffer that is inside it -/
theorem fetch_inside {buffer : List α} {off count : Nat} (inside : off + count ≤ buffer.length) :
    fetch (fun index => buffer[index]?) off count = some ((buffer.drop off).take count) := by
  have length : ((buffer.drop off).take count).length = count := by
    rw [List.length_take, List.length_drop]
    omega
  have found : fetch (fun index => buffer[index]?) off ((buffer.drop off).take count).length =
      some ((buffer.drop off).take count) := by
    apply fetch_content
    intro index small
    rw [length] at small
    rw [List.getElem?_take_of_lt small, List.getElem?_drop]
  rw [length] at found
  exact found

theorem store_inside {buffer : List α} {index : Nat} {value : α} (inside : index < buffer.length) :
    store buffer index value = some (buffer.set index value) := if_pos inside

theorem addWide_small {width first second : Nat} (small : first + second < 2 ^ width) :
    addWide width first second = some (first + second) := if_pos small

theorem subWide_le {first second : Nat} (le : second ≤ first) : subWide first second = some (first - second) :=
  if_pos le

end Framing
