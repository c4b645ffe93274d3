import Mathlib.Algebra.Group.Nat.Defs
import Mathlib.Data.List.Basic

/-! Fixed-width little-endian fields, and messages that are rows of such fields
followed by a tail. -/

namespace Framing

/-- The low `width` bytes of a number, least significant first -/
def storeLe : Nat → Nat → List UInt8
  | 0, _ => []
  | width + 1, value => value.toUInt8 :: storeLe width (value / 256)

/-- The number that a row of bytes stands for -/
def loadLe : List UInt8 → Nat
  | [] => 0
  | byte :: rest => byte.toNat + 256 * loadLe rest

@[simp] theorem length_storeLe (width value : Nat) : (storeLe width value).length = width := by
  induction width generalizing value with
  | zero => rfl
  | succ width ih => simp [storeLe, ih]

theorem loadLe_lt (bytes : List UInt8) : loadLe bytes < 256 ^ bytes.length := by
  induction bytes with
  | nil => simp [loadLe]
  | cons byte rest ih =>
    have small := byte.toNat_lt
    rw [loadLe, List.length_cons, Nat.pow_succ]
    omega

theorem loadLe_storeLe_mod (width value : Nat) : loadLe (storeLe width value) = value % 256 ^ width := by
  induction width generalizing value with
  | zero => simp [storeLe, loadLe, Nat.mod_one]
  | succ width ih =>
    rw [storeLe, loadLe, ih, Nat.pow_succ, Nat.mul_comm (256 ^ width), Nat.mod_mul]
    simp

theorem loadLe_storeLe {width value : Nat} (fits : value < 256 ^ width) :
    loadLe (storeLe width value) = value := by
  rw [loadLe_storeLe_mod, Nat.mod_eq_of_lt fits]

theorem storeLe_loadLe (bytes : List UInt8) : storeLe bytes.length (loadLe bytes) = bytes := by
  induction bytes with
  | nil => rfl
  | cons byte rest ih =>
    have small := byte.toNat_lt
    have low : (byte.toNat + 256 * loadLe rest).toUInt8 = byte := by
      apply UInt8.toNat_inj.mp
      simp
    have high : (byte.toNat + 256 * loadLe rest) / 256 = loadLe rest := by omega
    rw [List.length_cons, loadLe, storeLe, low, high, ih]

/-- The bytes of a field one by one -/
theorem storeLe_eq_map (width value : Nat) :
    storeLe width value = (List.range width).map fun index => (value / 256 ^ index).toUInt8 := by
  induction width generalizing value with
  | zero => rfl
  | succ width ih =>
    rw [storeLe, ih, List.range_succ_eq_map, List.map_cons, List.map_map, Nat.pow_zero, Nat.div_one]
    congr 1
    apply List.map_congr_left
    intro index _
    rw [Function.comp_apply, Nat.div_div_eq_div_mul, Nat.pow_succ, Nat.mul_comm]

/-- A field read back from where it was written -/
theorem loadLe_take_storeLe {width value : Nat} (rest : List UInt8) (fits : value < 256 ^ width) :
    loadLe ((storeLe width value ++ rest).take width) = value := by
  rw [List.take_left' (length_storeLe width value), loadLe_storeLe fits]

/-- A field that was cut to its width when it was written -/
theorem loadLe_take_storeLe_mod (width value : Nat) (rest : List UInt8) :
    loadLe ((storeLe width value ++ rest).take width) = value % 256 ^ width := by
  rw [List.take_left' (length_storeLe width value), loadLe_storeLe_mod]

/-- Skipping past a field -/
theorem drop_storeLe {width skip : Nat} (value : Nat) (rest : List UInt8) (past : width ≤ skip) :
    (storeLe width value ++ rest).drop skip = rest.drop (skip - width) := by
  rw [List.drop_append, length_storeLe]
  simp [past]

theorem loadLe_take_lt (bytes : List UInt8) (width : Nat) : loadLe (bytes.take width) < 256 ^ width := by
  have bound := loadLe_lt (bytes.take width)
  have short : (bytes.take width).length ≤ width := List.length_take_le _ _
  exact Nat.lt_of_lt_of_le bound (Nat.pow_le_pow_right (by omega) short)

/-- A field that lies inside the bytes is the one that its value stores. -/
theorem storeLe_loadLe_take {width : Nat} {bytes : List UInt8} (inside : width ≤ bytes.length) :
    storeLe width (loadLe (bytes.take width)) = bytes.take width := by
  have size : (bytes.take width).length = width := List.length_take_of_le inside
  have whole := storeLe_loadLe (bytes.take width)
  rwa [size] at whole

/-- Peel the first field off a row of bytes. -/
theorem storeLe_append_drop {width : Nat} {bytes : List UInt8} (inside : width ≤ bytes.length) :
    storeLe width (loadLe (bytes.take width)) ++ bytes.drop width = bytes := by
  rw [storeLe_loadLe_take inside, List.take_append_drop]

end Framing
