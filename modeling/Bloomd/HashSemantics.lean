import Bloomd.Hash
import Bloomd.Hashing.SipHash
import Mathlib.Data.List.GetD

/-! The two interleaved lanes of `hash.c` are two runs of SipHash-2-4. -/

namespace Bloomd

open Framing SipHash

/-- The variables of one lane -/
def SipState.lane (v : SipState) : SipHash.State := ⟨v.v0, v.v1, v.v2, v.v3⟩

theorem rotl64_eq_rotate (x : UInt64) {bits : UInt64} (positive : 0 < bits.toNat) (small : bits.toNat < 64) :
    rotl64 x bits = rotate x bits.toNat := by
  have back : (18446744073709551616 - bits.toNat) % 64 = 64 - bits.toNat := by omega
  apply UInt64.toBitVec_inj.mp
  apply BitVec.eq_of_toNat_eq
  simp only [rotl64, rotate, BitVec.rotateLeft_def, Nat.mod_eq_of_lt small]
  simp [back, Nat.mod_eq_of_lt small]

theorem lane_sipround (v : SipState) : (sipround v).lane = round v.lane := by
  have turn (x bits : UInt64) (positive : 0 < bits.toNat) (small : bits.toNat < 64) :=
    rotl64_eq_rotate x positive small
  simp only [sipround, turn _ 13 (by decide) (by decide), turn _ 16 (by decide) (by decide),
    turn _ 17 (by decide) (by decide), turn _ 21 (by decide) (by decide), turn _ 32 (by decide) (by decide)]
  rfl

theorem lane_sipAbsorb (v : SipState) (m : UInt64) : (sipAbsorb v m).lane = compress 2 v.lane m := by
  have mixed : (sipAbsorb v m).lane = { (sipround (sipround { v with v3 := v.v3 ^^^ m })).lane with
      v0 := (sipround (sipround { v with v3 := v.v3 ^^^ m })).lane.v0 ^^^ m } := rfl
  rw [mixed, lane_sipround, lane_sipround]
  rfl

theorem sipFinish_eq (v : SipState) : sipFinish v = finish 4 v.lane := by
  let last := sipround (sipround (sipround (sipround { v with v2 := v.v2 ^^^ 0xff })))
  have joined : sipFinish v = last.lane.v0 ^^^ last.lane.v1 ^^^ last.lane.v2 ^^^ last.lane.v3 := rfl
  rw [joined, lane_sipround, lane_sipround, lane_sipround, lane_sipround]
  rfl

theorem lane_sipInit (k0 k1 : UInt64) : (sipInit k0 k1).lane = initial k0 k1 := by
  simp only [sipInit, SipState.lane, initial, UInt64.xor_comm]

/-- `bloomd_store64_le` stores the bytes of the number. -/
theorem store64Le_eq (value : UInt64) : store64Le value = storeLe 8 value.toNat := by
  rw [store64Le, storeLe_eq_map]
  apply List.map_congr_left
  intro index member
  have inside := List.mem_range.mp member
  have shift : 8 * index % 18446744073709551616 % 64 = 8 * index := by omega
  have power : 256 ^ index = 2 ^ (8 * index) := by rw [Nat.pow_mul]
  apply UInt8.toNat_inj.mp
  have low := Nat.and_two_pow_sub_one_eq_mod (value.toNat / 2 ^ (8 * index) % 256) 8
  simp only [Nat.reducePow, Nat.add_one_sub_one, Nat.mod_mod] at low
  simp [shift, power, Nat.shiftRight_eq_div_pow, low]

/-- `bloomd_load64_le` reads the number of the first eight bytes. -/
theorem load64Le_eq {block : Bytes} (whole : block.length = 8) (rest : Bytes) :
    load64Le (block ++ rest) = UInt64.ofNat (loadLe block) := by
  match block, whole with
  | [b0, b1, b2, b3, b4, b5, b6, b7], _ =>
    rw [ofNat_loadLe_eight]
    simp [load64Le, List.range_succ]

/-- Only the low byte of the length stays in the last word. -/
theorem length_shift (length : Nat) : length.toUInt64 <<< 56 = (length % 256).toUInt8.toUInt64 <<< 56 := by
  apply UInt64.toNat_inj.mp
  simp [Nat.shiftLeft_eq]
  omega

/-- A byte that a case of the switch skips is one that is not there. -/
theorem skipped_byte (rest : Bytes) (index : Nat) (bits out : UInt64) :
    (if index + 1 ≤ rest.length then out ||| (rest.getD index 0).toUInt64 <<< bits else out) =
      out ||| (rest.getD index 0).toUInt64 <<< bits := by
  split
  · rfl
  · rename_i outside
    rw [List.getD_eq_default _ _ (by omega)]
    simp

/-- The last word of the padded message byte by byte -/
theorem padded_tail {rest : Bytes} (short : rest.length < 8) (last : UInt8) :
    rest ++ List.replicate (7 - rest.length) 0 ++ [last] =
      [rest.getD 0 0, rest.getD 1 0, rest.getD 2 0, rest.getD 3 0, rest.getD 4 0, rest.getD 5 0,
        rest.getD 6 0, last] := by
  match rest, short with
  | [], _ => rfl
  | [b0], _ => rfl
  | [b0, b1], _ => rfl
  | [b0, b1, b2], _ => rfl
  | [b0, b1, b2, b3], _ => rfl
  | [b0, b1, b2, b3, b4], _ => rfl
  | [b0, b1, b2, b3, b4, b5], _ => rfl
  | [b0, b1, b2, b3, b4, b5, b6], _ => rfl

theorem or_reverse (w0 w1 w2 w3 w4 w5 w6 w7 : UInt64) :
    w7 ||| w6 ||| w5 ||| w4 ||| w3 ||| w2 ||| w1 ||| w0 = w0 ||| w1 ||| w2 ||| w3 ||| w4 ||| w5 ||| w6 ||| w7 := by
  ac_rfl

/-- `bloomd_tail64` is the last word of the padded message. -/
theorem tail64_eq {rest : Bytes} {length : Nat} (left : rest.length = length % 8) :
    tail64 rest length =
      UInt64.ofNat (loadLe (rest ++ List.replicate (7 - length % 8) 0 ++ [(length % 256).toUInt8])) := by
  have short : rest.length < 8 := by omega
  have first := skipped_byte rest 0 0
  simp only [UInt64.shiftLeft_zero] at first
  unfold tail64
  simp only [length_shift, ← left, padded_tail short, ofNat_loadLe_eight]
  rw [first, skipped_byte rest 1, skipped_byte rest 2, skipped_byte rest 3, skipped_byte rest 4, skipped_byte rest 5,
    skipped_byte rest 6]
  apply or_reverse

/-- The word loop gives each lane the same words. -/
theorem absorbWords_eq (count : Nat) (data : Bytes) (enough : 8 * count ≤ data.length) (a b : SipState) :
    (absorbWords count data (a, b)).1 = data.drop (8 * count) ∧
    (absorbWords count data (a, b)).2.1.lane = (words (data.take (8 * count))).foldl (compress 2) a.lane ∧
    (absorbWords count data (a, b)).2.2.lane = (words (data.take (8 * count))).foldl (compress 2) b.lane := by
  induction count generalizing data a b with
  | zero => exact ⟨rfl, rfl, rfl⟩
  | succ count ih =>
    obtain ⟨block, rest, whole, rfl⟩ : ∃ block rest : Bytes, block.length = 8 ∧ data = block ++ rest :=
      ⟨data.take 8, data.drop 8, by rw [List.length_take]; omega, (List.take_append_drop 8 data).symm⟩
    have bound : 8 * count ≤ rest.length := by
      rw [List.length_append, whole] at enough
      omega
    have total : 8 * (count + 1) = block.length + 8 * count := by omega
    have after : (block ++ rest).drop 8 = rest := List.drop_left' whole
    rw [absorbWords, after, load64Le_eq whole, total, List.take_length_add_append, List.drop_length_add_append,
      words_append_block whole, List.foldl_cons, List.foldl_cons]
    have rested := ih rest bound (sipAbsorb a (UInt64.ofNat (loadLe block)))
      (sipAbsorb b (UInt64.ofNat (loadLe block)))
    rwa [lane_sipAbsorb, lane_sipAbsorb] at rested

/-- The words of a padded message are those of the loop and the tail. -/
theorem words_pad (data : Bytes) : words (pad data) =
    words (data.take (8 * (data.length / 8))) ++ [tail64 (data.drop (8 * (data.length / 8))) data.length] := by
  have left : (data.drop (8 * (data.length / 8))).length = data.length % 8 := by
    rw [List.length_drop]
    omega
  have aligned : (data.take (8 * (data.length / 8))).length % 8 = 0 := by
    rw [List.length_take]
    omega
  have divided : pad data = data.take (8 * (data.length / 8)) ++ (data.drop (8 * (data.length / 8)) ++
      List.replicate (7 - data.length % 8) 0 ++ [(data.length % 256).toUInt8]) := by
    rw [pad, ← List.append_assoc, ← List.append_assoc, List.take_append_drop]
  have whole : (data.drop (8 * (data.length / 8)) ++ List.replicate (7 - data.length % 8) 0 ++
      [(data.length % 256).toUInt8]).length = 8 := by
    rw [List.length_append, List.length_append, left, List.length_replicate, List.length_singleton]
    omega
  have last := @words_append_block _ [] whole
  rw [List.append_nil] at last
  rw [divided, words_append aligned, last, ← tail64_eq left]
  rfl

/-- A digest is the SipHash-2-4 of the payload under one key followed by that under
another. -/
theorem digestPayload_eq_sipHash (payload : Bytes) : (digestPayload payload).val =
    storeLe 8 (sipHash 2 4 0x0706050403020100 0x0f0e0d0c0b0a0908 payload).toNat ++
      storeLe 8 (sipHash 2 4 0x1716151413121110 0x1f1e1d1c1b1a1918 payload).toNat := by
  have lanes : ∀ k0 k1 k2 k3, siphash128Dual payload k0 k1 k2 k3 =
      (sipHash 2 4 k0 k1 payload, sipHash 2 4 k2 k3 payload) := by
    intro k0 k1 k2 k3
    obtain ⟨rest, first, second⟩ :=
      absorbWords_eq (payload.length / 8) payload (Nat.mul_div_le _ _) (sipInit k0 k1) (sipInit k2 k3)
    rw [lane_sipInit] at first second
    simp only [siphash128Dual, sipHash, words_pad, List.foldl_append, List.foldl_cons, List.foldl_nil, sipFinish_eq,
      lane_sipAbsorb, rest, first, second]
  simp only [digestPayload, lanes, store64Le_eq]

end Bloomd
