import Bloomd.HashSemantics

/-! What the digest of a payload is computed from. The words that the two lanes absorb
tell the payload apart from every other one, and no round loses any of the state. -/

namespace Bloomd

open SipHash

/-- The message words in the order in which `bloomd_siphash128_dual` absorbs them: one
for each whole block, and the tail -/
def messageWords (data : Bytes) : List UInt64 :=
  (List.range (data.length / 8)).map (fun block => load64Le (data.drop (8 * block))) ++
    [tail64 (data.drop (8 * (data.length / 8))) data.length]

theorem map_load64Le (count : Nat) (data : Bytes) (enough : 8 * count ≤ data.length) :
    (List.range count).map (fun block => load64Le (data.drop (8 * block))) = words (data.take (8 * count)) := by
  induction count generalizing data with
  | zero => rfl
  | succ count ih =>
    obtain ⟨block, rest, whole, rfl⟩ : ∃ block rest : Bytes, block.length = 8 ∧ data = block ++ rest :=
      ⟨data.take 8, data.drop 8, by rw [List.length_take]; omega, (List.take_append_drop 8 data).symm⟩
    have bound : 8 * count ≤ rest.length := by
      rw [List.length_append, whole] at enough
      omega
    have total : 8 * (count + 1) = block.length + 8 * count := by omega
    have later : ∀ index, (block ++ rest).drop (8 * (index + 1)) = rest.drop (8 * index) := by
      intro index
      rw [show 8 * (index + 1) = block.length + 8 * index by omega, List.drop_length_add_append]
    rw [List.range_succ_eq_map, List.map_cons, List.map_map, total, List.take_length_add_append,
      words_append_block whole,
      ← ih rest bound, Nat.mul_zero, List.drop_zero, load64Le_eq whole]
    simp only [Function.comp_def, Nat.succ_eq_add_one, later]

theorem messageWords_eq (data : Bytes) : messageWords data = words (pad data) := by
  rw [messageWords, words_pad, map_load64Le _ data (Nat.mul_div_le _ _)]

theorem lane_injective : Function.Injective SipState.lane := by
  intro v w same
  have inverse : ∀ v : SipState, (⟨v.lane.v0, v.lane.v1, v.lane.v2, v.lane.v3⟩ : SipState) = v := fun _ => rfl
  rw [← inverse v, ← inverse w, same]

theorem lane_surjective : Function.Surjective SipState.lane := fun v => ⟨⟨v.v0, v.v1, v.v2, v.v3⟩, rfl⟩

/-- A step of the code is one of the specification on the same four words. -/
theorem bijective_of_lane {step : SipState → SipState} {next : SipHash.State → SipHash.State}
    (same : ∀ v, (step v).lane = next v.lane) (bijective : Function.Bijective next) : Function.Bijective step := by
  have composed : SipState.lane ∘ step = next ∘ SipState.lane := funext same
  have both : Function.Bijective (SipState.lane ∘ step) := by
    rw [composed]
    exact bijective.comp ⟨lane_injective, lane_surjective⟩
  exact (Function.Bijective.of_comp_iff' ⟨lane_injective, lane_surjective⟩ step).mp both

theorem lane_foldl_sipAbsorb (row : List UInt64) (v : SipState) :
    (row.foldl sipAbsorb v).lane = row.foldl (compress 2) v.lane := by
  induction row generalizing v with
  | nil => rfl
  | cons word rest ih => rw [List.foldl_cons, List.foldl_cons, ih, lane_sipAbsorb]

theorem siphash128Dual_eq_messageWords (data : Bytes) (k0 k1 k2 k3 : UInt64) : siphash128Dual data k0 k1 k2 k3 =
    (sipFinish ((messageWords data).foldl sipAbsorb (sipInit k0 k1)),
      sipFinish ((messageWords data).foldl sipAbsorb (sipInit k2 k3))) := by
  obtain ⟨rest, first, second⟩ :=
    absorbWords_eq (data.length / 8) data (Nat.mul_div_le _ _) (sipInit k0 k1) (sipInit k2 k3)
  simp only [siphash128Dual, sipFinish_eq, lane_foldl_sipAbsorb, lane_sipAbsorb, messageWords_eq, words_pad,
    List.foldl_append, List.foldl_cons, List.foldl_nil, rest, first, second]

/-- The digest is a function of the message words, different payloads have different
message words, and neither a round nor the absorption of a word maps two states to one. -/
theorem distinct_payloads_distinct_inputs :
    (∀ data k0 k1 k2 k3, siphash128Dual data k0 k1 k2 k3 =
      (sipFinish ((messageWords data).foldl sipAbsorb (sipInit k0 k1)),
        sipFinish ((messageWords data).foldl sipAbsorb (sipInit k2 k3)))) ∧
    Function.Injective messageWords ∧ Function.Bijective sipround ∧
    ∀ word, Function.Bijective (sipAbsorb · word) := by
  refine ⟨siphash128Dual_eq_messageWords, ?_, ?_, ?_⟩
  · rw [funext messageWords_eq]
    exact words_pad_injective
  · exact bijective_of_lane lane_sipround round_bijective
  · intro word
    exact bijective_of_lane (fun v => lane_sipAbsorb v word) (compress_bijective 2 word)

-- Trailing zero bytes make a difference.
example : messageWords [] ≠ messageWords [0] ∧ messageWords [1] ≠ messageWords [1, 0] := by decide

end Bloomd
