import Bloomd.Framing.LittleEndian
import Bloomd.Framing.Records
import Mathlib.Logic.Function.Iterate

/-! SipHash as a function of a key and a message: pad the message to whole words,
absorb one word after the other, and finish. -/

namespace SipHash

structure State where
  v0 : UInt64
  v1 : UInt64
  v2 : UInt64
  v3 : UInt64
  deriving DecidableEq, Repr

def rotate (word : UInt64) (bits : Nat) : UInt64 := ⟨word.toBitVec.rotateLeft bits⟩

/-- One round, both halves side by side -/
def round (v : State) : State :=
  let sum0 := v.v0 + v.v1
  let sum2 := v.v2 + v.v3
  let mix1 := rotate v.v1 13 ^^^ sum0
  let mix3 := rotate v.v3 16 ^^^ sum2
  let sum0 := rotate sum0 32
  let sum2 := sum2 + mix1
  let sum0 := sum0 + mix3
  let mix1 := rotate mix1 17 ^^^ sum2
  let mix3 := rotate mix3 21 ^^^ sum0
  ⟨sum0, mix1, rotate sum2 32, mix3⟩

/-- One message word with `c` rounds -/
def compress (c : Nat) (v : State) (word : UInt64) : State :=
  let v := round^[c] { v with v3 := v.v3 ^^^ word }
  { v with v0 := v.v0 ^^^ word }

def initial (k0 k1 : UInt64) : State :=
  ⟨k0 ^^^ 0x736f6d6570736575, k1 ^^^ 0x646f72616e646f6d, k0 ^^^ 0x6c7967656e657261, k1 ^^^ 0x7465646279746573⟩

/-- `d` rounds at the end -/
def finish (d : Nat) (v : State) : UInt64 :=
  let v := round^[d] { v with v2 := v.v2 ^^^ 0xff }
  v.v0 ^^^ v.v1 ^^^ v.v2 ^^^ v.v3

/-- Zero bytes up to 7 modulo 8, and the length modulo 256 as the last byte -/
def pad (message : List UInt8) : List UInt8 :=
  message ++ List.replicate (7 - message.length % 8) 0 ++ [(message.length % 256).toUInt8]

/-- The little-endian words of a row of bytes -/
def words (bytes : List UInt8) : List UInt64 :=
  (Framing.records 8 bytes).map fun block => UInt64.ofNat (Framing.loadLe block.val)

/-- SipHash-c-d of a message -/
def sipHash (c d : Nat) (k0 k1 : UInt64) (message : List UInt8) : UInt64 :=
  finish d ((words (pad message)).foldl (compress c) (initial k0 k1))

-- The message 00 01 .. 0e under the key 00 01 .. 0f
example : sipHash 2 4 0x0706050403020100 0x0f0e0d0c0b0a0908 ((List.range 15).map Nat.toUInt8) =
    0xa129ca6149be45e5 := by
  decide +kernel

/-- A word at the front of a row of bytes is its first word. -/
theorem words_append_block {block rest : List UInt8} (whole : block.length = 8) :
    words (block ++ rest) = UInt64.ofNat (Framing.loadLe block) :: words rest := by
  unfold words
  have first := Framing.records_append_block (by decide) (⟨block, whole⟩ : Framing.Record UInt8 8) rest
  rw [first, List.map_cons]

theorem words_append {front : List UInt8} (aligned : front.length % 8 = 0) (rest : List UInt8) :
    words (front ++ rest) = words front ++ words rest := by
  unfold words
  rw [Framing.records_append (by decide) aligned, List.map_append]

/-- The bytes of a word lie side by side. -/
theorem ofNat_loadLe_cons (byte : UInt8) (rest : List UInt8) :
    UInt64.ofNat (Framing.loadLe (byte :: rest)) = byte.toUInt64 ||| UInt64.ofNat (Framing.loadLe rest) <<< 8 := by
  apply UInt64.toNat_inj.mp
  have small : byte.toNat < 2 ^ 8 := byte.toNat_lt
  have low := Nat.two_pow_add_eq_or_of_lt small (Framing.loadLe rest % 2 ^ 56)
  have shifted : (UInt64.ofNat (Framing.loadLe rest) <<< 8).toNat = 2 ^ 8 * (Framing.loadLe rest % 2 ^ 56) := by
    rw [UInt64.toNat_shiftLeft, UInt64.toNat_ofNat', Nat.shiftLeft_eq]
    change Framing.loadLe rest % 2 ^ 64 * 2 ^ 8 % 2 ^ 64 = _
    omega
  rw [UInt64.toNat_or, shifted, Nat.or_comm, UInt8.toNat_toUInt64, ← low, UInt64.toNat_ofNat', Framing.loadLe]
  omega

/-- A word as the disjunction of its shifted bytes -/
theorem ofNat_loadLe_eight (b0 b1 b2 b3 b4 b5 b6 b7 : UInt8) :
    UInt64.ofNat (Framing.loadLe [b0, b1, b2, b3, b4, b5, b6, b7]) =
      b0.toUInt64 ||| b1.toUInt64 <<< 8 ||| b2.toUInt64 <<< 16 ||| b3.toUInt64 <<< 24 ||| b4.toUInt64 <<< 32 |||
        b5.toUInt64 <<< 40 ||| b6.toUInt64 <<< 48 ||| b7.toUInt64 <<< 56 := by
  have shift (bits sum : UInt64) (small : bits < 64) (total : sum < 64) (same : sum = bits + 8) (word : UInt64) :
      word <<< bits <<< 8 = word <<< sum := by
    subst same
    rw [UInt64.shiftLeft_add small (by decide) total]
  have none : UInt64.ofNat (Framing.loadLe []) = 0 := rfl
  simp only [ofNat_loadLe_cons, none, UInt64.shiftLeft_or, UInt64.zero_shiftLeft, UInt64.or_zero,
    shift 8 16 (by decide) (by decide) (by decide), shift 16 24 (by decide) (by decide) (by decide),
    shift 24 32 (by decide) (by decide) (by decide), shift 32 40 (by decide) (by decide) (by decide),
    shift 40 48 (by decide) (by decide) (by decide), shift 48 56 (by decide) (by decide) (by decide),
    UInt64.or_assoc]

/-- A rotation to the right -/
def unrotate (word : UInt64) (bits : Nat) : UInt64 := ⟨word.toBitVec.rotateRight bits⟩

theorem unrotate_rotate (word : UInt64) {bits : Nat} (small : bits < 64) :
    unrotate (rotate word bits) bits = word := by
  apply UInt64.toBitVec_inj.mp
  apply BitVec.eq_of_getLsbD_eq
  intro index inside
  simp only [unrotate, rotate, BitVec.getLsbD_rotateRight, BitVec.getLsbD_rotateLeft, Nat.mod_eq_of_lt small]
  by_cases low : index < 64 - bits
  · have past : ¬ bits + index < bits := by omega
    have fits : bits + index < 64 := by omega
    simp only [low, past, fits, decide_true, decide_false, cond_true, cond_false, Bool.true_and]
    rw [Nat.add_sub_cancel_left]
  · have wrapped : index - (64 - bits) < bits := by omega
    have back : 64 - bits + (index - (64 - bits)) = index := by omega
    simp only [low, wrapped, inside, back, decide_true, decide_false, cond_true, cond_false, Bool.true_and]

theorem rotate_unrotate (word : UInt64) {bits : Nat} (small : bits < 64) :
    rotate (unrotate word bits) bits = word := by
  apply UInt64.toBitVec_inj.mp
  apply BitVec.eq_of_getLsbD_eq
  intro index inside
  simp only [unrotate, rotate, BitVec.getLsbD_rotateRight, BitVec.getLsbD_rotateLeft, Nat.mod_eq_of_lt small]
  by_cases low : index < bits
  · have past : ¬ 64 - bits + index < 64 - bits := by omega
    have fits : 64 - bits + index < 64 := by omega
    simp only [low, past, fits, decide_true, decide_false, cond_true, cond_false, Bool.true_and]
    rw [Nat.add_sub_cancel_left]
  · have below : index - bits < 64 - bits := by omega
    have back : bits + (index - bits) = index := by omega
    simp only [low, below, inside, back, decide_true, decide_false, cond_true, cond_false, Bool.true_and]

theorem xor_cancel_right (word mask : UInt64) : word ^^^ mask ^^^ mask = word := by
  rw [UInt64.xor_assoc, UInt64.xor_self, UInt64.xor_zero]

/-- One round backwards, its last step first -/
def unround (v : State) : State :=
  let sum2 := unrotate v.v2 32
  let mix1 := unrotate (v.v1 ^^^ sum2) 17
  let mix3 := unrotate (v.v3 ^^^ v.v0) 21
  let sum0 := unrotate (v.v0 - mix3) 32
  let sum2 := sum2 - mix1
  let v3 := unrotate (mix3 ^^^ sum2) 16
  let v1 := unrotate (mix1 ^^^ sum0) 13
  ⟨sum0 - v1, v1, sum2 - v3, v3⟩

theorem unround_round (v : State) : unround (round v) = v := by
  have turn (word : UInt64) (bits : Nat) (small : bits < 64) := unrotate_rotate word small
  simp only [unround, round, turn _ 13 (by decide), turn _ 16 (by decide), turn _ 17 (by decide),
    turn _ 21 (by decide),
    turn _ 32 (by decide), xor_cancel_right, UInt64.add_sub_cancel]

theorem round_unround (v : State) : round (unround v) = v := by
  have turn (word : UInt64) (bits : Nat) (small : bits < 64) := rotate_unrotate word small
  simp only [unround, round, turn _ 13 (by decide), turn _ 16 (by decide), turn _ 17 (by decide),
    turn _ 21 (by decide),
    turn _ 32 (by decide), xor_cancel_right, UInt64.sub_add_cancel]

theorem round_bijective : Function.Bijective round :=
  Function.bijective_iff_has_inverse.mpr ⟨unround, unround_round, round_unround⟩

/-- A message word loses nothing of the state that it meets. -/
theorem compress_bijective (c : Nat) (word : UInt64) : Function.Bijective (compress c · word) := by
  have masked : Function.Involutive fun v : State => { v with v3 := v.v3 ^^^ word } := by
    intro v
    simp only [xor_cancel_right]
  have unmasked : Function.Involutive fun v : State => { v with v0 := v.v0 ^^^ word } := by
    intro v
    simp only [xor_cancel_right]
  exact unmasked.bijective.comp ((round_bijective.iterate c).comp masked.bijective)

theorem length_pad (message : List UInt8) : (pad message).length = 8 * (message.length / 8) + 8 := by
  simp only [pad, List.length_append, List.length_replicate, List.length_singleton]
  omega

/-- The number of words and the last byte together tell the length. -/
theorem pad_injective : Function.Injective pad := by
  intro message other same
  have total := congrArg List.length same
  rw [length_pad, length_pad] at total
  have last := congrArg List.getLast? same
  simp only [pad, List.getLast?_concat, Option.some.injEq] at last
  have low := congrArg UInt8.toNat last
  simp only [UInt8.toNat_ofNat'] at low
  have length : message.length = other.length := by omega
  unfold pad at same
  rw [List.append_assoc, List.append_assoc] at same
  exact (List.append_inj same length).1

theorem ofNat_loadLe_injective {block other : List UInt8} (whole : block.length = 8) (alike : other.length = 8)
    (same : UInt64.ofNat (Framing.loadLe block) = UInt64.ofNat (Framing.loadLe other)) : block = other := by
  have small : ∀ {row : List UInt8}, row.length = 8 → Framing.loadLe row < 2 ^ 64 := by
    intro row whole
    have bound := Framing.loadLe_lt row
    rw [whole] at bound
    exact bound
  have number := congrArg UInt64.toNat same
  rw [UInt64.toNat_ofNat', UInt64.toNat_ofNat', Nat.mod_eq_of_lt (small whole),
    Nat.mod_eq_of_lt (small alike)] at number
  rw [← Framing.storeLe_loadLe block, ← Framing.storeLe_loadLe other, number, whole, alike]

theorem words_injective {bytes other : List UInt8} (aligned : bytes.length % 8 = 0) (alike : other.length % 8 = 0)
    (same : words bytes = words other) : bytes = other := by
  have injective : Function.Injective fun block : Framing.Record UInt8 8 =>
      UInt64.ofNat (Framing.loadLe block.val) := by
    intro block later equal
    exact Subtype.ext (ofNat_loadLe_injective block.property later.property equal)
  have blocks := List.map_injective_iff.mpr injective same
  rw [← Framing.encode_records (by decide) aligned, ← Framing.encode_records (by decide) alike, blocks]

/-- Different messages are absorbed as different rows of words. -/
theorem words_pad_injective : Function.Injective fun message => words (pad message) := by
  intro message other same
  have aligned : ∀ row : List UInt8, (pad row).length % 8 = 0 := by
    intro row
    rw [length_pad]
    omega
  exact pad_injective (words_injective (aligned message) (aligned other) same)

end SipHash
