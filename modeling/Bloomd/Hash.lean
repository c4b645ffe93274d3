import Bloomd.Basic

/-! `hash.c`: the digest of a payload is a pair of SipHash-2-4 values, computed
by two interleaved lanes. -/

namespace Bloomd

/-- `bloomd_rotl64` -/
def rotl64 (x : UInt64) (bits : UInt64) : UInt64 := (x <<< bits) ||| (x >>> (64 - bits))

/-- `bloomd_load64_le` -/
def load64Le (src : Bytes) : UInt64 :=
  (List.range 8).foldl (fun out i => out ||| ((src.getD i 0).toUInt64 <<< (8 * i).toUInt64)) 0

/-- `bloomd_store64_le` -/
def store64Le (value : UInt64) : Bytes :=
  (List.range 8).map fun i => ((value >>> (8 * i).toUInt64) &&& 0xff).toUInt8

structure SipState where
  v0 : UInt64
  v1 : UInt64
  v2 : UInt64
  v3 : UInt64
  deriving DecidableEq, Repr

/-- `bloomd_sipround` -/
def sipround (v : SipState) : SipState :=
  let v0 := v.v0 + v.v1
  let v1 := rotl64 v.v1 13
  let v1 := v1 ^^^ v0
  let v0 := rotl64 v0 32
  let v2 := v.v2 + v.v3
  let v3 := rotl64 v.v3 16
  let v3 := v3 ^^^ v2
  let v0 := v0 + v3
  let v3 := rotl64 v3 21
  let v3 := v3 ^^^ v0
  let v2 := v2 + v1
  let v1 := rotl64 v1 17
  let v1 := v1 ^^^ v2
  let v2 := rotl64 v2 32
  ⟨v0, v1, v2, v3⟩

/-- `bloomd_tail64`: the cases of the switch fall through from 7 down to 1. -/
def tail64 (data : Bytes) (length : Nat) : UInt64 :=
  let byte (i : Nat) : UInt64 := (data.getD i 0).toUInt64
  let out := length.toUInt64 <<< 56
  let out := if 7 ≤ length % 8 then out ||| (byte 6 <<< 48) else out
  let out := if 6 ≤ length % 8 then out ||| (byte 5 <<< 40) else out
  let out := if 5 ≤ length % 8 then out ||| (byte 4 <<< 32) else out
  let out := if 4 ≤ length % 8 then out ||| (byte 3 <<< 24) else out
  let out := if 3 ≤ length % 8 then out ||| (byte 2 <<< 16) else out
  let out := if 2 ≤ length % 8 then out ||| (byte 1 <<< 8) else out
  if 1 ≤ length % 8 then out ||| byte 0 else out

/-- The state after one message word: two rounds between the two xors. -/
def sipAbsorb (v : SipState) (m : UInt64) : SipState :=
  let v := sipround (sipround { v with v3 := v.v3 ^^^ m })
  { v with v0 := v.v0 ^^^ m }

def sipInit (k0 k1 : UInt64) : SipState :=
  ⟨0x736f6d6570736575 ^^^ k0, 0x646f72616e646f6d ^^^ k1,
    0x6c7967656e657261 ^^^ k0, 0x7465646279746573 ^^^ k1⟩

def sipFinish (v : SipState) : UInt64 :=
  let v := sipround (sipround (sipround (sipround { v with v2 := v.v2 ^^^ 0xff })))
  v.v0 ^^^ v.v1 ^^^ v.v2 ^^^ v.v3

/-- The word loop of `bloomd_siphash128_dual`: both lanes absorb each word, and
the data pointer ends at the tail. -/
def absorbWords : Nat → Bytes → SipState × SipState → Bytes × (SipState × SipState)
  | 0, data, lanes => (data, lanes)
  | words + 1, data, (a, b) =>
    let m := load64Le data
    absorbWords words (data.drop 8) (sipAbsorb a m, sipAbsorb b m)

/-- `bloomd_siphash128_dual` -/
def siphash128Dual (data : Bytes) (k0 k1 k2 k3 : UInt64) : UInt64 × UInt64 :=
  let (rest, a, b) := absorbWords (data.length / 8) data (sipInit k0 k1, sipInit k2 k3)
  let final := tail64 rest data.length
  (sipFinish (sipAbsorb a final), sipFinish (sipAbsorb b final))

/-- `bloomd_digest_payload` -/
def digestPayload (data : Bytes) : Digest :=
  let (lo, hi) := siphash128Dual data 0x0706050403020100 0x0f0e0d0c0b0a0908
    0x1716151413121110 0x1f1e1d1c1b1a1918
  ⟨store64Le lo ++ store64Le hi, by simp [store64Le, digestSize]⟩

end Bloomd
