import Bloomd.Basic
import Mathlib.Data.Nat.Log

/-! The `printf` conversions that the daemon uses: `%u`, `%llu` and `%ld` of a
nonnegative number, and `%.17g` of a double given by its bits. -/

namespace Bloomd

def natText (n : Nat) : Bytes := (Nat.toDigits 10 n).map fun digit => digit.toNat.toUInt8

/-- The exact value of a finite positive double, as a fraction. -/
def doubleFraction (bits : UInt64) : Nat × Nat :=
  let exponent := (bits.toNat / 2 ^ 52) % 2 ^ 11
  let fraction := bits.toNat % 2 ^ 52
  let significand := if exponent = 0 then fraction else fraction + 2 ^ 52
  let scale := if exponent = 0 then 1 else exponent
  if 1075 ≤ scale then (significand * 2 ^ (scale - 1075), 1)
  else (significand, 2 ^ (1075 - scale))

/-- The decimal exponent of a positive fraction. -/
def decimalExponent (value : Nat × Nat) : Int :=
  if value.2 ≤ value.1 then Nat.log 10 (value.1 / value.2)
  else -(((List.range 400).find? fun k => value.2 ≤ value.1 * 10 ^ k).getD 0 : Nat)

def roundHalfEven (num den : Nat) : Nat :=
  if 2 * (num % den) < den ∨ (2 * (num % den) = den ∧ num / den % 2 = 0) then num / den
  else num / den + 1

/-- Seventeen significant digits and the exponent that goes with them. -/
def significantDigits (value : Nat × Nat) : Nat × Int :=
  let exponent := decimalExponent value
  let shift := 16 - exponent
  let digits := if 0 ≤ shift then roundHalfEven (value.1 * 10 ^ shift.toNat) value.2
    else roundHalfEven value.1 (value.2 * 10 ^ (-shift).toNat)
  if digits = 10 ^ 17 then (10 ^ 16, exponent + 1) else (digits, exponent)

def stripZeros (text : Bytes) : Bytes := (text.reverse.dropWhile (· = 48)).reverse

/-- A point and the digits after it, or nothing when only zeros follow. -/
def fractionText (text : Bytes) : Bytes :=
  if stripZeros text = [] then [] else 46 :: stripZeros text

/-- `%.17g` of a positive double -/
def formatG17 (bits : UInt64) : Bytes :=
  if bits.toNat = 0 then [48]
  else
    let (digits, exponent) := significantDigits (doubleFraction bits)
    let text := natText digits
    if exponent < -4 ∨ 17 ≤ exponent then
      let magnitude := natText exponent.natAbs
      text.take 1 ++ fractionText (text.drop 1) ++ [101, if exponent < 0 then 45 else 43] ++
        (if magnitude.length < 2 then 48 :: magnitude else magnitude)
    else if exponent < 0 then
      48 :: fractionText (List.replicate (exponent.natAbs - 1) 48 ++ text)
    else text.take (exponent.toNat + 1) ++ fractionText (text.drop (exponent.toNat + 1))

end Bloomd
