import Bloomd.Framing.Slots
import Bloomd.Metadata

/-! `bloomd_meta_read_file` over the bytes of a file: the line loop, the eleven keys with
their conversions, and the checks after the loop. -/

namespace Bloomd

open Framing

/-- The conversions of the C library. Each one yields the value, how far the end pointer
got, and whether `errno` was set. -/
class Strto where
  strtoul : Bytes → UInt64 × Nat × Bool
  strtoull : Bytes → UInt64 × Nat × Bool
  strtod : Bytes → UInt64 × Nat × Bool

/-- The digits at the start of a text -/
def leadingDigits (value : Bytes) : Bytes := value.takeWhile fun char => 48 ≤ char && char ≤ 57

def digitsValue (digits : Bytes) : Nat := digits.foldl (fun total char => 10 * total + (char.toNat - 48)) 0

/-- The bits of the double nearest to a fraction between zero and one -/
def nearestDouble (value : Nat × Nat) : UInt64 :=
  if value.1 = 0 then 0
  else
    let shift := ((List.range 1075).find? fun k => 2 ^ 52 * value.2 ≤ value.1 * 2 ^ k).getD 0
    ((1075 - shift) * 2 ^ 52 + roundHalfEven (value.1 * 2 ^ shift) value.2 - 2 ^ 52).toUInt64

/-- A C library on plain decimal numbers: digits for the integers, and digits around a
point for a double below one -/
@[reducible] def exactStrto : Strto where
  strtoul value := (digitsValue (leadingDigits value) |>.toUInt64, (leadingDigits value).length,
    2 ^ 64 ≤ digitsValue (leadingDigits value))
  strtoull value := (digitsValue (leadingDigits value) |>.toUInt64, (leadingDigits value).length,
    2 ^ 64 ≤ digitsValue (leadingDigits value))
  strtod value :=
    let whole := leadingDigits value
    let decimals := leadingDigits (value.drop (whole.length + 1))
    (nearestDouble (digitsValue (whole ++ decimals), 10 ^ decimals.length), whole.length + 1 + decimals.length, false)

section Conversions

variable [Strto]

/-- The test that all three parsers make of a conversion -/
def converted {α : Type} (value : Bytes) (outcome : α × Nat × Bool) : Option α :=
  let (parsed, stop, failed) := outcome
  if failed || stop == 0 || stop != value.length then none else some parsed

/-- `bloomd_meta_parse_u32` -/
def metaParseU32 (value : Bytes) : Option Nat :=
  match converted value (Strto.strtoul value) with
  | none => none
  | some parsed => if 2 ^ 32 ≤ parsed.toNat then none else some parsed.toNat

/-- `bloomd_meta_parse_u64` -/
def metaParseU64 (value : Bytes) : Option Nat := (converted value (Strto.strtoull value)).map UInt64.toNat

/-- `bloomd_meta_parse_double`, the bits of the double -/
def metaParseDouble (value : Bytes) : Option UInt64 := converted value (Strto.strtod value)

/-- The value of `has_data` or `log_clean` -/
def metaParseFlag (value : Bytes) : Option Bool :=
  match metaParseU32 value with
  | some 0 => some false
  | some 1 => some true
  | _ => none

end Conversions

/-- `bloomd_meta_assign_string` into an array of `size` bytes -/
def metaAssignString (size : Nat) (value : Bytes) : Option Bytes := if size ≤ value.length then none else some value

/-- The keys of a metadata file -/
inductive MetaKey where
  | version
  | name
  | backend
  | digest
  | capacity
  | errorRate
  | hashes
  | valueSize
  | hasData
  | logClean
  | pinPath
  deriving DecidableEq, Repr

namespace MetaKey

def text : MetaKey → Bytes
  | version => bytes "version"
  | name => bytes "name"
  | backend => bytes "backend"
  | digest => bytes "digest"
  | capacity => bytes "capacity"
  | errorRate => bytes "error_rate"
  | hashes => bytes "hashes"
  | valueSize => bytes "value_size"
  | hasData => bytes "has_data"
  | logClean => bytes "log_clean"
  | pinPath => bytes "pin_path"

/-- The chain of `strcmp`, in its order -/
def ofText (key : Bytes) : Option MetaKey :=
  [version, name, backend, digest, capacity, errorRate, hashes, valueSize, hasData, logClean, pinPath].find?
    fun known => key = known.text

/-- What the field of a key holds -/
@[reducible] def Value : MetaKey → Type
  | version | capacity | hashes | valueSize => Nat
  | name | backend | digest | pinPath => Bytes
  | errorRate => UInt64
  | hasData | logClean => Bool

/-- The conversion of a key's value -/
def parse [Strto] : (key : MetaKey) → Bytes → Option key.Value
  | version, value => metaParseU32 value
  | name, value => metaAssignString (maxNameLen + 1) value
  | backend, value => metaAssignString 16 value
  | digest, value => metaAssignString 32 value
  | capacity, value => metaParseU64 value
  | errorRate, value => metaParseDouble value
  | hashes, value => metaParseU32 value
  | valueSize, value => metaParseU32 value
  | hasData, value => metaParseFlag value
  | logClean, value => metaParseFlag value
  | pinPath, value => metaAssignString pathMax value

/-- Whether a key counts as seen. There is a flag for every key but `version`, for which
the number in the field is tested: it is zero at first. -/
def seen : (key : MetaKey) → Option key.Value → Bool
  | version, (field : Option Nat) => field.getD 0 != 0
  | name, field | backend, field | digest, field | capacity, field | errorRate, field | hashes, field
  | valueSize, field | hasData, field | logClean, field | pinPath, field => field.isSome

/-- The branch of a key in the line loop -/
def feed [Strto] (key : MetaKey) (field : Option key.Value) (value : Bytes) : Option (Option key.Value) :=
  if seen key field then none else (parse key value).map some

end MetaKey

/-- The fields that the reader has seen -/
abbrev MetaFields : Type := (key : MetaKey) → Option key.Value

def MetaFields.none : MetaFields := fun _ => Option.none

/-- The key and the value of a line, cut at its first `=` -/
def splitLine (line : Bytes) : Option (Bytes × Bytes) :=
  if 61 ∈ line then some (line.takeWhile (· ≠ 61), (line.dropWhile (· ≠ 61)).drop 1) else none

/-- A line of the file without its newline, as a C string -/
def lineText (line : Bytes) : Bytes := trimNewline (line.takeWhile (· ≠ 0))

/-- Whether the reader passes over a line -/
def skipped (text : Bytes) : Bool := text == [] || text.head? == some 35

/-- What the loop does with one line -/
def readLine [Strto] (fields : MetaFields) (text : Bytes) : Option MetaFields :=
  if skipped text then some fields
  else
    match splitLine text with
    | Option.none => Option.none
    | some (key, value) =>
      match MetaKey.ofText key with
      | Option.none => Option.none
      | some known => (MetaKey.feed known (fields known) value).map fun field => Function.update fields known field

/-- The loop over `fgets`. Each turn takes at least one byte, so the bound never ends it. -/
def readLines [Strto] : Nat → Bytes → MetaFields → Option MetaFields
  | 0, _, fields => some fields
  | fuel + 1, input, fields =>
    if input = [] then some fields
    else
      match readLine fields (lineText (fgets input).1) with
      | Option.none => Option.none
      | some later => readLines fuel (fgets input).2 later

/-- The record that the fields describe, with the defaults of the two flags -/
def MetaFields.record (fields : MetaFields) : Option MetaRecord :=
  match fields .name, fields .backend, fields .digest, fields .capacity, fields .errorRate, fields .hashes,
    fields .valueSize, fields .pinPath with
  | some name, some backend, some digest, some capacity, some errorRate, some hashes, some valueSize, some pinPath =>
    let hasData : Bool := Option.getD (fields .hasData) true
    some {
      name, backend, digest, pinPath, capacity, errorRate, hashes, valueSize, hasData
      version := Option.getD (fields .version) (0 : Nat)
      logClean := Option.getD (fields .logClean) (!hasData) }
  | _, _, _, _, _, _, _, _ => Option.none

/-- `bloomd_meta_read_file` on the contents of a file -/
def metaReadText [Strto] (content : Bytes) : Option MetaRecord := do
  let fields ← readLines content.length content .none
  let record ← fields.record
  if record.isValid then some record else Option.none

end Bloomd
