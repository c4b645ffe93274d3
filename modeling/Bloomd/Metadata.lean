import Bloomd.Log
import Bloomd.Printf

/-! `meta.c`: writing a metadata file in place of the old one, reading it back,
removing it and setting it aside. -/

namespace Bloomd

open CrashLogic

/-- `0.0 < rate < 1.0` for a double given by its bits: positive doubles are
ordered like their bits, and infinities and NaNs lie above one. -/
def rateInRange (bits : UInt64) : Bool := 0 < bits && bits < 0x3ff0000000000000

/-- `strtod` reports no `ERANGE` for the text of this double: it is not subnormal. -/
def rateIsNormal (bits : UInt64) : Bool := 0x0010000000000000 ≤ bits

def flagText (flag : Bool) : Bytes := if flag then [49] else [48]

def metaLine (key : String) (value : Bytes) : Bytes := bytes key ++ 61 :: (value ++ [10])

/-- The text that `bloomd_meta_write_atomic` formats -/
def metaBody (record : MetaRecord) : Bytes :=
  metaLine "version" (natText record.version) ++ metaLine "name" record.name ++
    metaLine "backend" record.backend ++ metaLine "digest" record.digest ++
    metaLine "capacity" (natText record.capacity) ++
    metaLine "error_rate" (formatG17 record.errorRate) ++
    metaLine "hashes" (natText record.hashes) ++ metaLine "value_size" (natText record.valueSize) ++
    metaLine "has_data" (flagText record.hasData) ++
    metaLine "log_clean" (flagText record.logClean) ++ metaLine "pin_path" record.pinPath

def tempPath (metaPath : Bytes) (pid : Nat) : Bytes := metaPath ++ bytes ".tmp." ++ natText pid

/-- Remove the temporary file after a failed step, keeping the step's error. -/
def abandonTemp (temp : Bytes) (errno : Errno) : Sys (Except Errno Unit) := do
  let _ ← sysUnlinkFile temp
  pure (.error errno)

/-- `bloomd_meta_write_atomic` -/
def metaWriteAtomic (record : FilterMeta) : Sys (Except Errno Unit) :=
  if 2048 ≤ (metaBody record.toMetaRecord).length then pure (.error .enametoolong)
  else do
    let pid ← Prog.inspect World.pid
    let temp := tempPath record.metaPath pid
    if pathMax ≤ temp.length then pure (.error .enametoolong)
    else do
      match ← sysCreateFile temp with
      | .error errno => pure (.error errno)
      | .ok () =>
        match ← sysFillFile temp record.toMetaRecord with
        | .error errno => abandonTemp temp errno
        | .ok () =>
          match ← sysSilent with
          | .error errno => abandonTemp temp errno
          | .ok () =>
            match ← sysRename temp record.metaPath with
            | .error errno => abandonTemp temp errno
            | .ok () =>
              match ← sysSilent with
              | .error _ => pure (.ok ())
              | .ok () => do
                let _ ← sysSilent
                pure (.ok ())

/-- `fgets(line, 1024, fp)`: one line with its newline, or a part of a line that
is too long, and what is left to read -/
def fgets (input : Bytes) : Bytes × Bytes :=
  let room := input.take 1023
  input.splitAt (min (room.idxOf 10 + 1) room.length)

/-- `bloomd_trim_newline` -/
def trimNewline (line : Bytes) : Bytes :=
  (line.reverse.dropWhile fun char => char == 10 || char == 13).reverse

/-- Whether the reader passes over all that is left. Every other line is an error
there, because each key has been seen. -/
def onlySkipped : Nat → Bytes → Bool
  | 0, input => input == []
  | fuel + 1, input =>
    let line := trimNewline (fgets input).1
    input == [] || ((line == [] || line.head? == some 35) && onlySkipped fuel (fgets input).2)

/-- The checks that `bloomd_meta_read_file` makes of the values it parsed -/
def MetaRecord.isValid (record : MetaRecord) : Bool :=
  record.version == metadataVersion && nameIsValid record.name && record.backend == backendName &&
    record.digest == digestName && record.valueSize == digestSize && record.capacity != 0 &&
    record.capacity < 2 ^ 64 && record.hashes ≤ 15 && rateInRange record.errorRate

/-- What the reader makes of a record's text. The writer puts `pin_path` last, and
it alone can hold a newline or be longer than the reader's line buffer. The rate alone may
be printed so that it cannot be parsed. -/
def MetaRecord.readBack (record : MetaRecord) : Option MetaRecord :=
  let (line, rest) := fgets (metaLine "pin_path" record.pinPath)
  if record.isValid && rateIsNormal record.errorRate && onlySkipped rest.length rest then
    some { record with pinPath := (trimNewline line).drop (bytes "pin_path=").length }
  else none

/-- `bloomd_meta_read_file`. `fgets` takes a read error for the end of the file: before the
text has ended, a mandatory key is missing, since the writer puts `pin_path` last. -/
def metaReadFile (env : Env) (path : Bytes) : Sys (Except Errno FilterMeta) :=
  Prog.call fun _ world =>
    match env.reads path, world.fileAt path with
    | .openFails fault, _ => (.error fault.errno, world)
    | .ok, none => (.error .enoent, world)
    | .readFails, none => (.error .enoent, world)
    | .readFails, some _ => (.error .einval, world)
    | .ok, some none => (.error .einval, world)
    | .ok, some (some record) =>
      match record.readBack with
      | none => (.error .einval, world)
      | some read => (.ok { read with metaPath := path, logPath := [] }, world)

/-- `bloomd_meta_delete` -/
def metaDelete (path : Bytes) : Sys (Except Errno Unit) := removePathIfExists (sysUnlinkFile path)

/-- `bloomd_meta_recover_stale` -/
def metaRecoverStale (path : Bytes) : Sys (Except Errno Unit) := do
  let now ← sysClock
  let recovered := path ++ bytes ".stale." ++ natText now
  if pathMax ≤ recovered.length then pure (.error .enametoolong)
  else sysRename path recovered

end Bloomd
