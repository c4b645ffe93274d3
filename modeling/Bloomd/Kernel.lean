import Bloomd.CrashLogic.Weakest
import Bloomd.Path
import Mathlib.Data.List.AList
import Mathlib.Tactic.Simps.Basic

/-! The world outside the daemon process (metadata files, digest logs, pins and
kernel maps) and the system calls that reach it. Each call consumes one answer, so
a crash can fall between any two of them. -/

namespace Bloomd

open CrashLogic

/-- Errors a call may meet at any time. `ENOENT` and `EEXIST` are not among
them: those two report the state of the path. -/
inductive Fault where
  | eperm | eacces | emfile | enfile | enomem | enospc | eio | eagain
  deriving DecidableEq, Repr

def Fault.errno : Fault → Errno
  | .eperm => .eperm
  | .eacces => .eacces
  | .emfile => .emfile
  | .enfile => .enfile
  | .enomem => .enomem
  | .enospc => .enospc
  | .eio => .eio
  | .eagain => .eagain

/-- What the environment decides about one call: it does its work, it fails
without effect, it is interrupted by a signal, it moves only `count` bytes, or it
reads `time` from a clock. -/
inductive Answer where
  | ok
  | fail (fault : Fault)
  | interrupted
  | count (n : Nat)
  | time (now : Nat)
  deriving DecidableEq, Repr

def Answer.refusal : Answer → Option Errno
  | .fail fault => some fault.errno
  | .interrupted => some .eintr
  | _ => none

def Answer.clock : Answer → Nat
  | .time now => now
  | _ => 0

/-- A digest log: the bytes that an fsync has made durable, and the bytes
written since. -/
structure LogFile where
  stable : Bytes
  tail : Bytes
  deriving DecidableEq, Repr

def LogFile.data (log : LogFile) : Bytes := log.stable ++ log.tail

def LogFile.empty : LogFile := ⟨[], []⟩

def LogFile.append (log : LogFile) (chunk : Bytes) : LogFile :=
  { log with tail := log.tail ++ chunk }

def LogFile.synced (log : LogFile) : LogFile := ⟨log.data, []⟩

/-- `ftruncate`: a longer length extends the file with zero bytes. -/
def LogFile.truncate (log : LogFile) (length : Nat) : LogFile where
  stable := log.stable.take length
  tail := log.tail.take (length - log.stable.length) ++
    List.replicate (length - log.data.length) 0

/-- A kernel Bloom map. It never forgets, and what it was given is exactly
what it is bound to report as present. -/
structure KernelMap where
  info : MapInfo
  contents : List Digest
  deriving DecidableEq, Repr

/-- The state that outlives a daemon process. A metadata file is kept as the
record that was formatted into it or that its text decodes to, `none` for any text
that the reader rejects. Logs are addressed by their own table because their names
never end in `.meta`. -/
structure World where
  files : AList (fun _ : Loc => Option MetaRecord)
  logs : AList (fun _ : Loc => LogFile)
  pins : AList (fun _ : Loc => Nat)
  maps : List KernelMap
  pid : Nat

def World.empty : World := ⟨∅, ∅, ∅, [], 1⟩

abbrev Sys := Prog World Answer

/-- What opening and reading one metadata file meets during a startup: the whole text, whether
or not an error follows it, which nobody looks for; an error of the open; or an error before
the text has ended. -/
inductive ReadAnswer where
  | ok
  | openFails (fault : Fault)
  | readFails
  deriving DecidableEq, Repr

/-- The parts of a startup's environment that are fixed by path: the order in which
directories list their entries, after how many entries a `readdir` of the two directories
fails, and the outcome of reading each file. -/
structure Env where
  order : List Bytes → List Bytes
  perm : ∀ entries, (order entries).Perm entries
  filesCut : Option Nat
  pinsCut : Option Nat
  reads : Bytes → ReadAnswer

def Env.plain : Env := ⟨id, fun _ => List.Perm.refl _, none, none, fun _ => .ok⟩

/-- What `bloomd_list_dir` makes of a directory: it takes an error of `readdir` for the end. -/
def Env.listing (env : Env) (cut : Option Nat) (entries : List Bytes) : List Bytes :=
  match cut with
  | none => env.order entries
  | some count => (env.order entries).take count

/-- A call that either is refused without effect or does `effect`. -/
def attempt (effect : World → Except Errno α × World) : Sys (Except Errno α) :=
  Prog.call fun answer world =>
    match answer.refusal with
    | some errno => (.error errno, world)
    | none => effect world

/-- The result of a transfer: how much was moved, a signal, or an error. -/
inductive Moved (α : Type) where
  | moved (what : α)
  | interrupted
  | failed (errno : Errno)

namespace World

def logAt (world : World) (path : Bytes) : Option LogFile := world.logs.lookup (resolve path)

def pinAt (world : World) (path : Bytes) : Option Nat := world.pins.lookup (resolve path)

def fileAt (world : World) (path : Bytes) : Option (Option MetaRecord) :=
  world.files.lookup (resolve path)

@[simps] def setLog (world : World) (path : Bytes) (log : LogFile) : World :=
  { world with logs := world.logs.insert (resolve path) log }

/-- A descriptor whose file was unlinked still accepts writes, but they are
lost with it. -/
def changeLog (world : World) (path : Bytes) (change : LogFile → LogFile) : World :=
  match world.logAt path with
  | some log => world.setLog path (change log)
  | none => world

@[simps] def setFile (world : World) (path : Bytes) (file : Option MetaRecord) : World :=
  { world with files := world.files.insert (resolve path) file }

@[simps] def dropFile (world : World) (path : Bytes) : World :=
  { world with files := world.files.erase (resolve path) }

@[simps] def dropLog (world : World) (path : Bytes) : World :=
  { world with logs := world.logs.erase (resolve path) }

@[simps] def dropPin (world : World) (path : Bytes) : World :=
  { world with pins := world.pins.erase (resolve path) }

@[simps] def setPin (world : World) (path : Bytes) (map : Nat) : World :=
  { world with pins := world.pins.insert (resolve path) map }

@[simps] def addMap (world : World) (map : KernelMap) : World :=
  { world with maps := world.maps ++ [map] }

@[simps] def addDigest (world : World) (map : Nat) (digest : Digest) : World :=
  { world with maps := world.maps.modify map fun kernel =>
      { kernel with contents := kernel.contents ++ [digest] } }

/-- Pins lie below a path, so it leads to a directory. -/
def isPinDirectory (world : World) (path : Bytes) : Bool :=
  world.pins.keys.any fun loc => ((resolve path).entryBelow loc).isSome

def contents (world : World) (map : Nat) : List Digest :=
  (world.maps[map]?.map KernelMap.contents).getD []

end World

/-- The names of the files in a directory -/
def entriesIn {α : Type} (table : AList (fun _ : Loc => α)) (dir : Loc) : List Bytes :=
  table.keys.filterMap fun loc => if loc = dir.child loc.leaf then some loc.leaf else none

/-- The names of the pins in a directory and of the directories in it that lead to pins -/
def pinEntries (world : World) (dir : Loc) : List Bytes := (world.pins.keys.filterMap dir.entryBelow).dedup

/-- `write(2)` on an open log -/
def sysWrite (path chunk : Bytes) : Sys (Moved Nat) :=
  Prog.call fun answer world =>
    match answer with
    | .count n => (.moved (min n chunk.length), world.changeLog path (·.append (chunk.take n)))
    | .interrupted => (.interrupted, world)
    | .fail fault => (.failed fault.errno, world)
    | _ => (.moved chunk.length, world.changeLog path (·.append chunk))

/-- `read(2)` at a position of an open log -/
def sysRead (path : Bytes) (position want : Nat) : Sys (Moved Bytes) :=
  Prog.call fun answer world =>
    let available := (((world.logAt path).map LogFile.data).getD []).drop position
    match answer with
    | .count n => (.moved (available.take (min (max n 1) want)), world)
    | .interrupted => (.interrupted, world)
    | .fail fault => (.failed fault.errno, world)
    | _ => (.moved (available.take want), world)

/-- `open(2)` of a log with `O_CREAT | O_APPEND`, and `O_TRUNC` when asked -/
def sysOpenLog (path : Bytes) (truncate : Bool) : Sys (Except Errno Bytes) :=
  attempt fun world =>
    match world.logAt path, truncate with
    | some _, false => (.ok path, world)
    | _, _ => (.ok path, world.setLog path .empty)

/-- `open(2)` of a log with `O_RDONLY` -/
def sysOpenRead (path : Bytes) : Sys (Except Errno Unit) :=
  attempt fun world =>
    match world.logAt path with
    | some _ => (.ok (), world)
    | none => (.error .enoent, world)

def sysFsync (path : Bytes) : Sys (Except Errno Unit) :=
  attempt fun world => (.ok (), world.changeLog path LogFile.synced)

/-- `lseek(fd, 0, SEEK_END)` -/
def sysLseekEnd (path : Bytes) : Sys (Except Errno Nat) :=
  attempt fun world => (.ok (((world.logAt path).map LogFile.data).getD []).length, world)

/-- `ftruncate(2)` and `truncate(2)` -/
def sysTruncate (path : Bytes) (length : Nat) : Sys (Except Errno Unit) :=
  attempt fun world => (.ok (), world.changeLog path (·.truncate length))

def sysUnlinkLog (path : Bytes) : Sys (Except Errno Unit) :=
  attempt fun world =>
    match world.logAt path with
    | some _ => (.ok (), world.dropLog path)
    | none => (.error .enoent, world)

def sysUnlinkFile (path : Bytes) : Sys (Except Errno Unit) :=
  attempt fun world =>
    match world.fileAt path with
    | some _ => (.ok (), world.dropFile path)
    | none => (.error .enoent, world)

def sysUnlinkPin (path : Bytes) : Sys (Except Errno Unit) :=
  attempt fun world =>
    match world.pinAt path with
    | some _ => (.ok (), world.dropPin path)
    | none => (.error (if world.isPinDirectory path then .eisdir else .enoent), world)

/-- `open(2)` of a metadata file with `O_CREAT | O_TRUNC` -/
def sysCreateFile (path : Bytes) : Sys (Except Errno Unit) :=
  attempt fun world => (.ok (), world.setFile path none)

/-- All of `bloomd_write_all` on a fresh temporary file. Nobody reads the file
before it is renamed, so a partial text needs no state of its own. -/
def sysFillFile (path : Bytes) (record : MetaRecord) : Sys (Except Errno Unit) :=
  Prog.call fun answer world =>
    match answer with
    | .fail fault => (.error (if fault = .eagain then .etimedout else fault.errno), world)
    | _ => (.ok (), world.setFile path (some record))

/-- A call whose effect the model does not see (`fdatasync`, a directory's
`open` and `fsync`). -/
def sysSilent : Sys (Except Errno Unit) := attempt fun world => (.ok (), world)

def sysRename (source target : Bytes) : Sys (Except Errno Unit) :=
  attempt fun world =>
    match world.fileAt source with
    | some file => (.ok (), (world.dropFile source).setFile target file)
    | none => (.error .enoent, world)

/-- `bloomd_list_dir` on the metadata directory -/
def sysListFiles (env : Env) (dir : Bytes) : Sys (Except Errno (List Bytes)) :=
  attempt fun world => (.ok (env.listing env.filesCut (entriesIn world.files (resolve dir))), world)

/-- `bloomd_list_dir` on the pin directory -/
def sysListPins (env : Env) (dir : Bytes) : Sys (Except Errno (List Bytes)) :=
  attempt fun world => (.ok (env.listing env.pinsCut (pinEntries world (resolve dir))), world)

def sysClock : Sys Nat := Prog.call fun answer world => (answer.clock, world)

/-- `BPF_MAP_CREATE` -/
def sysMapCreate (info : MapInfo) : Sys (Except Errno Nat) :=
  attempt fun world => (.ok world.maps.length, world.addMap ⟨info, []⟩)

/-- `BPF_OBJ_GET` -/
def sysObjGet (path : Bytes) : Sys (Except Errno Nat) :=
  attempt fun world =>
    match world.pinAt path with
    | some map => (.ok map, world)
    | none => (.error .enoent, world)

/-- `BPF_OBJ_PIN` -/
def sysObjPin (map : Nat) (path : Bytes) : Sys (Except Errno Unit) :=
  attempt fun world =>
    match world.pinAt path with
    | some _ => (.error .eexist, world)
    | none => (.ok (), world.setPin path map)

/-- `BPF_MAP_UPDATE_ELEM` -/
def sysMapUpdate (map : Nat) (digest : Digest) : Sys (Except Errno Unit) :=
  attempt fun world => (.ok (), world.addDigest map digest)

/-- `BPF_MAP_LOOKUP_ELEM`: `ENOENT` for a digest that is not present. A Bloom
map may also report one that it was never given, which `count` stands for. -/
def sysMapLookup (map : Nat) (digest : Digest) : Sys (Except Errno Unit) :=
  Prog.call fun answer world =>
    match answer with
    | .count _ => (.ok (), world)
    | .interrupted => (.error .eintr, world)
    | .fail fault => (.error fault.errno, world)
    | _ => (if digest ∈ world.contents map then .ok () else .error .enoent, world)

/-- `BPF_OBJ_GET_INFO_BY_FD` -/
def sysMapInfo (map : Nat) : Sys (Except Errno MapInfo) :=
  attempt fun world =>
    match world.maps[map]? with
    | some kernel => (.ok kernel.info, world)
    | none => (.error .einval, world)

/-- `realloc(3)`, which may find no memory -/
def sysRealloc : Sys (Except Errno Unit) := sysSilent

end Bloomd
