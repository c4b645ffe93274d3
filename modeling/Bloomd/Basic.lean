import Bloomd.Framing.Records

/-! The constants, error numbers and records of `include/bloomd.h`. -/

namespace Bloomd

abbrev Bytes := List UInt8

/-- The bytes of an ASCII literal of the source. -/
def bytes (text : String) : Bytes := text.toList.map fun char => char.toNat.toUInt8

def pathMax : Nat := 4096
def maxFrameBody : Nat := 1024 * 1024
def maxNameLen : Nat := 63
def maxFilters : Nat := 1024
def maxBatchItems : Nat := 1024
def digestSize : Nat := 16
def metadataVersion : Nat := 1
def logSyncIntervalMs : Nat := 250
def logBufferCap : Nat := 64 * digestSize
def backendName : Bytes := bytes "bpf_bloom"
def digestName : Bytes := bytes "siphash128-v1"

theorem digestSize_pos : 0 < digestSize := by decide

abbrev Digest := Framing.Record UInt8 digestSize

inductive Errno where
  | eperm | enoent | eintr | eio | e2big | eagain | enomem | eacces | eexist | einval
  | enfile | emfile | enospc | epipe | erange | enametoolong | eproto | econnreset
  | etimedout | euclean | ebadf | eisdir
  deriving DecidableEq, Repr

def Errno.strerror : Errno → String
  | .eperm => "Operation not permitted"
  | .enoent => "No such file or directory"
  | .eintr => "Interrupted system call"
  | .eio => "Input/output error"
  | .e2big => "Argument list too long"
  | .eagain => "Resource temporarily unavailable"
  | .enomem => "Cannot allocate memory"
  | .eacces => "Permission denied"
  | .eexist => "File exists"
  | .einval => "Invalid argument"
  | .enfile => "Too many open files in system"
  | .emfile => "Too many open files"
  | .enospc => "No space left on device"
  | .epipe => "Broken pipe"
  | .erange => "Numerical result out of range"
  | .enametoolong => "File name too long"
  | .eproto => "Protocol error"
  | .econnreset => "Connection reset by peer"
  | .etimedout => "Connection timed out"
  | .euclean => "Structure needs cleaning"
  | .ebadf => "Bad file descriptor"
  | .eisdir => "Is a directory"

/-- The text that `snprintf` leaves in a message buffer of 256 bytes -/
def errbuf (message : String) : String := String.ofList (message.toList.take 255)

/-- A negative return code together with the text left in `errbuf`. -/
structure Failure where
  errno : Errno
  message : String
  deriving DecidableEq, Repr

inductive Status where
  | ok | badRequest | tooLarge | notFound | exists | unsupported | io | bpf | name | state
  | perm | internal
  deriving DecidableEq, Repr

inductive ErrorCode where
  | none | parse | range | timeout | shortIo | unsupportedKernel | bpfPrivs | bpffs | metadata
  deriving DecidableEq, Repr

inductive LogSyncMode where
  | periodic | always
  deriving DecidableEq, Repr

/-- The part of `struct bloomd_filter_meta` that the metadata file holds. The
error rate is kept as the bits of the double. -/
structure MetaRecord where
  name : Bytes
  backend : Bytes
  digest : Bytes
  pinPath : Bytes
  capacity : Nat
  errorRate : UInt64
  hashes : Nat
  valueSize : Nat
  version : Nat
  hasData : Bool
  logClean : Bool
  deriving DecidableEq, Repr

/-- `struct bloomd_filter_meta`: the record and the paths derived from the roots. -/
structure FilterMeta extends MetaRecord where
  metaPath : Bytes
  logPath : Bytes
  deriving DecidableEq, Repr

/-- `struct bloomd_bpf_map_info`. -/
structure MapInfo where
  type : Nat
  keySize : Nat
  valueSize : Nat
  maxEntries : Nat
  mapExtra : Nat
  deriving DecidableEq, Repr

/-- `BPF_MAP_TYPE_BLOOM_FILTER` of the kernel's `linux/bpf.h`. -/
def bloomFilterMapType : Nat := 30

structure Config where
  pinRoot : Bytes
  metaRoot : Bytes
  logSyncMode : LogSyncMode
  deriving DecidableEq, Repr

/-- What a request is answered with: a body, or a status with code and message. -/
inductive Reply where
  | ok (body : Bytes)
  | error (status : Status) (code : ErrorCode) (message : String)
  deriving DecidableEq, Repr

def Reply.status : Reply → Status
  | .ok _ => .ok
  | .error status _ _ => status

end Bloomd
