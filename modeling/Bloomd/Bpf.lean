import Bloomd.Log

/-! `bpf.c`: the kernel map calls with the error texts they leave. -/

namespace Bloomd

open CrashLogic

/-- `bloomd_errno_msg` after a failed call -/
def failedCall (what : String) (errno : Errno) : Failure :=
  ⟨errno, errbuf (what ++ ": " ++ errno.strerror)⟩

def withFailure (what : String) (call : Sys (Except Errno α)) : Sys (Except Failure α) := do
  match ← call with
  | .ok value => pure (.ok value)
  | .error errno => pure (.error (failedCall what errno))

/-- The parameters that `bloomd_bpf_create_map` asks the kernel for -/
def createdMapInfo (capacity hashes : Nat) : MapInfo where
  type := bloomFilterMapType
  keySize := 0
  valueSize := digestSize
  maxEntries := capacity % 2 ^ 32
  mapExtra := hashes &&& 0x0f

/-- `bloomd_bpf_create_map`. The map's name is only a label and is left out. -/
def bpfCreateMap (capacity hashes : Nat) : Sys (Except Failure Nat) :=
  if capacity = 0 ∨ 2 ^ 32 ≤ capacity then
    pure (.error ⟨.erange, "capacity must fit in a 32-bit max_entries field"⟩)
  else if 15 < hashes then pure (.error ⟨.erange, "hash count must be between 0 and 15"⟩)
  else withFailure "BPF_MAP_CREATE failed" (sysMapCreate (createdMapInfo capacity hashes))

/-- `bloomd_bpf_open_pinned` -/
def bpfOpenPinned (path : Bytes) : Sys (Except Errno Nat) := sysObjGet path

/-- `bloomd_bpf_pin_map` -/
def bpfPinMap (map : Nat) (path : Bytes) : Sys (Except Failure Unit) :=
  withFailure "BPF_OBJ_PIN failed" (sysObjPin map path)

/-- `bloomd_bpf_add_digest` -/
def bpfAddDigest (map : Nat) (digest : Digest) : Sys (Except Failure Unit) :=
  withFailure "BPF_MAP_UPDATE_ELEM failed" (sysMapUpdate map digest)

/-- `bloomd_bpf_check_digest` -/
def bpfCheckDigest (map : Nat) (digest : Digest) : Sys (Except Failure Bool) := do
  match ← sysMapLookup map digest with
  | .ok () => pure (.ok true)
  | .error errno =>
    if errno = .enoent then pure (.ok false)
    else pure (.error (failedCall "BPF_MAP_LOOKUP_ELEM failed" errno))

/-- `bloomd_bpf_get_map_info` -/
def bpfGetMapInfo (map : Nat) : Sys (Except Failure MapInfo) :=
  withFailure "BPF_OBJ_GET_INFO_BY_FD failed" (sysMapInfo map)

/-- `bloomd_bpf_unpin` -/
def bpfUnpin (path : Bytes) : Sys (Except Failure Unit) := do
  match ← removePathIfExists (sysUnlinkPin path) with
  | .ok () => pure (.ok ())
  | .error errno => pure (.error (failedCall "unlink failed" errno))

end Bloomd
