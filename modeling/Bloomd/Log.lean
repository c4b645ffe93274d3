import Bloomd.Kernel

/-! `log.c`, the append-only digest log, and `bloomd_write_all`. A log descriptor
is the path it was opened at, `none` when it is closed. -/

namespace Bloomd

open CrashLogic

/-- `bloomd_write_all` -/
def writeAll (path buf : Bytes) : Sys (Except Errno Unit) :=
  Prog.loop (fun rest =>
    if rest = [] then pure (.inr (.ok ()))
    else do
      match ← sysWrite path rest with
      | .interrupted => pure (.inl rest)
      | .failed errno => pure (.inr (.error (if errno = .eagain then .etimedout else errno)))
      | .moved n => if n = 0 then pure (.inr (.error .epipe)) else pure (.inl (rest.drop n))) buf

/-- `bloomd_remove_path_if_exists`, over the call that unlinks -/
def removePathIfExists (unlink : Sys (Except Errno Unit)) : Sys (Except Errno Unit) := do
  match ← unlink with
  | .ok () => pure (.ok ())
  | .error errno => pure (if errno = .enoent then .ok () else .error errno)

/-- `bloomd_log_open_append` -/
def logOpenAppend (path : Bytes) : Sys (Except Errno Bytes) := sysOpenLog path false

/-- `bloomd_log_open_create` -/
def logOpenCreate (path : Bytes) : Sys (Except Errno Bytes) := sysOpenLog path true

/-- `bloomd_log_sync` -/
def logSync : Option Bytes → Sys (Except Errno Unit)
  | none => pure (.error .einval)
  | some path => sysFsync path

/-- `bloomd_log_buffer_append`; the second result is the buffer afterwards. -/
def logBufferAppend (fd : Option Bytes) (buf : Bytes) (digest : Digest) :
    Sys (Except Errno Unit × Bytes) :=
  match fd with
  | none => pure (.error .einval, buf)
  | some path =>
    if logBufferCap < buf.length then pure (.error .einval, buf)
    else if logBufferCap < buf.length + digestSize then do
      match ← writeAll path buf with
      | .error errno => pure (.error errno, buf)
      | .ok () => pure (.ok (), digest.val)
    else pure (.ok (), buf ++ digest.val)

/-- `bloomd_log_buffer_flush` -/
def logBufferFlush (fd : Option Bytes) (buf : Bytes) (sync : Bool) :
    Sys (Except Errno Unit × Bytes) :=
  match fd with
  | none => pure (.error .einval, buf)
  | some path => do
    match ← writeAll path buf with
    | .error errno => pure (.error errno, buf)
    | .ok () =>
      if sync then do
        let result ← logSync (some path)
        pure (result, [])
      else pure (.ok (), [])

/-- `bloomd_log_truncate` -/
def logTruncate (fd : Option Bytes) (length : Nat) (sync : Bool) : Sys (Except Errno Unit) :=
  match fd with
  | none => pure (.error .einval)
  | some path => do
    match ← sysTruncate path length with
    | .error errno => pure (.error errno)
    | .ok () => if sync then logSync (some path) else pure (.ok ())

/-- How the inner loop of `log_replay_impl` ends: a whole digest, the end of the
file with the bytes read so far, or an error. -/
inductive ReadDigest where
  | digest (value : Digest)
  | eof (partialDigest : Bytes)
  | failed (errno : Errno)

/-- What a read of `more` bytes makes of the `got` bytes before it: an end of
file, a whole digest, or a reason to read on -/
def takeMore (got more : Bytes) : Bytes ⊕ ReadDigest :=
  if more = [] then .inr (.eof got)
  else if full : (got ++ more).length = digestSize then .inr (.digest ⟨got ++ more, full⟩)
  else .inl (got ++ more)

/-- The inner loop of `log_replay_impl`: fill the digest buffer from `position`. -/
def readDigest (path : Bytes) (position : Nat) : Sys ReadDigest :=
  Prog.loop (fun got => do
    match ← sysRead path (position + got.length) (digestSize - got.length) with
    | .interrupted => pure (.inl got)
    | .failed errno => pure (.inr (.failed errno))
    | .moved more => pure (takeMore got more)) []

/-- `log_replay_impl`. The callback threads its own context; the result is the
record count, or the error code, and the context. -/
def logReplayImpl {κ : Type} (path : Bytes) (callback : Digest → κ → Sys (Bool × κ)) (context : κ)
    (truncatePartial : Bool) : Sys (Except Errno Nat × κ) := do
  match ← sysOpenRead path with
  | .error errno => pure (.error errno, context)
  | .ok () =>
    Prog.loop (fun (count, context) => do
      match ← readDigest path (count * digestSize) with
      | .failed errno => pure (.inr (.error errno, context))
      | .eof partialDigest =>
        if partialDigest = [] then pure (.inr (.ok count, context))
        else if truncatePartial then do
          match ← sysTruncate path (count * digestSize) with
          | .error errno => pure (.inr (.error errno, context))
          | .ok () => pure (.inr (.ok count, context))
        else pure (.inr (.ok count, context))
      | .digest digest => do
        let (accepted, context) ← callback digest context
        if accepted then pure (.inl (count + 1, context))
        else pure (.inr (.error .einval, context))) (0, context)

/-- `bloomd_log_replay` -/
def logReplay {κ : Type} (path : Bytes) (callback : Digest → κ → Sys (Bool × κ)) (context : κ) :
    Sys (Except Errno Nat × κ) := logReplayImpl path callback context true

/-- `bloomd_log_replay_readonly` -/
def logReplayReadonly {κ : Type} (path : Bytes) (callback : Digest → κ → Sys (Bool × κ)) (context : κ) :
    Sys (Except Errno Nat × κ) := logReplayImpl path callback context false

/-- `bloomd_log_delete` -/
def logDelete (path : Bytes) : Sys (Except Errno Unit) := removePathIfExists (sysUnlinkLog path)

end Bloomd
