import Bloomd.Client

/-! The blocking side of `protocol.c` and `util.c`, which `bloomctl` uses: a frame
is written with `writev` and read back with `read`, each call moving as many bytes
as the peer takes or has. -/

namespace Bloomd

open CrashLogic

/-- A blocking socket: the bytes that were not read yet and those that were sent -/
structure Wire where
  incoming : Bytes
  outgoing : Bytes
  deriving DecidableEq, Repr

namespace Transport

/-- `writev(2)` of the pieces of a vector -/
def sysWritev (vector : List Bytes) : Prog Wire Transfer (Moved Nat) :=
  Prog.call fun transfer wire =>
    match transfer with
    | .moved n =>
      (.moved (min n vector.flatten.length), { wire with outgoing := wire.outgoing ++ vector.flatten.take n })
    | .again => (.failed .eagain, wire)
    | .interrupted => (.interrupted, wire)
    | .failed errno => (.failed errno, wire)

/-- `read(2)` of at most `want` bytes -/
def sysRead (want : Nat) : Prog Wire Transfer (Moved Bytes) :=
  Prog.call fun transfer wire =>
    match transfer with
    | .moved n =>
      (.moved (wire.incoming.take (min n want)), { wire with incoming := wire.incoming.drop (min n want) })
    | .again => (.failed .eagain, wire)
    | .interrupted => (.interrupted, wire)
    | .failed errno => (.failed errno, wire)

/-- The inner loop of `bloomd_write_response`: pass over the pieces that were
written whole. What is left of the count belongs to the first piece after them. -/
def advance : Nat → List Bytes → Nat × List Bytes
  | wrote, [] => (wrote, [])
  | wrote, piece :: vector =>
    if piece.length ≤ wrote then advance (wrote - piece.length) vector else (wrote, piece :: vector)

/-- The vector after a `writev` that took `wrote` bytes -/
def resume (wrote : Nat) (vector : List Bytes) : List Bytes :=
  match advance wrote vector with
  | (_, []) => []
  | (0, vector) => vector
  | (wrote, piece :: vector) => piece.drop wrote :: vector

/-- The vector that `bloomd_write_response` starts with. It has one piece when the
body is empty. -/
def pieces (response : Response) : List Bytes :=
  let header := { response.header with bodyLen := response.body.length.toUInt32 }
  if response.body.length = 0 then [header.toBytes] else [header.toBytes, response.body]

/-- `bloomd_write_response` -/
def writeResponse (response : Response) : Prog Wire Transfer (Except Errno Unit) :=
  Prog.loop (fun vector =>
    if vector = [] then pure (.inr (.ok ()))
    else do
      match ← sysWritev vector with
      | .interrupted => pure (.inl vector)
      | .failed errno => pure (.inr (.error (if errno = .eagain then .etimedout else errno)))
      | .moved wrote => if wrote = 0 then pure (.inr (.error .epipe)) else pure (.inl (resume wrote vector)))
    (pieces response)

/-- `bloomd_read_all`; the loop carries the bytes read so far. -/
def readAll (want : Nat) : Prog Wire Transfer (Except Errno Bytes) :=
  Prog.loop (fun got =>
    if want ≤ got.length then pure (.inr (.ok got))
    else do
      match ← sysRead (want - got.length) with
      | .interrupted => pure (.inl got)
      | .failed errno => pure (.inr (.error (if errno = .eagain then .etimedout else errno)))
      | .moved chunk => if chunk = [] then pure (.inr (.error .econnreset)) else pure (.inl (got ++ chunk))) []

/-- `bloomd_read_frame`, with memory for the body always found -/
def readFrame : Prog Wire Transfer (Except Errno (FrameHeader × Bytes)) := do
  match ← readAll frameHeaderSize with
  | .error errno => pure (.error errno)
  | .ok raw =>
    let header := FrameHeader.ofBytes raw
    match headerIsValid header with
    | .error errno => pure (.error errno)
    | .ok () =>
      if header.bodyLen = 0 then pure (.ok (header, []))
      else do
        match ← readAll header.bodyLen.toNat with
        | .error errno => pure (.error errno)
        | .ok body => pure (.ok (header, body))

end Transport

end Bloomd
