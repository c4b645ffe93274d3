import Bloomd.Dispatch

/-! The per-connection state machine of `daemon.c`. One poll round drives a client
with a list of transfers, one for each `read` or `write` it makes; a list that has
run out stands for a socket that is not ready. The time of the last activity is
only read by the timeout and is left out. -/

namespace Bloomd

open CrashLogic

/-- `enum bloomd_client_state` -/
inductive ClientState where
  | empty | readHeader | readBody | writeResponse
  deriving DecidableEq, Repr

/-- `struct bloomd_client`. The two request buffers hold the bytes read so far:
`req_header_read` and `req_body.len` are their lengths. -/
structure Client where
  state : ClientState
  reqHeader : Bytes
  reqBody : Bytes
  header : FrameHeader
  response : Response
  outHeader : FrameHeader
  writeOffset : Nat
  deriving DecidableEq, Repr

/-- The peer's end: the bytes it sent that were not read yet, and the bytes it was
sent. `dispatched` records each request that was dispatched for it and the response
it got. -/
structure Socket where
  incoming : Bytes
  outgoing : Bytes
  dispatched : List (RequestView × Response)
  deriving DecidableEq, Repr

/-- What one `read` or `write` meets: at most `n` bytes, none yet, a signal, or an
error. A transfer of no bytes is the end of the stream or a closed pipe. -/
inductive Transfer where
  | moved (n : Nat)
  | again
  | interrupted
  | failed (errno : Errno)
  deriving DecidableEq, Repr

/-- The header of zero bytes that `memset` leaves -/
def FrameHeader.zero : FrameHeader := ⟨[0, 0, 0, 0], 0, 0, 0, 0, 0, 0⟩

/-- `bloomd_client_reset_request` -/
def Client.resetRequest (client : Client) : Client :=
  { client with reqHeader := [], reqBody := [], header := .zero, writeOffset := 0, state := .readHeader }

/-- `bloomd_client_init` -/
def Client.init : Client :=
  Client.resetRequest ⟨.empty, [], [], .zero, .init 0 0, .zero, 0⟩

/-- `bloomd_client_close` -/
def Client.closed : Client := ⟨.empty, [], [], .zero, ⟨.zero, []⟩, .zero, 0⟩

/-- `bloomd_client_prepare_write` -/
def Client.prepareWrite (client : Client) : Client :=
  { client with
    outHeader := { client.response.header with bodyLen := client.response.body.length.toUInt32 }
    writeOffset := 0
    state := .writeResponse }

/-- `bloomd_client_read_some`: the code, the buffer and what is left to read.
Code 1 is `true`, code 0 is `false`. -/
def readSome (want : Nat) : List Transfer → (buf incoming : Bytes) → Except Errno Bool × Bytes × Bytes
  | [], buf, incoming => (.ok (want ≤ buf.length), buf, incoming)
  | transfer :: rest, buf, incoming =>
    if want ≤ buf.length then (.ok true, buf, incoming)
    else
      match transfer with
      | .interrupted => readSome want rest buf incoming
      | .again => (.ok false, buf, incoming)
      | .failed errno =>
        if errno = .eagain then (.ok false, buf, incoming) else (.error errno, buf, incoming)
      | .moved n =>
        if n = 0 then (.error .econnreset, buf, incoming)
        else if incoming = [] then (.ok false, buf, incoming)
        else
          let chunk := incoming.take (min n (want - buf.length))
          readSome want rest (buf ++ chunk) (incoming.drop chunk.length)

/-- The end of `bloomd_client_drive_read`: dispatch the request and get ready to
write. The request is passed on with the length its header says, which is the
number of bytes read. -/
def dispatchRequest [Libm] (client : Client) (socket : Socket) (daemon : Daemon) (body : Bytes) :
    Sys (Except Errno Bool × Client × Socket × Daemon) :=
  if sized : body.length = client.header.bodyLen.toNat then do
    let daemon := { daemon with stats := { daemon.stats with requests := daemon.stats.requests + 1 } }
    let (result, response, daemon) ← dispatch daemon ⟨client.header, body, sized⟩
      (client.response.reset client.header.opcode client.header.requestId)
    let client := { client with response }
    let socket := { socket with dispatched := socket.dispatched ++ [(⟨client.header, body, sized⟩, response)] }
    match result with
    | .error errno => pure (.error errno, client, socket, daemon)
    | .ok () =>
      let daemon :=
        if response.header.status ≠ Status.ok.code then
          { daemon with stats := { daemon.stats with errors := daemon.stats.errors + 1 } }
        else daemon
      pure (.ok false, client.prepareWrite, socket, daemon)
  else pure (.error .einval, client, socket, daemon)

/-- `bloomd_client_drive_read` -/
def driveRead [Libm] (client : Client) (socket : Socket) (daemon : Daemon) (transfers : List Transfer) :
    Sys (Except Errno Bool × Client × Socket × Daemon) :=
  match client.state with
  | .readHeader =>
    let (code, reqHeader, incoming) := readSome frameHeaderSize transfers client.reqHeader socket.incoming
    let client := { client with reqHeader }
    let socket := { socket with incoming }
    match code with
    | .error errno => pure (.error errno, client, socket, daemon)
    | .ok false => pure (.ok false, client, socket, daemon)
    | .ok true =>
      let header := FrameHeader.ofBytes reqHeader
      match headerIsValid header with
      | .error errno => pure (.error errno, client, socket, daemon)
      | .ok () =>
        let client := { client with header }
        if header.bodyLen = 0 then dispatchRequest client socket daemon []
        else pure (.ok false, { client with reqBody := [], state := .readBody }, socket, daemon)
  | .readBody =>
    let (code, reqBody, incoming) :=
      readSome client.header.bodyLen.toNat transfers client.reqBody socket.incoming
    let client := { client with reqBody }
    let socket := { socket with incoming }
    match code with
    | .error errno => pure (.error errno, client, socket, daemon)
    | .ok false => pure (.ok false, client, socket, daemon)
    | .ok true => dispatchRequest client socket daemon reqBody
  | _ => dispatchRequest client socket daemon client.reqBody

/-- The bytes that one `write` of `bloomd_client_drive_write` is given: the rest of
the header, or the rest of the body -/
def Client.pending (client : Client) (offset : Nat) : Bytes :=
  if offset < frameHeaderSize then client.outHeader.toBytes.drop offset
  else client.response.body.drop (offset - frameHeaderSize)

/-- The loop of `bloomd_client_drive_write`: the code, the offset and the bytes
that were sent -/
def writeSome (client : Client) : List Transfer → (offset : Nat) → (outgoing : Bytes) →
    Except Errno Bool × Nat × Bytes
  | [], offset, outgoing => (.ok (frameHeaderSize + client.response.body.length ≤ offset), offset, outgoing)
  | transfer :: rest, offset, outgoing =>
    if frameHeaderSize + client.response.body.length ≤ offset then (.ok true, offset, outgoing)
    else
      match transfer with
      | .interrupted => writeSome client rest offset outgoing
      | .again => (.ok false, offset, outgoing)
      | .failed errno =>
        if errno = .eagain then (.ok false, offset, outgoing) else (.error errno, offset, outgoing)
      | .moved n =>
        let chunk := (client.pending offset).take n
        if chunk.length = 0 then (.error .epipe, offset, outgoing)
        else writeSome client rest (offset + chunk.length) (outgoing ++ chunk)

/-- `bloomd_client_drive_write` -/
def driveWrite (client : Client) (socket : Socket) (daemon : Daemon) (transfers : List Transfer) :
    Except Errno Bool × Client × Socket × Daemon :=
  let (code, writeOffset, outgoing) := writeSome client transfers client.writeOffset socket.outgoing
  let socket := { socket with outgoing }
  match code with
  | .error errno => (.error errno, { client with writeOffset }, socket, daemon)
  | .ok false => (.ok false, { client with writeOffset }, socket, daemon)
  | .ok true => (.ok true, client.resetRequest, socket,
      { daemon with stats := { daemon.stats with responses := daemon.stats.responses + 1 } })

/-- A client whose transfer failed is closed. -/
def closeFailed : Except Errno Bool × Client × Socket × Daemon → Client × Socket × Daemon
  | (.error _, _, socket, daemon) => (.closed, socket, daemon)
  | (.ok _, client, socket, daemon) => (client, socket, daemon)

/-- What the main loop does with a client whose socket is ready. A read that
returns a positive code would be followed by a write. -/
def pollClient [Libm] (client : Client) (socket : Socket) (daemon : Daemon) (transfers : List Transfer) :
    Sys (Client × Socket × Daemon) :=
  match client.state with
  | .empty => pure (client, socket, daemon)
  | .writeResponse => pure (closeFailed (driveWrite client socket daemon transfers))
  | _ => do
    let (code, client, socket, daemon) ← driveRead client socket daemon transfers
    if code = .ok true ∧ client.state = .writeResponse then
      pure (closeFailed (driveWrite client socket daemon transfers))
    else pure (closeFailed (code, client, socket, daemon))

end Bloomd
