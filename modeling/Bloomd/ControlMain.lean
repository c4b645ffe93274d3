import Bloomd.ControlAccess
import Bloomd.CreateNumerals
import Bloomd.Transport

/-! `main` of `bloomctl.c`: from the arguments to a request, and from the answer to the
exit code. The texts that a builder prints before it fails are left out. -/

namespace Bloomd

open CrashLogic

/-- `enum bloomd_opcode` on the wire -/
def Opcode.code : Opcode → UInt8
  | .ping => 1
  | .create => 2
  | .add => 3
  | .check => 4
  | .madd => 5
  | .mcheck => 6
  | .info => 7
  | .list => 8
  | .drop => 9
  | .stats => 10

/-- How a run of `bloomctl` ends. An answer that was read gives `none` if decoding it
left the body. -/
inductive Ending where
  | version
  | usage (text : String)
  | unknownCommand (cmd : Bytes)
  | unbuilt (errno : Errno)
  | unconnected (errno : Errno)
  | failed (errno : Errno)
  | answered (result : Option (Except Complaint Printed))
  deriving DecidableEq, Repr

/-- The exit code; there is none where the client read outside a body. -/
def Ending.code : Ending → Option Nat
  | .version => some 0
  | .usage _ | .unknownCommand _ | .unbuilt _ => some 2
  | .unconnected _ | .failed _ => some 1
  | .answered result => result.map exitCode

namespace Control

/-- A body that could not be built ends the client with exit code 2. -/
def built (opcode : Opcode) : Except Errno Bytes → Except Ending (Opcode × Bytes)
  | .ok body => .ok (opcode, body)
  | .error errno => .error (.unbuilt errno)

/-- The request of a command; `arguments` are those that follow it. -/
def request [Strto] (cmd : Bytes) (arguments : List Bytes) : Except Ending (Opcode × Bytes) :=
  if cmd = bytes "ping" then .ok (.ping, [])
  else if cmd = bytes "create" then
    match arguments with
    | name :: capacity :: errorRate :: more => built .create (commandCreateArgs name capacity errorRate more.head?)
    | _ => .error (.usage "bloomctl create NAME CAPACITY ERROR_RATE [HASHES]")
  else if cmd = bytes "add" then
    match arguments with
    | [name, payload] => built .add (buildPayloadRequest name payload)
    | _ => .error (.usage "bloomctl add NAME PAYLOAD")
  else if cmd = bytes "check" then
    match arguments with
    | [name, payload] => built .check (buildPayloadRequest name payload)
    | _ => .error (.usage "bloomctl check NAME PAYLOAD")
  else if cmd = bytes "madd" then
    match arguments with
    | name :: item :: items => built .madd (commandBatch name (item :: items))
    | _ => .error (.usage "bloomctl madd NAME PAYLOAD...")
  else if cmd = bytes "mcheck" then
    match arguments with
    | name :: item :: items => built .mcheck (commandBatch name (item :: items))
    | _ => .error (.usage "bloomctl mcheck NAME PAYLOAD...")
  else if cmd = bytes "info" then
    match arguments with
    | [name] => built .info (buildNameRequest name)
    | _ => .error (.usage "bloomctl info NAME")
  else if cmd = bytes "list" then .ok (.list, [])
  else if cmd = bytes "drop" then
    match arguments with
    | [name] => built .drop (buildNameRequest name)
    | _ => .error (.usage "bloomctl drop NAME")
  else if cmd = bytes "stats" then .ok (.stats, [])
  else .error (.unknownCommand cmd)

/-- The socket path, `BLOOMD_DEFAULT_SOCKET` without `-s`, and the arguments after it -/
def socketArguments : List Bytes → Bytes × List Bytes
  | dash :: path :: rest =>
    if dash = bytes "-s" then (path, rest) else (bytes "/run/bloomd.sock", dash :: path :: rest)
  | arguments => (bytes "/run/bloomd.sock", arguments)

/-- The request that `bloomctl_send_request` writes, with no flags -/
def outgoing (opcode : UInt8) (requestId : UInt32) (body : Bytes) : Response :=
  ⟨{ (Response.init opcode requestId).header with flags := 0 }, body⟩

/-- `bloomctl_send_request` -/
def sendRequest (opcode : UInt8) (requestId : UInt32) (body : Bytes) :
    Prog Wire Transfer (Except Errno (FrameHeader × Bytes)) := do
  match ← Transport.writeResponse (outgoing opcode requestId body) with
  | .error errno => pure (.error errno)
  | .ok () => Transport.readFrame

/-- What the client makes of the frame that it read -/
def answered (opcode : Opcode) (header : FrameHeader) (body : Bytes) : Ending :=
  if sized : body.length = header.bodyLen.toNat then .answered (receive ⟨header, body, sized⟩ opcode)
  else .answered none

/-- `main`; `connect` stands for `bloomctl_connect`, and the arguments are those after the
program's name. -/
def main [Strto] (connect : Bytes → Except Errno Unit) (arguments : List Bytes) : Prog Wire Transfer Ending :=
  match socketArguments arguments with
  | (_, []) => pure (.usage "bloomctl [-s SOCKET] COMMAND ...")
  | (socketPath, cmd :: rest) =>
    if cmd = bytes "--version" then pure .version
    else
      match request cmd rest with
      | .error ending => pure ending
      | .ok (opcode, body) =>
        match connect socketPath with
        | .error errno => pure (.unconnected errno)
        | .ok () => do
          match ← sendRequest opcode.code 1 body with
          | .error errno => pure (.failed errno)
          | .ok (header, body) => pure (answered opcode header body)

end Control

end Bloomd
