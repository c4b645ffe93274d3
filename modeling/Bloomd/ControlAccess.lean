import Bloomd.Access
import Bloomd.Control

/-! What `bloomctl.c` does with a response, with every access to the body checked and
with every sum of lengths in the width that the code gives it. The texts around the
printed values are left out. -/

namespace Bloomd

open Framing

/-- `enum bloomd_opcode` -/
inductive Opcode where
  | ping | create | add | check | madd | mcheck | info | list | drop | stats
  deriving DecidableEq, Repr

/-- What the client prints to the standard error when it exits with 1 -/
inductive Complaint where
  | malformedError
  | server (status : UInt8) (code : Nat) (message : Bytes)
  | malformedLength (what : String) (length : Nat)
  | truncatedEntryHeader
  | truncatedEntryBody
  | trailingBytes
  deriving DecidableEq, Repr

/-- What the client prints when it exits with 0 -/
inductive Printed where
  | text (line : Bytes)
  | values (results : Bytes)
  | info (reply : InfoReply)
  | names (names : List Bytes)
  | stats (reply : StatsReply)
  | nothing
  deriving DecidableEq, Repr

/-- The exit code of the client -/
def exitCode : Except Complaint Printed → Nat
  | .ok _ => 0
  | .error _ => 1

section Reads

variable (view : RequestView)

/-- `bloomd_load_u16` at an offset of the body -/
def loadU16At (place : Nat) : Option Nat := do
  let raw ← fetch view.byte place 2
  some (loadU16 raw)

/-- `bloomd_load_u32` at an offset of the body -/
def loadU32At (place : Nat) : Option Nat := do
  let raw ← fetch view.byte place 4
  some (loadU32 raw)

/-- `bloomd_load_u64` at an offset of the body -/
def loadU64At (place : Nat) : Option Nat := do
  let raw ← fetch view.byte place 8
  some (loadU64 raw)

/-- `bloomd_load_double` at an offset of the body -/
def loadDoubleAt (place : Nat) : Option UInt64 := do
  let raw ← fetch view.byte place 8
  some (loadDouble raw)

/-- The bytes of a text up to a NUL or to a number of them -/
def printLoop : (left place : Nat) → Option Bytes
  | 0, _ => some []
  | left + 1, place => do
    let ch ← view.byte place
    if ch = 0 then some []
    else do
      let rest ← printLoop left (place + 1)
      some (ch :: rest)

/-- `%.*s` of `printf`. The precision is an `int`, and a negative one is none at all:
then only a NUL ends the text. -/
def printText (place precision : Nat) : Option Bytes :=
  if precision < 2 ^ 31 then printLoop view precision place else printLoop view (view.body.length + 1) place

/-- `bloomctl_print_error` -/
def printError : Option Complaint :=
  if view.header.bodyLen.toNat < 8 then some .malformedError
  else do
    let code ← loadU32At view 0
    let msgLen ← loadU32At view 4
    let total ← addWide 64 8 msgLen
    if view.header.bodyLen.toNat < total then some .malformedError
    else do
      let message ← printText view 8 msgLen
      some (.server view.header.status code message)

/-- The test of `bloomctl_expect_body_len`, and what follows when it passes -/
def expectBodyLen (expected : Nat) (what : String) (next : Option (Except Complaint Printed)) :
    Option (Except Complaint Printed) :=
  if view.header.bodyLen.toNat ≠ expected then
    some (.error (.malformedLength what view.header.bodyLen.toNat))
  else next

/-- The loop over the results of a batch; `left` is `count - i`, and `i` is a `uint16_t`. -/
def printResults (vals : Nat) : (left index : Nat) → Option Bytes
  | 0, _ => some []
  | left + 1, index => do
    let result ← view.byte (vals + index)
    let next ← addWide 16 index 1
    let rest ← printResults vals left next
    some (result :: rest)

/-- The answer to a MADD or MCHECK -/
def receiveBatch : Option (Except Complaint Printed) :=
  if view.header.bodyLen.toNat < 2 then some (.error (.malformedLength "batch" view.header.bodyLen.toNat))
  else do
    let count ← loadU16At view 0
    let total ← addWide 32 2 count
    if view.header.bodyLen.toNat ≠ total then some (.error (.malformedLength "batch" view.header.bodyLen.toNat))
    else do
      let results ← printResults view 2 count 0
      some (.ok (.values results))

/-- The answer to an INFO -/
def receiveInfo : Option (Except Complaint Printed) :=
  if view.header.bodyLen.toNat < 72 then some (.error (.malformedLength "info" view.header.bodyLen.toNat))
  else do
    let nameLen ← loadU16At view 0
    let backendLen ← loadU16At view 2
    let digestLen ← loadU16At view 4
    let capacity ← loadU64At view 8
    let errorRate ← loadDoubleAt view 16
    let hashes ← loadU32At view 24
    let valueSize ← loadU32At view 28
    let addCalls ← loadU64At view 32
    let checkCalls ← loadU64At view 40
    let batchAddCalls ← loadU64At view 48
    let batchCheckCalls ← loadU64At view 56
    let pinLen ← loadU32At view 64
    let stateFlags ← loadU32At view 68
    let named ← addWide 64 72 nameLen
    let backed ← addWide 64 named backendLen
    let digested ← addWide 64 backed digestLen
    let total ← addWide 64 digested pinLen
    if total ≠ view.header.bodyLen.toNat then some (.error (.malformedLength "info" view.header.bodyLen.toNat))
    else do
      let name ← printText view 72 nameLen
      let backend ← printText view named backendLen
      let digest ← printText view backed digestLen
      let pinPath ← printText view digested pinLen
      some (.ok (.info { name, backend, digest, capacity, errorRate, hashes, valueSize, pinPath, addCalls, checkCalls,
                         batchAddCalls, batchCheckCalls, stateFlags }))

/-- The loop over the entries of a LIST answer; `left` is `count - i`. -/
def receiveNames : (left off : Nat) → Option (Except Complaint (List Bytes × Nat))
  | 0, off => some (.ok ([], off))
  | left + 1, off => do
    let past ← addWide 64 off 2
    if view.header.bodyLen.toNat < past then some (.error .truncatedEntryHeader)
    else do
      let len ← loadU16At view off
      let last ← addWide 64 past len
      if view.header.bodyLen.toNat < last then some (.error .truncatedEntryBody)
      else do
        let name ← printText view past len
        match ← receiveNames left last with
        | .error complaint => some (.error complaint)
        | .ok (names, off) => some (.ok (name :: names, off))

/-- The answer to a LIST -/
def receiveList : Option (Except Complaint Printed) :=
  if view.header.bodyLen.toNat < 4 then some (.error (.malformedLength "list" view.header.bodyLen.toNat))
  else do
    let count ← loadU32At view 0
    match ← receiveNames view count 4 with
    | .error complaint => some (.error complaint)
    | .ok (names, off) =>
      if off ≠ view.header.bodyLen.toNat then some (.error .trailingBytes) else some (.ok (.names names))

/-- The answer to a STATS -/
def receiveStats : Option (Except Complaint Printed) :=
  expectBodyLen view 100 "stats" do
    let requests ← loadU64At view 0
    let responses ← loadU64At view 8
    let errors ← loadU64At view 16
    let acceptedConnections ← loadU64At view 24
    let filtersLoaded ← loadU64At view 32
    let filtersCreated ← loadU64At view 40
    let filtersDropped ← loadU64At view 48
    let orphanMeta ← loadU64At view 56
    let orphanPin ← loadU64At view 64
    let filterCount ← loadU32At view 72
    let metadataOnlyFilters ← loadU32At view 76
    let durableFilters ← loadU32At view 80
    let emptyPoolHits ← loadU64At view 84
    let emptyPoolMisses ← loadU64At view 92
    some (.ok (.stats { requests, responses, errors, acceptedConnections, filtersLoaded, filtersCreated,
                        filtersDropped, orphanMeta, orphanPin, filterCount, metadataOnlyFilters, durableFilters,
                        emptyPoolHits, emptyPoolMisses }))

/-- The end of `main` in `bloomctl.c`, from the response that was read -/
def receive (opcode : Opcode) : Option (Except Complaint Printed) :=
  if view.header.status ≠ Status.ok.code then do
    let complaint ← printError view
    some (.error complaint)
  else
    match opcode with
    | .ping => do
      let line ← printText view 0 view.header.bodyLen.toNat
      some (.ok (.text line))
    | .add | .check =>
      expectBodyLen view 1 "add/check" do
        let result ← view.byte 0
        some (.ok (.values [result]))
    | .madd | .mcheck => receiveBatch view
    | .info => receiveInfo view
    | .list => receiveList view
    | .stats => receiveStats view
    | .create | .drop => some (.ok .nothing)

end Reads

end Bloomd
