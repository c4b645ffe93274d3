import Bloomd.Dispatch

/-! `bloomctl.c`: the bodies that the client builds, and what it reads out of the
bodies it receives. Texts are byte strings; numbers stand as the client has parsed
them from its arguments. -/

namespace Bloomd

/-- An append whose failure ends the command -/
def append (body data : Bytes) : Except Errno Bytes :=
  match bufferAppend body data with
  | (.error errno, _) => .error errno
  | (.ok (), body) => .ok body

/-- `bloomctl_append_name` -/
def appendName (body name : Bytes) : Except Errno Bytes :=
  if !nameIsValid name then .error .einval
  else if 2 ^ 16 ≤ name.length then .error .einval
  else append body name

/-- `bloomctl_build_name_request` -/
def buildNameRequest (name : Bytes) : Except Errno Bytes := do
  let body ← append [] (storeU16 name.length ++ storeU16 0 ++ storeU32 0)
  appendName body name

/-- `bloomctl_build_payload_request` -/
def buildPayloadRequest (name payload : Bytes) : Except Errno Bytes :=
  if 2 ^ 32 ≤ payload.length then .error .einval
  else do
    let body ← append [] (storeU16 name.length ++ storeU16 0 ++ storeU32 payload.length)
    let body ← appendName body name
    append body payload

/-- `bloomctl_command_create` -/
def commandCreate (request : CreateRequest) : Except Errno Bytes := do
  let body ← append [] (storeU64 request.capacity ++ storeDouble request.errorRate ++
    storeU32 request.hashes ++ storeU16 request.name.length ++ storeU16 0)
  appendName body request.name

/-- The item loop of `bloomctl_command_batch` -/
def appendItems : List Bytes → Bytes → Except Errno Bytes
  | [], body => .ok body
  | item :: rest, body => do
    let body ← append body (storeU32 item.length)
    let body ← append body item
    appendItems rest body

/-- `bloomctl_command_batch` -/
def commandBatch (name : Bytes) (items : List Bytes) : Except Errno Bytes :=
  if items.length = 0 ∨ maxBatchItems < items.length then .error .einval
  else do
    let body ← append [] (storeU16 name.length ++ storeU16 items.length ++ storeU32 0)
    let body ← appendName body name
    appendItems items body

/-- `bloomctl_print_error`: the code and the message, `none` for a malformed body -/
def decodeError (body : Bytes) : Option (Nat × Bytes) :=
  if body.length < 8 then none
  else if body.length < 8 + loadU32 (body.drop 4) then none
  else some (loadU32 body, (body.drop 8).take (loadU32 (body.drop 4)))

/-- The answer to a MADD or MCHECK -/
def decodeBatch (body : Bytes) : Option Bytes :=
  if body.length < 2 then none
  else if body.length ≠ 2 + loadU16 body then none
  else some (body.drop 2)

/-- What `bloomctl info` prints -/
structure InfoReply where
  name : Bytes
  backend : Bytes
  digest : Bytes
  capacity : Nat
  errorRate : UInt64
  hashes : Nat
  valueSize : Nat
  pinPath : Bytes
  addCalls : Nat
  checkCalls : Nat
  batchAddCalls : Nat
  batchCheckCalls : Nat
  stateFlags : Nat
  deriving DecidableEq, Repr

/-- The answer to an INFO, with the offsets that the client uses -/
def decodeInfo (body : Bytes) : Option InfoReply :=
  if body.length < 72 then none
  else
    let nameLen := loadU16 body
    let backendLen := loadU16 (body.drop 2)
    let digestLen := loadU16 (body.drop 4)
    let pinLen := loadU32 (body.drop 64)
    if 72 + nameLen + backendLen + digestLen + pinLen ≠ body.length then none
    else some {
      name := (body.drop 72).take nameLen
      backend := (body.drop (72 + nameLen)).take backendLen
      digest := (body.drop (72 + nameLen + backendLen)).take digestLen
      capacity := loadU64 (body.drop 8)
      errorRate := loadDouble (body.drop 16)
      hashes := loadU32 (body.drop 24)
      valueSize := loadU32 (body.drop 28)
      pinPath := (body.drop (72 + nameLen + backendLen + digestLen)).take pinLen
      addCalls := loadU64 (body.drop 32)
      checkCalls := loadU64 (body.drop 40)
      batchAddCalls := loadU64 (body.drop 48)
      batchCheckCalls := loadU64 (body.drop 56)
      stateFlags := loadU32 (body.drop 68) }

/-- The loop over the entries of a LIST answer: the names and the final offset -/
def decodeNames (body : Bytes) : (count off : Nat) → Option (List Bytes × Nat)
  | 0, off => some ([], off)
  | count + 1, off =>
    if body.length < off + 2 then none
    else
      let len := loadU16 (body.drop off)
      if body.length < off + 2 + len then none
      else
        match decodeNames body count (off + 2 + len) with
        | none => none
        | some (names, last) => some ((body.drop (off + 2)).take len :: names, last)

/-- The answer to a LIST -/
def decodeList (body : Bytes) : Option (List Bytes) :=
  if body.length < 4 then none
  else
    match decodeNames body (loadU32 body) 4 with
    | none => none
    | some (names, off) => if off ≠ body.length then none else some names

/-- What `bloomctl stats` prints -/
structure StatsReply where
  requests : Nat
  responses : Nat
  errors : Nat
  acceptedConnections : Nat
  filtersLoaded : Nat
  filtersCreated : Nat
  filtersDropped : Nat
  orphanMeta : Nat
  orphanPin : Nat
  filterCount : Nat
  metadataOnlyFilters : Nat
  durableFilters : Nat
  emptyPoolHits : Nat
  emptyPoolMisses : Nat
  deriving DecidableEq, Repr

/-- The answer to a STATS, with the offsets that the client uses -/
def decodeStats (body : Bytes) : Option StatsReply :=
  if body.length ≠ 100 then none
  else some {
    requests := loadU64 body
    responses := loadU64 (body.drop 8)
    errors := loadU64 (body.drop 16)
    acceptedConnections := loadU64 (body.drop 24)
    filtersLoaded := loadU64 (body.drop 32)
    filtersCreated := loadU64 (body.drop 40)
    filtersDropped := loadU64 (body.drop 48)
    orphanMeta := loadU64 (body.drop 56)
    orphanPin := loadU64 (body.drop 64)
    filterCount := loadU32 (body.drop 72)
    metadataOnlyFilters := loadU32 (body.drop 76)
    durableFilters := loadU32 (body.drop 80)
    emptyPoolHits := loadU64 (body.drop 84)
    emptyPoolMisses := loadU64 (body.drop 92) }

end Bloomd
