import Bloomd.Protocol
import Bloomd.Requests

/-! The request handlers of `daemon.c` over the bytes of a body, and
`bloomd_dispatch`. -/

namespace Bloomd

open CrashLogic

/-- How a handler ends: an error response, or a success body appended to what
the reset left of the response. -/
def Response.send (response : Response) : Reply → Except Errno Unit × Response
  | .ok body =>
    let (result, body) := bufferAppend response.body body
    (result, { response with body })
  | .error status code message => response.error status code (bytes message)

/-- `bloomd_handle_ping` -/
def handlePing (response : Response) : Except Errno Unit × Response := response.send (.ok (bytes "PONG"))

def badRequest (message : String) : Reply := .error .badRequest .parse message

/-- The body of a CREATE: `struct bloomd_create_request` and the name -/
def parseCreate (body : Bytes) : Except Reply CreateRequest :=
  if body.length < 24 then .error (badRequest "short CREATE body")
  else if 24 + loadU16 (body.drop 20) ≠ body.length then .error (badRequest "malformed CREATE body")
  else if loadU16 (body.drop 22) ≠ 0 then .error (badRequest "CREATE reserved field must be zero")
  else if !nameIsValid ((body.drop 24).take (loadU16 (body.drop 20))) then
    .error (.error .name .parse "invalid name")
  else .ok {
    name := (body.drop 24).take (loadU16 (body.drop 20))
    capacity := loadU64 body
    errorRate := loadDouble (body.drop 8)
    hashes := loadU32 (body.drop 16) }

/-- The body of an INFO or DROP: `struct bloomd_name_request` and the name. The
messages begin with the name of the operation. -/
def parseNameRequest (operation : String) (body : Bytes) : Except Reply Bytes :=
  if body.length < 8 then .error (badRequest ("short " ++ operation ++ " body"))
  else if 8 + loadU16 body ≠ body.length then .error (badRequest ("malformed " ++ operation ++ " body"))
  else if loadU16 (body.drop 2) ≠ 0 ∨ loadU32 (body.drop 4) ≠ 0 then
    .error (badRequest (operation ++ " reserved fields must be zero"))
  else if !nameIsValid ((body.drop 8).take (loadU16 body)) then .error (.error .name .parse "invalid name")
  else .ok ((body.drop 8).take (loadU16 body))

/-- `bloomd_parse_name_payload`: the name and the payload -/
def parseNamePayload (body : Bytes) : Except Errno (Bytes × Bytes) :=
  if body.length < 8 then .error .einval
  else if 8 + loadU16 body + loadU32 (body.drop 4) ≠ body.length then .error .einval
  else if loadU16 (body.drop 2) ≠ 0 then .error .einval
  else if !nameIsValid ((body.drop 8).take (loadU16 body)) then .error .einval
  else .ok ((body.drop 8).take (loadU16 body), body.drop (8 + loadU16 body))

/-- What `bloomd_parse_batch` yields; the items are not parsed yet. -/
structure BatchRequest where
  name : Bytes
  itemCount : Nat
  items : Bytes
  deriving DecidableEq, Repr

/-- `bloomd_parse_batch` -/
def parseBatch (body : Bytes) : Except Errno BatchRequest :=
  if body.length < 8 then .error .einval
  else if loadU16 (body.drop 2) = 0 then .error .einval
  else if maxBatchItems < loadU16 (body.drop 2) then .error .e2big
  else if loadU32 (body.drop 4) ≠ 0 then .error .einval
  else if body.length < 8 + loadU16 body then .error .einval
  else if !nameIsValid ((body.drop 8).take (loadU16 body)) then .error .einval
  else .ok ⟨(body.drop 8).take (loadU16 body), loadU16 (body.drop 2), body.drop (8 + loadU16 body)⟩

/-- The first pass of a MADD over its items: how far `count` payloads reach -/
def scanItems (items : Bytes) : (count scan : Nat) → Except Errno Nat
  | 0, scan => .ok scan
  | count + 1, scan =>
    match readPayload (items.drop scan) with
    | .error errno => .error errno
    | .ok (_, consumed) => scanItems items count (scan + consumed)

/-- The payloads that `count` reads from an offset meet, and where they end -/
def readItems (items : Bytes) : (count off : Nat) → Except Errno (List Bytes × Nat)
  | 0, off => .ok ([], off)
  | count + 1, off =>
    match readPayload (items.drop off) with
    | .error errno => .error errno
    | .ok (payload, consumed) =>
      match readItems items count (off + consumed) with
      | .error errno => .error errno
      | .ok (payloads, last) => .ok (payload :: payloads, last)

/-- What a MADD does before its item loop: the scan, and only then the filter -/
def prepareBatch (filter : Filter) (batch : BatchRequest) (isAdd : Bool) (mode : LogSyncMode) :
    Sys (Except Reply Bool × Filter) :=
  if isAdd then
    match scanItems batch.items batch.itemCount 0 with
    | .error _ => pure (.error (badRequest "malformed batch payload"), filter)
    | .ok scan =>
      if scan ≠ batch.items.length then
        pure (.error (badRequest "batch body has trailing bytes"), filter)
      else prepareAdd filter mode
  else pure (.ok false, filter)

/-- The work on one item of a batch; the value is `present`. -/
def batchItem (mode : LogSyncMode) (isAdd marked anyAdded : Bool) (payload : Bytes) (filter : Filter) :
    Sys (Except Reply Bool × Filter) :=
  if isAdd then do
    let (added, filter) ← addStaged filter (digestPayload payload) mode (marked && !anyAdded)
    match added with
    | .error reply => pure (.error reply, filter)
    | .ok () => pure (.ok true, filter)
  else do
    match ← bpfCheckDigest filter.mapFd (digestPayload payload) with
    | .error failure => pure (.error (.error .bpf .none failure.message), filter)
    | .ok present => pure (.ok present, filter)

/-- The item loop of `bloomd_handle_batch`: the final offset and the results -/
def batchItems (mode : LogSyncMode) (isAdd marked : Bool) (items : Bytes) :
    (count off : Nat) → (anyAdded : Bool) → Filter → Sys (Except Reply (Nat × Bytes) × Filter)
  | 0, off, _, filter => pure (.ok (off, []), filter)
  | count + 1, off, anyAdded, filter =>
    match readPayload (items.drop off) with
    | .error _ => pure (.error (badRequest "malformed batch payload"), filter)
    | .ok (payload, consumed) => do
      let (item, filter) ← batchItem mode isAdd marked anyAdded payload filter
      match item with
      | .error reply => pure (.error reply, filter)
      | .ok present => do
        let (later, filter) ←
          batchItems mode isAdd marked items count (off + consumed) (isAdd || anyAdded) filter
        match later with
        | .error reply => pure (.error reply, filter)
        | .ok (off, results) => pure (.ok (off, (if present then 1 else 0) :: results), filter)

/-- `bloomd_handle_batch` on the filter it found -/
def handleItems (filter : Filter) (batch : BatchRequest) (isAdd : Bool) (mode : LogSyncMode) :
    Sys (Reply × Filter) := do
  let (prepared, filter) ← prepareBatch filter batch isAdd mode
  match prepared with
  | .error reply => pure (reply, filter)
  | .ok marked => do
    let (done, filter) ← batchItems mode isAdd marked batch.items batch.itemCount 0 false filter
    match done with
    | .error reply => pure (reply, filter)
    | .ok (off, results) =>
      if off ≠ batch.items.length then pure (badRequest "batch body has trailing bytes", filter)
      else if isAdd then
        pure (.ok (countBytes results), { filter with batchAddCalls := filter.batchAddCalls + 1 })
      else pure (.ok (countBytes results), { filter with batchCheckCalls := filter.batchCheckCalls + 1 })

/-- `bloomd_handle_batch` -/
def handleBatchBody (daemon : Daemon) (body : Bytes) (isAdd : Bool) : Sys (Reply × Daemon) :=
  match parseBatch body with
  | .error errno =>
    if errno = .e2big then
      pure (.error .tooLarge .range "batch item count exceeds protocol limit", daemon)
    else pure (badRequest "malformed batch body", daemon)
  | .ok batch => withFilter daemon batch.name fun filter =>
      handleItems filter batch isAdd daemon.config.logSyncMode

/-- `bloomd_handle_create` -/
def handleCreateBody [Libm] (daemon : Daemon) (body : Bytes) : Sys (Reply × Daemon) :=
  match parseCreate body with
  | .error reply => pure (reply, daemon)
  | .ok request => handleCreate daemon request

/-- `bloomd_handle_add_check` -/
def handleAddCheckBody (daemon : Daemon) (body : Bytes) (isAdd : Bool) : Sys (Reply × Daemon) :=
  match parseNamePayload body with
  | .error _ => pure (badRequest "malformed body", daemon)
  | .ok (name, payload) => handleAddCheck daemon name payload isAdd

/-- `bloomd_handle_drop` -/
def handleDropBody (daemon : Daemon) (body : Bytes) : Sys (Reply × Daemon) :=
  match parseNameRequest "DROP" body with
  | .error reply => pure (reply, daemon)
  | .ok name => handleDrop daemon name

/-- The state flags that INFO reports -/
def stateFlags (metadata : FilterMeta) : Nat :=
  let kind := if metadata.hasData then 0x01 else 0x02
  if metadata.logClean then kind ||| 0x04
  else if metadata.hasData then kind ||| 0x08
  else kind

/-- The appends of `bloomd_handle_info`, in order -/
def infoPieces (filter : Filter) : List Bytes :=
  [storeU16 filter.name.length, storeU16 filter.metadata.backend.length,
    storeU16 filter.metadata.digest.length, storeU16 0,
    storeU64 filter.metadata.capacity, storeDouble filter.metadata.errorRate,
    storeU32 filter.metadata.hashes, storeU32 filter.metadata.valueSize,
    storeU64 filter.addCalls, storeU64 filter.checkCalls,
    storeU64 filter.batchAddCalls, storeU64 filter.batchCheckCalls,
    storeU32 filter.metadata.pinPath.length, storeU32 (stateFlags filter.metadata),
    filter.name, filter.metadata.backend, filter.metadata.digest, filter.metadata.pinPath]

/-- `bloomd_handle_info` -/
def handleInfo (daemon : Daemon) (body : Bytes) (response : Response) :
    Except Errno Unit × Response × Daemon :=
  match parseNameRequest "INFO" body with
  | .error reply =>
    let (result, response) := response.send reply
    (result, response, daemon)
  | .ok name =>
    let (found, set) := daemon.set.findN name
    let daemon := { daemon with set }
    match found.bind fun index => set.items[index]? with
    | none =>
      let (result, response) := response.error .notFound .none (bytes "filter not found")
      (result, response, daemon)
    | some filter =>
      let (result, body) := bufferAppendEach (infoPieces filter) response.body
      (result, { response with body }, daemon)

/-- The loop of `bloomd_handle_list` -/
def appendNames : List Filter → Bytes → Except Errno Unit × Bytes
  | [], buf => (.ok (), buf)
  | filter :: rest, buf =>
    match bufferAppendU16 buf filter.name.length with
    | (.error errno, buf) => (.error errno, buf)
    | (.ok (), buf) =>
      match bufferAppend buf filter.name with
      | (.error errno, buf) => (.error errno, buf)
      | (.ok (), buf) => appendNames rest buf

/-- `bloomd_handle_list` -/
def handleList (set : FilterSet) (response : Response) : Except Errno Unit × Response :=
  match bufferAppendU32 response.body set.items.length with
  | (.error errno, body) => (.error errno, { response with body })
  | (.ok (), body) =>
    let (result, body) := appendNames set.items body
    (result, { response with body })

/-- `bloomd_count_filter_states`: filters without data, clean ones, dirty ones -/
def countFilterStates : List Filter → Nat × Nat × Nat
  | [] => (0, 0, 0)
  | filter :: rest =>
    let (metadataOnly, durableClean, durableDirty) := countFilterStates rest
    if !filter.metadata.hasData then (metadataOnly + 1, durableClean, durableDirty)
    else if filter.metadata.logClean then (metadataOnly, durableClean + 1, durableDirty)
    else (metadataOnly, durableClean, durableDirty + 1)

/-- The appends of `bloomd_handle_stats`, in order -/
def statsPieces (set : FilterSet) (stats : Stats) : List Bytes :=
  let (metadataOnly, durableClean, durableDirty) := countFilterStates set.items
  [storeU64 stats.requests, storeU64 stats.responses, storeU64 stats.errors,
    storeU64 stats.acceptedConnections, storeU64 stats.filtersLoaded, storeU64 stats.filtersCreated,
    storeU64 stats.filtersDropped, storeU64 stats.orphanMeta, storeU64 stats.orphanPin,
    storeU32 set.items.length, storeU32 metadataOnly, storeU32 (durableClean + durableDirty),
    storeU64 stats.emptyPoolHits, storeU64 stats.emptyPoolMisses]

/-- `bloomd_handle_stats` -/
def handleStats (daemon : Daemon) (response : Response) : Except Errno Unit × Response :=
  let (result, body) := bufferAppendEach (statsPieces daemon.set daemon.stats) response.body
  (result, { response with body })

/-- Send what a handler decided. -/
def sending (response : Response) (work : Sys (Reply × Daemon)) :
    Sys (Except Errno Unit × Response × Daemon) := do
  let (reply, daemon) ← work
  pure ((response.send reply).1, (response.send reply).2, daemon)

/-- The three requests without a body -/
def withoutBody (operation : String) (daemon : Daemon) (body : Bytes) (response : Response)
    (work : Response → Except Errno Unit × Response) : Except Errno Unit × Response × Daemon :=
  let (result, response) :=
    if body.length ≠ 0 then response.send (badRequest (operation ++ " body must be empty"))
    else work response
  (result, response, daemon)

/-- The switch of `bloomd_dispatch` -/
def serve [Libm] (daemon : Daemon) (request : RequestView) (response : Response) :
    Sys (Except Errno Unit × Response × Daemon) :=
  match request.header.opcode.toNat with
  | 1 => pure (withoutBody "PING" daemon request.body response handlePing)
  | 2 => sending response (handleCreateBody daemon request.body)
  | 3 => sending response (handleAddCheckBody daemon request.body true)
  | 4 => sending response (handleAddCheckBody daemon request.body false)
  | 5 => sending response (handleBatchBody daemon request.body true)
  | 6 => sending response (handleBatchBody daemon request.body false)
  | 7 => pure (handleInfo daemon request.body response)
  | 8 => pure (withoutBody "LIST" daemon request.body response (handleList daemon.set))
  | 9 => sending response (handleDropBody daemon request.body)
  | 10 => pure (withoutBody "STATS" daemon request.body response (handleStats daemon))
  | _ => sending response (pure (badRequest "unknown opcode", daemon))

/-- The end of `bloomd_dispatch`: a handler that failed while it built a success
body leaves an error instead. -/
def settle (served : Except Errno Unit × Response × Daemon) : Except Errno Unit × Response × Daemon :=
  match served with
  | (.error _, response, daemon) =>
    if response.header.status = Status.ok.code then
      let (result, response) := response.error .internal .none (bytes "internal buffer failure")
      (result, response, daemon)
    else (.ok (), response, daemon)
  | (.ok (), response, daemon) => (.ok (), response, daemon)

/-- `bloomd_dispatch` -/
def dispatch [Libm] (daemon : Daemon) (request : RequestView) (response : Response) :
    Sys (Except Errno Unit × Response × Daemon) := do
  let served ← serve daemon request response
  pure (settle served)

end Bloomd
