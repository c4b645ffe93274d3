import Bloomd.CrashLogic.Checked
import Bloomd.Dispatch
import Bloomd.Framing.Access

/-! The request handlers of `daemon.c` once more, with every access to the request, to a
stored name and to the result vector checked, and with every sum of lengths in the width
that the code gives it. A pointer into the request is an offset from the start of its
body. -/

namespace Bloomd

open CrashLogic Framing

/-- A byte of the request -/
def RequestView.byte (view : RequestView) (index : Nat) : Option UInt8 := view.body[index]?

/-- A byte of an array for a name, which has one place more than a name may be long -/
def nameByte (stored : Bytes) (index : Nat) : Option UInt8 :=
  if index ≤ maxNameLen then (nameBuffer stored)[index]? else none

/-- `strlen` of an array for a name, with the accesses that are left -/
def nameStrlen (stored : Bytes) : (left index : Nat) → Option Nat
  | 0, _ => none
  | left + 1, index => do
    let ch ← nameByte stored index
    if ch = 0 then some index else nameStrlen stored left (index + 1)

/-- The text that `strlen` and a copy of that many bytes take from a stored name -/
def nameText (stored : Bytes) : Option Bytes := do
  let length ← nameStrlen stored (maxNameLen + 1) 0
  fetch (nameByte stored) 0 length

/-- The loop of `bloomd_name_view_is_valid`; `left` is `len - i`. -/
def nameViewLoop (view : RequestView) (src : Nat) : (left index : Nat) → Option Bool
  | 0, _ => some true
  | left + 1, index => do
    let place ← addWide 64 src index
    let ch ← view.byte place
    if nameChar ch then do
      let next ← addWide 16 index 1
      nameViewLoop view src left next
    else some false

/-- `bloomd_name_view_is_valid` -/
def nameViewIsValid (view : RequestView) (src length : Nat) : Option Bool :=
  if length = 0 ∨ maxNameLen < length then some false else nameViewLoop view src length 0

/-- `bloomd_parse_name_copy`: the bytes that `memcpy` puts into the array of the caller,
and the NUL after them -/
def parseNameCopy (view : RequestView) (src length : Nat) : Option (Except Errno Bytes) := do
  let valid ← nameViewIsValid view src length
  if !valid then some (.error .einval)
  else do
    let name ← fetch view.byte src length
    let _ ← store (List.replicate (maxNameLen + 1) (0 : UInt8)) length 0
    some (.ok name)

/-- The parser of a CREATE body -/
def checkedParseCreate (view : RequestView) : Option (Except Reply CreateRequest) :=
  if view.header.bodyLen.toNat < 24 then some (.error (badRequest "short CREATE body"))
  else do
    let header ← fetch view.byte 0 24
    let total ← addWide 64 24 (loadU16 (header.drop 20))
    if total ≠ view.header.bodyLen.toNat then some (.error (badRequest "malformed CREATE body"))
    else if loadU16 (header.drop 22) ≠ 0 then some (.error (badRequest "CREATE reserved field must be zero"))
    else do
      match ← parseNameCopy view 24 (loadU16 (header.drop 20)) with
      | .error _ => some (.error (.error .name .parse "invalid name"))
      | .ok name => some (.ok {
          name
          capacity := loadU64 header
          errorRate := loadDouble (header.drop 8)
          hashes := loadU32 (header.drop 16) })

/-- The parser of an INFO or DROP body: where the name is, and its length -/
def checkedParseNameRequest (operation : String) (view : RequestView) : Option (Except Reply (Nat × Nat)) :=
  if view.header.bodyLen.toNat < 8 then some (.error (badRequest ("short " ++ operation ++ " body")))
  else do
    let header ← fetch view.byte 0 8
    let total ← addWide 64 8 (loadU16 header)
    if total ≠ view.header.bodyLen.toNat then some (.error (badRequest ("malformed " ++ operation ++ " body")))
    else if loadU16 (header.drop 2) ≠ 0 ∨ loadU32 (header.drop 4) ≠ 0 then
      some (.error (badRequest (operation ++ " reserved fields must be zero")))
    else do
      let valid ← nameViewIsValid view 8 (loadU16 header)
      if !valid then some (.error (.error .name .parse "invalid name"))
      else some (.ok (8, loadU16 header))

/-- The pointers that `bloomd_parse_name_payload` and `bloomd_parse_batch` set: a name,
and the bytes after it -/
structure Located where
  name : Nat
  nameLen : Nat
  rest : Nat
  restLen : Nat

/-- `bloomd_parse_name_payload` -/
def checkedParseNamePayload (view : RequestView) : Option (Except Errno Located) :=
  if view.header.bodyLen.toNat < 8 then some (.error .einval)
  else do
    let header ← fetch view.byte 0 8
    let named ← addWide 64 8 (loadU16 header)
    let total ← addWide 64 named (loadU32 (header.drop 4))
    if total ≠ view.header.bodyLen.toNat then some (.error .einval)
    else if loadU16 (header.drop 2) ≠ 0 then some (.error .einval)
    else do
      let valid ← nameViewIsValid view 8 (loadU16 header)
      if !valid then some (.error .einval)
      else some (.ok ⟨8, loadU16 header, named, loadU32 (header.drop 4)⟩)

/-- `bloomd_parse_batch`: the number of items, and the pointers -/
def checkedParseBatch (view : RequestView) : Option (Except Errno (Nat × Located)) :=
  if view.header.bodyLen.toNat < 8 then some (.error .einval)
  else do
    let header ← fetch view.byte 0 8
    if loadU16 (header.drop 2) = 0 then some (.error .einval)
    else if maxBatchItems < loadU16 (header.drop 2) then some (.error .e2big)
    else if loadU32 (header.drop 4) ≠ 0 then some (.error .einval)
    else do
      let named ← addWide 64 8 (loadU16 header)
      if view.header.bodyLen.toNat < named then some (.error .einval)
      else do
        let valid ← nameViewIsValid view 8 (loadU16 header)
        if !valid then some (.error .einval)
        else do
          let unnamed ← subWide view.header.bodyLen.toNat 8
          let itemsLen ← subWide unnamed (loadU16 header)
          some (.ok (loadU16 (header.drop 2), ⟨8, loadU16 header, named, itemsLen⟩))

/-- `bloomd_protocol_read_payload`: where the payload is, its length, and the bytes used up -/
def checkedReadPayload (view : RequestView) (buf length : Nat) : Option (Except Errno (Nat × Nat × Nat)) :=
  if length < 4 then some (.error .einval)
  else do
    let raw ← fetch view.byte buf 4
    if maxFrameBody < loadU32 raw then some (.error .e2big)
    else do
      let total ← addWide 64 4 (loadU32 raw)
      if length < total then some (.error .einval)
      else do
        let payload ← addWide 64 buf 4
        some (.ok (payload, loadU32 raw, total))

/-- The word loop of `bloomd_siphash128_dual` over bytes of the request -/
def checkedAbsorbWords (view : RequestView) : (words data : Nat) → SipState × SipState →
    Option (Nat × (SipState × SipState))
  | 0, data, lanes => some (data, lanes)
  | words + 1, data, (a, b) => do
    let word ← fetch view.byte data 8
    let next ← addWide 64 data 8
    checkedAbsorbWords view words next (sipAbsorb a (load64Le word), sipAbsorb b (load64Le word))

/-- `bloomd_digest_payload` over bytes of the request -/
def checkedDigestPayload (view : RequestView) (data length : Nat) : Option Digest := do
  let (rest, a, b) ← checkedAbsorbWords view (length / 8) data
    (sipInit 0x0706050403020100 0x0f0e0d0c0b0a0908, sipInit 0x1716151413121110 0x1f1e1d1c1b1a1918)
  let tail ← fetch view.byte rest (length % 8)
  let final := tail64 tail length
  some ⟨store64Le (sipFinish (sipAbsorb a final)) ++ store64Le (sipFinish (sipAbsorb b final)), by
    simp [store64Le, digestSize]⟩

/-- The name test of the lookups: the NUL of the stored name first, then `memcmp` -/
def checkedNameMatches (stored : Bytes) (name : Nat → Option UInt8) (src length : Nat) : Option Bool := do
  let ch ← nameByte stored length
  if ch ≠ 0 then some false
  else do
    let left ← fetch (nameByte stored) 0 length
    let right ← fetch name src length
    some (left == right)

/-- The loop over the set in `bloomd_filter_set_find_n` and `bloomd_filter_set_remove_n` -/
def checkedScan (name : Nat → Option UInt8) (src length : Nat) :
    (items : List Filter) → (index : Nat) → Option (Option Nat)
  | [], _ => some none
  | filter :: rest, index => do
    let same ← checkedNameMatches filter.name name src length
    if same then some (some index) else checkedScan name src length rest (index + 1)

/-- The test of the cached index -/
def checkedCached (set : FilterSet) (name : Nat → Option UInt8) (src length : Nat) : Option Bool :=
  match set.lastIndex.bind fun last => set.items[last]? with
  | some filter => checkedNameMatches filter.name name src length
  | none => some false

/-- `bloomd_filter_set_find_n` -/
def checkedFindN (set : FilterSet) (name : Nat → Option UInt8) (src length : Nat) :
    Option (Option Nat × FilterSet) := do
  let cached ← checkedCached set name src length
  if cached then some (set.lastIndex, set)
  else do
    match ← checkedScan name src length set.items 0 with
    | some index => some (some index, { set with lastIndex := some index })
    | none => some (none, set)

/-- `bloomd_filter_set_find` -/
def checkedFind (set : FilterSet) (name : Bytes) : Option (Option Nat × FilterSet) := do
  let length ← nameStrlen name (maxNameLen + 1) 0
  checkedFindN set (nameByte name) 0 length

/-- A program with checked accesses -/
abbrev Guarded (α : Type) : Type := OptionT Sys α

/-- Look a filter up by a name in the request and work on it in place. -/
def checkedWithFilter (daemon : Daemon) (view : RequestView) (src length : Nat)
    (work : Filter → Guarded (Reply × Filter)) : Guarded (Reply × Daemon) := do
  let (found, set) ← access (checkedFindN daemon.set view.byte src length)
  let daemon := { daemon with set }
  match found with
  | none => pure (.error .notFound .none "filter not found", daemon)
  | some index =>
    match set.items[index]? with
    | none => pure (.error .notFound .none "filter not found", daemon)
    | some filter => do
      let (reply, filter) ← work filter
      pure (reply, { daemon with set := { set with items := set.items.set index filter } })

/-- `bloomd_handle_create`, after the body was parsed. The paths and the metadata are
printed from the name in the new filter. -/
def checkedCreate [Libm] (daemon : Daemon) (request : CreateRequest) : Guarded (Reply × Daemon) :=
  if request.capacity = 0 ∨ 2 ^ 32 ≤ request.capacity ∨ 15 < request.hashes ∨ !rateInRange request.errorRate then
    pure (.error .badRequest .range "invalid capacity, error_rate, or hashes", daemon)
  else do
    let (found, set) ← access (checkedFind daemon.set request.name)
    let daemon := { daemon with set }
    if found.isSome then pure (.error .exists .none "filter already exists", daemon)
    else do
      let name ← access (nameText request.name)
      match assignFilterPaths daemon.config (newFilterMeta { request with name }) with
      | .error _ => pure (.error .internal .none "failed to build filter paths", daemon)
      | .ok metadata => do
        let (taken, daemon) := takeEmptyMap daemon metadata.capacity metadata.hashes metadata.valueSize
        match taken with
        | some map => OptionT.lift (installFilter daemon (Filter.fresh metadata map))
        | none => do
          match ← OptionT.lift (bpfCreateMap metadata.capacity metadata.hashes) with
          | .error failure =>
            if failure.errno = .eperm then pure (.error .perm .bpfPrivs failure.message, daemon)
            else pure (.error .bpf .unsupportedKernel failure.message, daemon)
          | .ok map => OptionT.lift (installFilter daemon (Filter.fresh metadata map))

/-- `bloomd_handle_create` -/
def checkedCreateBody [Libm] (daemon : Daemon) (view : RequestView) : Guarded (Reply × Daemon) := do
  match ← access (checkedParseCreate view) with
  | .error reply => pure (reply, daemon)
  | .ok request => checkedCreate daemon request

/-- The filter as the metadata of an ADD or MADD prints it: the name up to its NUL. The
array stays as it is while the request is served. -/
def printedFilter (filter : Filter) : Option Filter := do
  let name ← nameText filter.name
  some { filter with metadata := { filter.metadata with name } }

/-- `bloomd_handle_add_check` -/
def checkedAddCheckBody (daemon : Daemon) (view : RequestView) (isAdd : Bool) : Guarded (Reply × Daemon) := do
  match ← access (checkedParseNamePayload view) with
  | .error _ => pure (badRequest "malformed body", daemon)
  | .ok located =>
    checkedWithFilter daemon view located.name located.nameLen fun filter => do
      let digest ← access (checkedDigestPayload view located.rest located.restLen)
      if isAdd then do
        let filter ← access (printedFilter filter)
        OptionT.lift (addDigest filter digest daemon.config.logSyncMode)
      else OptionT.lift (checkDigest filter digest)

/-- The first pass of a MADD; `left` is `item_count - i`. -/
def checkedScanItems (view : RequestView) (items itemsLen : Nat) : (left index scan : Nat) → Option (Except Errno Nat)
  | 0, _, scan => some (.ok scan)
  | left + 1, index, scan => do
    let place ← addWide 64 items scan
    let length ← subWide itemsLen scan
    match ← checkedReadPayload view place length with
    | .error errno => some (.error errno)
    | .ok (_, _, consumed) => do
      let next ← addWide 64 scan consumed
      let turn ← addWide 16 index 1
      checkedScanItems view items itemsLen left turn next

/-- What a MADD does before its item loop -/
def checkedPrepareBatch (filter : Filter) (view : RequestView) (itemCount : Nat) (located : Located) (isAdd : Bool)
    (mode : LogSyncMode) : Guarded (Except Reply Bool × Filter) :=
  if isAdd then do
    match ← access (checkedScanItems view located.rest located.restLen itemCount 0 0) with
    | .error _ => pure (.error (badRequest "malformed batch payload"), filter)
    | .ok scan =>
      if scan ≠ located.restLen then pure (.error (badRequest "batch body has trailing bytes"), filter)
      else do
        let filter ← access (printedFilter filter)
        OptionT.lift (prepareAdd filter mode)
  else pure (.ok false, filter)

/-- The work on one item of a batch -/
def checkedBatchItem (mode : LogSyncMode) (isAdd marked anyAdded : Bool) (digest : Digest) (filter : Filter) :
    Guarded (Except Reply Bool × Filter) :=
  if isAdd then do
    let (added, filter) ← OptionT.lift (addStaged filter digest mode (marked && !anyAdded))
    match added with
    | .error reply => pure (.error reply, filter)
    | .ok () => pure (.ok true, filter)
  else do
    match ← OptionT.lift (bpfCheckDigest filter.mapFd digest) with
    | .error failure => pure (.error (.error .bpf .none failure.message), filter)
    | .ok present => pure (.ok present, filter)

/-- The item loop of `bloomd_handle_batch`: the final offset and the result vector -/
def checkedBatchItems (mode : LogSyncMode) (isAdd marked : Bool) (view : RequestView) (items itemsLen : Nat) :
    (left index off : Nat) → (anyAdded : Bool) → (results : Bytes) → Filter →
    Guarded (Except Reply (Nat × Bytes) × Filter)
  | 0, _, off, _, results, filter => pure (.ok (off, results), filter)
  | left + 1, index, off, anyAdded, results, filter => do
    let place ← access (addWide 64 items off)
    let length ← access (subWide itemsLen off)
    match ← access (checkedReadPayload view place length) with
    | .error _ => pure (.error (badRequest "malformed batch payload"), filter)
    | .ok (payload, payloadLen, consumed) => do
      let digest ← access (checkedDigestPayload view payload payloadLen)
      let (item, filter) ← checkedBatchItem mode isAdd marked anyAdded digest filter
      match item with
      | .error reply => pure (.error reply, filter)
      | .ok present => do
        let results ← access (store results index (if present then 1 else 0))
        let off ← access (addWide 64 off consumed)
        let index ← access (addWide 16 index 1)
        checkedBatchItems mode isAdd marked view items itemsLen left index off (isAdd || anyAdded) results filter

/-- `bloomd_handle_batch` on the filter it found. `results` is what the vector on the
stack holds at first. -/
def checkedHandleItems (filter : Filter) (view : RequestView) (itemCount : Nat) (located : Located) (isAdd : Bool)
    (mode : LogSyncMode) (results : Bytes) : Guarded (Reply × Filter) := do
  let (prepared, filter) ← checkedPrepareBatch filter view itemCount located isAdd mode
  match prepared with
  | .error reply => pure (reply, filter)
  | .ok marked => do
    let (done, filter) ← checkedBatchItems mode isAdd marked view located.rest located.restLen itemCount 0 0
      false results filter
    match done with
    | .error reply => pure (reply, filter)
    | .ok (off, results) =>
      if off ≠ located.restLen then pure (badRequest "batch body has trailing bytes", filter)
      else do
        let sent ← access (fetch (fun index => results[index]?) 0 itemCount)
        if isAdd then pure (.ok (countBytes sent), { filter with batchAddCalls := filter.batchAddCalls + 1 })
        else pure (.ok (countBytes sent), { filter with batchCheckCalls := filter.batchCheckCalls + 1 })

/-- `bloomd_handle_batch` -/
def checkedBatchBody (daemon : Daemon) (view : RequestView) (isAdd : Bool) (results : Bytes) :
    Guarded (Reply × Daemon) := do
  match ← access (checkedParseBatch view) with
  | .error errno =>
    if errno = .e2big then pure (.error .tooLarge .range "batch item count exceeds protocol limit", daemon)
    else pure (badRequest "malformed batch body", daemon)
  | .ok (itemCount, located) =>
    checkedWithFilter daemon view located.name located.nameLen fun filter =>
      checkedHandleItems filter view itemCount located isAdd daemon.config.logSyncMode results

/-- `bloomd_filter_set_remove_n` -/
def checkedRemoveN (set : FilterSet) (view : RequestView) (src length : Nat) :
    Guarded (Except Errno Unit × FilterSet) := do
  match ← access (checkedScan view.byte src length set.items 0) with
  | none => pure (.error .enoent, set)
  | some index =>
    match set.items[index]? with
    | none => pure (.error .enoent, set)
    | some filter => do
      let _ ← OptionT.lift (logBufferFlush filter.logFd filter.logBuf false)
      let items := set.items.eraseIdx index
      pure (.ok (), { set with items, lastIndex := repairedIndex set.lastIndex index items.length })

/-- `bloomd_handle_drop` -/
def checkedDropBody (daemon : Daemon) (view : RequestView) : Guarded (Reply × Daemon) := do
  match ← access (checkedParseNameRequest "DROP" view) with
  | .error reply => pure (reply, daemon)
  | .ok (src, length) => do
    let (found, set) ← access (checkedFindN daemon.set view.byte src length)
    let daemon := { daemon with set }
    match found with
    | none => pure (.error .notFound .none "filter not found", daemon)
    | some index =>
      match set.items[index]? with
      | none => pure (.error .notFound .none "filter not found", daemon)
      | some filter => do
        match ← OptionT.lift (dropFiles filter) with
        | .error reply => pure (reply, daemon)
        | .ok () => do
          let (_, set) ← checkedRemoveN daemon.set view src length
          pure (.ok [], { daemon with
            set
            pool := if filter.metadata.hasData then daemon.pool
              else some ⟨filter.mapFd, filter.metadata.capacity, filter.metadata.hashes, filter.metadata.valueSize⟩
            stats := { daemon.stats with filtersDropped := daemon.stats.filtersDropped + 1 } })

/-- `bloomd_handle_info` -/
def checkedInfo (daemon : Daemon) (view : RequestView) (response : Response) :
    Option (Except Errno Unit × Response × Daemon) := do
  match ← checkedParseNameRequest "INFO" view with
  | .error reply =>
    let (result, response) := response.send reply
    some (result, response, daemon)
  | .ok (src, length) => do
    let (found, set) ← checkedFindN daemon.set view.byte src length
    let daemon := { daemon with set }
    match found.bind fun index => set.items[index]? with
    | none =>
      let (result, response) := response.error .notFound .none (bytes "filter not found")
      some (result, response, daemon)
    | some filter => do
      let filter ← printedFilter filter
      let (result, body) := bufferAppendEach (infoPieces filter) response.body
      some (result, { response with body }, daemon)

/-- The loop of `bloomd_handle_list` -/
def checkedAppendNames : List Filter → Bytes → Option (Except Errno Unit × Bytes)
  | [], buf => some (.ok (), buf)
  | filter :: rest, buf => do
    let name ← nameText filter.name
    match bufferAppendU16 buf name.length with
    | (.error errno, buf) => some (.error errno, buf)
    | (.ok (), buf) =>
      match bufferAppend buf name with
      | (.error errno, buf) => some (.error errno, buf)
      | (.ok (), buf) => checkedAppendNames rest buf

/-- `bloomd_handle_list` -/
def checkedList (set : FilterSet) (response : Response) : Option (Except Errno Unit × Response) :=
  match bufferAppendU32 response.body set.items.length with
  | (.error errno, body) => some (.error errno, { response with body })
  | (.ok (), body) => do
    let (result, body) ← checkedAppendNames set.items body
    some (result, { response with body })

/-- The three requests without a body -/
def checkedWithoutBody (operation : String) (daemon : Daemon) (view : RequestView) (response : Response)
    (work : Response → Option (Except Errno Unit × Response)) : Option (Except Errno Unit × Response × Daemon) := do
  let (result, response) ←
    if view.header.bodyLen.toNat ≠ 0 then some (response.send (badRequest (operation ++ " body must be empty")))
    else work response
  some (result, response, daemon)

/-- Send what a handler decided. -/
def checkedSending (response : Response) (work : Guarded (Reply × Daemon)) :
    Guarded (Except Errno Unit × Response × Daemon) := do
  let (reply, daemon) ← work
  pure ((response.send reply).1, (response.send reply).2, daemon)

/-- The switch of `bloomd_dispatch` -/
def checkedServe [Libm] (daemon : Daemon) (view : RequestView) (response : Response) (results : Bytes) :
    Guarded (Except Errno Unit × Response × Daemon) :=
  match view.header.opcode.toNat with
  | 1 => access (checkedWithoutBody "PING" daemon view response fun response => some (handlePing response))
  | 2 => checkedSending response (checkedCreateBody daemon view)
  | 3 => checkedSending response (checkedAddCheckBody daemon view true)
  | 4 => checkedSending response (checkedAddCheckBody daemon view false)
  | 5 => checkedSending response (checkedBatchBody daemon view true results)
  | 6 => checkedSending response (checkedBatchBody daemon view false results)
  | 7 => access (checkedInfo daemon view response)
  | 8 => access (checkedWithoutBody "LIST" daemon view response (checkedList daemon.set))
  | 9 => checkedSending response (checkedDropBody daemon view)
  | 10 => access (checkedWithoutBody "STATS" daemon view response fun response => some (handleStats daemon response))
  | _ => checkedSending response (pure (badRequest "unknown opcode", daemon))

/-- `bloomd_dispatch` with every access checked; `none` if one of them is out of range or
a sum wraps around. -/
def checkedDispatch [Libm] (daemon : Daemon) (view : RequestView) (response : Response) (results : Bytes) :
    Guarded (Except Errno Unit × Response × Daemon) := do
  let served ← checkedServe daemon view response results
  pure (settle served)

end Bloomd
