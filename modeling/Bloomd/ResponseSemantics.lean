import Bloomd.Control
import Bloomd.DispatchSemantics

/-! Every request is answered by one well-formed response, and a response that
turns a request away leaves everything as it was. -/

namespace Bloomd

open CrashLogic Prog Framing

section Buffers

theorem bufferAppend_fits {buf data : Bytes} (fits : buf.length + data.length ≤ maxFrameBody) :
    bufferAppend buf data = (.ok (), buf ++ data) := by
  unfold bufferAppend
  split
  · rename_i empty
    rw [List.eq_nil_of_length_eq_zero empty, List.append_nil]
  · rw [if_neg (by omega)]

/-- A buffer that was within the limit stays within it, and an append that is
not refused adds all its bytes. -/
theorem bufferAppend_bounded {buf : Bytes} (data : Bytes) (bounded : buf.length ≤ maxFrameBody) :
    (bufferAppend buf data).2.length ≤ maxFrameBody ∧
      ((bufferAppend buf data).1 = .ok () → (bufferAppend buf data).2 = buf ++ data) := by
  by_cases fits : buf.length + data.length ≤ maxFrameBody
  · rw [bufferAppend_fits fits]
    exact ⟨by simpa using fits, fun _ => rfl⟩
  · have some : data.length ≠ 0 := by omega
    simp only [bufferAppend, some, ↓reduceIte, show maxFrameBody < buf.length + data.length by omega]
    exact ⟨bounded, fun refused => by cases refused⟩

theorem bufferAppendEach_bounded (pieces : List Bytes) : ∀ buf : Bytes, buf.length ≤ maxFrameBody →
    (bufferAppendEach pieces buf).2.length ≤ maxFrameBody ∧
      ((bufferAppendEach pieces buf).1 = .ok () → (bufferAppendEach pieces buf).2 = buf ++ pieces.flatten) := by
  induction pieces with
  | nil =>
    intro buf bounded
    exact ⟨bounded, fun _ => by simp [bufferAppendEach]⟩
  | cons piece pieces ih =>
    intro buf bounded
    obtain ⟨within, added⟩ := bufferAppend_bounded piece bounded
    obtain ⟨still, later⟩ := ih _ within
    unfold bufferAppendEach
    cases first : bufferAppend buf piece with
    | mk result middle =>
      rw [first] at within added still later
      cases result with
      | error errno => exact ⟨still, fun refused => by cases refused⟩
      | ok done =>
        refine ⟨still, fun fine => ?_⟩
        have start : middle = buf ++ piece := added rfl
        have rest := later fine
        simp only at rest ⊢
        rw [rest, start, List.flatten_cons, List.append_assoc]

theorem appendNames_bounded (filters : List Filter) : ∀ buf : Bytes, buf.length ≤ maxFrameBody →
    (appendNames filters buf).2.length ≤ maxFrameBody ∧
      ((appendNames filters buf).1 = .ok () → (appendNames filters buf).2 =
        buf ++ (filters.map fun filter => storeU16 filter.name.length ++ filter.name).flatten) := by
  induction filters with
  | nil =>
    intro buf bounded
    exact ⟨bounded, fun _ => by simp [appendNames]⟩
  | cons filter rest ih =>
    intro buf bounded
    obtain ⟨within, added⟩ := bufferAppend_bounded (storeU16 filter.name.length) bounded
    unfold appendNames bufferAppendU16
    cases first : bufferAppend buf (storeU16 filter.name.length) with
    | mk result middle =>
      rw [first] at within added
      cases result with
      | error errno => exact ⟨within, fun refused => by cases refused⟩
      | ok done =>
        obtain ⟨still, named⟩ := bufferAppend_bounded filter.name within
        simp only
        cases second : bufferAppend middle filter.name with
        | mk result last =>
          rw [second] at still named
          cases result with
          | error errno => exact ⟨still, fun refused => by cases refused⟩
          | ok done =>
            obtain ⟨bounded, later⟩ := ih _ still
            refine ⟨bounded, fun fine => ?_⟩
            have start : middle = buf ++ storeU16 filter.name.length := added rfl
            have next : last = middle ++ filter.name := named rfl
            rw [later fine, next, start]
            simp

end Buffers

section Responses

/-- The response that reports an error, with nothing of an earlier body -/
def Response.failed (response : Response) (status : Status) (code : ErrorCode) (message : Bytes) : Response where
  header := { response.header with flags := 0x03, status := status.code }
  body := storeU32 code.code ++ storeU32 message.length ++ message

theorem Response.error_eq (response : Response) (status : Status) (code : ErrorCode) {message : Bytes}
    (short : message.length ≤ 255) :
    response.error status code message = (.ok (), response.failed status code message) := by
  have first : bufferAppend [] (storeU32 code.code) = (.ok (), storeU32 code.code) :=
    bufferAppend_fits (by simp [storeU32, maxFrameBody])
  have second : bufferAppend (storeU32 code.code) (storeU32 message.length) =
      (.ok (), storeU32 code.code ++ storeU32 message.length) :=
    bufferAppend_fits (by simp [storeU32, maxFrameBody])
  have third : bufferAppend (storeU32 code.code ++ storeU32 message.length) message =
      (.ok (), storeU32 code.code ++ storeU32 message.length ++ message) := by
    apply bufferAppend_fits
    simp only [storeU32, List.length_append, length_storeLe, maxFrameBody]
    omega
  simp only [Response.error, bufferAppendU32, first, second, third]
  rfl

theorem Response.reset_eq (response : Response) (opcode : UInt8) (requestId : UInt32) :
    response.reset opcode requestId = Response.init opcode requestId := rfl

theorem length_bytes (text : String) : (bytes text).length = text.length := by
  rw [bytes, List.length_map, String.length_toList]

/-- How a response can be settled: a success body, or an error report -/
inductive Response.Settled (start : Response) : Response → Prop
  | success (body : Bytes) (bounded : body.length ≤ maxFrameBody) : Settled start { start with body }
  | failure (status : Status) (code : ErrorCode) (message : Bytes) (bad : status ≠ .ok)
      (short : message.length ≤ 255) : Settled start (start.failed status code message)

/-- What a handler leaves: a settled response, or a failed append and the header
as it was reset -/
inductive WellBuilt (start : Response) : Except Errno Unit × Response × Daemon → Prop
  | whole (settled : start.Settled response) : WellBuilt start (.ok (), response, daemon)
  | broken (same : response.header = start.header) : WellBuilt start (.error errno, response, daemon)

/-- The dispatcher's end settles what a handler left half built. -/
theorem settle_settled {start : Response} (served : Except Errno Unit × Response × Daemon)
    (fresh : start.header.status = Status.ok.code) (built : WellBuilt start served) :
    (settle served).1 = .ok () ∧ start.Settled (settle served).2.1 := by
  cases built with
  | whole settled => exact ⟨rfl, settled⟩
  | @broken errno response daemon same =>
    have open' : response.header.status = Status.ok.code := by rw [same, fresh]
    have short : (bytes "internal buffer failure").length ≤ 255 := by decide
    simp only [settle, open', ↓reduceIte, Response.error_eq response .internal .none short]
    refine ⟨trivial, ?_⟩
    have whole : response.failed .internal .none (bytes "internal buffer failure") =
        start.failed .internal .none (bytes "internal buffer failure") := by
      simp only [Response.failed, same]
    rw [whole]
    exact .failure _ _ _ (by decide) short

theorem send_built {start : Response} {reply : Reply} (daemon : Daemon) (fresh : start.body = [])
    (short : reply.Short) : WellBuilt start ((start.send reply).1, (start.send reply).2, daemon) := by
  cases reply with
  | ok body =>
    have small : body.length ≤ 2 + maxBatchItems := short
    have fits : body.length ≤ maxFrameBody := by
      simp only [maxFrameBody, maxBatchItems] at small ⊢
      omega
    have appended : bufferAppend start.body body = (.ok (), body) := by
      rw [fresh]
      exact bufferAppend_fits (by simpa using fits)
    simp only [Response.send, appended]
    exact .whole (.success body fits)
  | error status code message =>
    have brief : (bytes message).length ≤ 255 := by
      rw [length_bytes]
      exact short.2
    simp only [Response.send, Response.error_eq start status code brief]
    exact .whole (.failure _ _ _ short.1 brief)

end Responses

section Serving

theorem returns_withFilter {good : Reply → Prop} (daemon : Daemon) (name : Bytes)
    {work : Filter → Sys (Reply × Filter)} (missing : good (.error .notFound .none "filter not found"))
    (works : ∀ filter, Returns (work filter) fun result => good result.1) :
    Returns (withFilter daemon name work) fun result => good result.1 := by
  unfold withFilter
  dsimp only
  split
  · exact returns_pure missing
  · split
    · exact returns_pure missing
    · apply returns_bind (works _)
      intro result held
      exact returns_pure held

theorem returns_handleCreate [Libm] (daemon : Daemon) (request : CreateRequest) :
    Returns (handleCreate daemon request) fun result => result.1.Short := by
  unfold handleCreate
  split
  · exact returns_pure ⟨by decide, by decide⟩
  · split
    · exact returns_pure ⟨by decide, by decide⟩
    · dsimp only
      split
      · exact returns_pure ⟨by decide, by decide⟩
      · split
        · exact returns_pure ⟨by decide, by decide⟩
        · split
          · exact (returns_installFilter _ _).mono fun _ served => served.short
          · apply returns_bind (returns_bpfCreateMap _ _)
            intro created brief
            split
            · split
              · exact returns_pure ⟨by decide, brief⟩
              · exact returns_pure ⟨by decide, brief⟩
            · exact (returns_installFilter _ _).mono fun _ served => served.short

theorem returns_handleCreateBody [Libm] (daemon : Daemon) (body : Bytes) :
    Returns (handleCreateBody daemon body) fun result => result.1.Short := by
  unfold handleCreateBody
  split
  · rename_i reply refused
    apply returns_pure
    unfold parseCreate at refused
    split_ifs at refused <;> cases refused <;> exact ⟨by decide, by decide⟩
  · exact returns_handleCreate daemon _

theorem short_of_parseNameRequest {operation : String} {body : Bytes} {reply : Reply}
    (known : operation = "INFO" ∨ operation = "DROP")
    (refused : parseNameRequest operation body = .error reply) : reply.Short := by
  unfold parseNameRequest at refused
  rcases known with rfl | rfl
  · split_ifs at refused <;> cases refused <;> exact ⟨by decide, by decide⟩
  · split_ifs at refused <;> cases refused <;> exact ⟨by decide, by decide⟩

theorem returns_handleDropBody (daemon : Daemon) (body : Bytes) :
    Returns (handleDropBody daemon body) fun result => result.1.Short := by
  unfold handleDropBody
  split
  · rename_i reply refused
    exact returns_pure (short_of_parseNameRequest (.inr rfl) refused)
  · unfold handleDrop
    split
    · exact returns_pure ⟨by decide, by decide⟩
    · dsimp only
      split
      · exact returns_pure ⟨by decide, by decide⟩
      · split
        · exact returns_pure ⟨by decide, by decide⟩
        · apply returns_bind (returns_dropFiles _)
          intro dropped served
          split
          · exact returns_pure (Reply.Failed.error served).1
          · exact (returns_removeDropped _ _ _).mono fun _ served => served.short

theorem returns_handleAddCheckBody (daemon : Daemon) (body : Bytes) (isAdd : Bool) :
    Returns (handleAddCheckBody daemon body isAdd) fun result => result.1.Short := by
  unfold handleAddCheckBody
  split
  · exact returns_pure ⟨by decide, by decide⟩
  · unfold handleAddCheck
    split
    · exact returns_pure ⟨by decide, by decide⟩
    · apply returns_withFilter daemon _ ⟨by decide, by decide⟩
      intro filter
      split
      · exact (returns_addDigest filter _ _).mono fun _ served => served.short
      · exact (returns_checkDigest filter _).mono fun _ served => served.short

/-- What a batch is answered with: one byte for each item after their count -/
structure BatchAnswer (body : Bytes) (reply : Reply) : Prop where
  short : reply.Short
  counted : ∀ sent, reply = .ok sent → ∃ batch results, parseBatch body = .ok batch ∧
    results.length = batch.itemCount ∧ results.length ≤ maxBatchItems ∧ sent = countBytes results

theorem returns_handleBatchBody (daemon : Daemon) (body : Bytes) (isAdd : Bool) :
    Returns (handleBatchBody daemon body isAdd) fun result => BatchAnswer body result.1 := by
  unfold handleBatchBody
  split
  · split <;> exact returns_pure ⟨⟨by decide, by decide⟩, nofun⟩
  · rename_i batch parsed
    obtain ⟨-, -, few, -, -, fields⟩ := parseBatch_ok parsed
    have few : batch.itemCount ≤ maxBatchItems := by rwa [fields]
    apply returns_withFilter daemon batch.name ⟨⟨by decide, by decide⟩, nofun⟩
    intro filter
    apply (returns_handleItems filter isAdd _ few).mono
    rintro result ⟨short, answered⟩
    refine ⟨short, fun sent same => ?_⟩
    obtain ⟨results, counted, whole⟩ := answered sent same
    exact ⟨batch, results, parsed, counted, by omega, whole⟩

theorem returns_sending {start : Response} {work : Sys (Reply × Daemon)} (fresh : start.body = [])
    (works : Returns work fun result => result.1.Short) : Returns (sending start work) (WellBuilt start) := by
  apply returns_bind works
  rintro ⟨reply, daemon⟩ short
  exact returns_pure (send_built daemon fresh short)

theorem built_of_bounded {start : Response} {outcome : Except Errno Unit × Bytes} (daemon : Daemon)
    (bounded : outcome.2.length ≤ maxFrameBody) :
    WellBuilt start (outcome.1, { start with body := outcome.2 }, daemon) := by
  obtain ⟨result, body⟩ := outcome
  cases result with
  | ok done => exact .whole (.success body bounded)
  | error errno => exact .broken rfl

/-- Pieces appended to a fresh response leave it well built. -/
theorem appended_built {start : Response} (pieces : List Bytes) (daemon : Daemon) (fresh : start.body = []) :
    WellBuilt start ((bufferAppendEach pieces start.body).1,
      { start with body := (bufferAppendEach pieces start.body).2 }, daemon) := by
  apply built_of_bounded daemon
  apply (bufferAppendEach_bounded pieces start.body _).1
  simp [fresh]

theorem handleInfo_built (daemon : Daemon) (body : Bytes) {start : Response} (fresh : start.body = []) :
    WellBuilt start (handleInfo daemon body start) := by
  unfold handleInfo
  split
  · rename_i reply refused
    exact send_built daemon fresh (short_of_parseNameRequest (.inl rfl) refused)
  · rename_i name _
    dsimp only
    split
    · rw [Response.error_eq start .notFound .none (by decide)]
      exact .whole (.failure _ _ _ (by decide) (by decide))
    · rename_i filter _
      have built := appended_built (infoPieces filter)
        { daemon with set := (daemon.set.findN name).2 } fresh
      generalize bufferAppendEach (infoPieces filter) start.body = outcome at built ⊢
      exact built

theorem withoutBody_built {operation : String} (daemon : Daemon) (body : Bytes) {start : Response}
    {work : Response → Except Errno Unit × Response} (fresh : start.body = [])
    (known : operation = "PING" ∨ operation = "LIST" ∨ operation = "STATS")
    (works : WellBuilt start ((work start).1, (work start).2, daemon)) :
    WellBuilt start (withoutBody operation daemon body start work) := by
  unfold withoutBody
  by_cases empty : body.length ≠ 0
  · simp only [empty, ne_eq, not_false_eq_true, ↓reduceIte]
    apply send_built daemon fresh
    rcases known with rfl | rfl | rfl <;> exact ⟨by decide, by decide⟩
  · simp only [empty, ↓reduceIte]
    exact works

theorem handleList_built (daemon : Daemon) {start : Response} (fresh : start.body = []) :
    WellBuilt start ((handleList daemon.set start).1, (handleList daemon.set start).2, daemon) := by
  have counted : bufferAppendU32 start.body daemon.set.items.length =
      (.ok (), storeU32 daemon.set.items.length) := by
    rw [fresh]
    exact bufferAppend_fits (by simp [storeU32, maxFrameBody])
  simp only [handleList, counted]
  apply built_of_bounded daemon
  apply (appendNames_bounded daemon.set.items (storeU32 daemon.set.items.length) _).1
  simp [storeU32, maxFrameBody]

theorem handleStats_built (daemon : Daemon) {start : Response} (fresh : start.body = []) :
    WellBuilt start ((handleStats daemon start).1, (handleStats daemon start).2, daemon) := by
  have built := appended_built (statsPieces daemon.set daemon.stats) daemon fresh
  unfold handleStats
  generalize bufferAppendEach (statsPieces daemon.set daemon.stats) start.body = outcome at built ⊢
  exact built

theorem returns_serve [Libm] (daemon : Daemon) (view : RequestView) {start : Response} (fresh : start.body = []) :
    Returns (serve daemon view start) (WellBuilt start) := by
  unfold serve
  split
  · exact returns_pure (withoutBody_built daemon _ fresh (.inl rfl)
      (send_built daemon fresh (by simp only [Reply.Short]; decide)))
  · exact returns_sending fresh (returns_handleCreateBody daemon _)
  · exact returns_sending fresh (returns_handleAddCheckBody daemon _ true)
  · exact returns_sending fresh (returns_handleAddCheckBody daemon _ false)
  · exact returns_sending fresh ((returns_handleBatchBody daemon _ true).mono fun _ answer => answer.short)
  · exact returns_sending fresh ((returns_handleBatchBody daemon _ false).mono fun _ answer => answer.short)
  · exact returns_pure (handleInfo_built daemon _ fresh)
  · exact returns_pure (withoutBody_built daemon _ fresh (.inr (.inl rfl)) (handleList_built daemon fresh))
  · exact returns_sending fresh (returns_handleDropBody daemon _)
  · exact returns_pure (withoutBody_built daemon _ fresh (.inr (.inr rfl)) (handleStats_built daemon fresh))
  · exact returns_sending fresh (returns_pure ⟨by decide, by decide⟩)

theorem returns_dispatch [Libm] (daemon : Daemon) (view : RequestView) (opcode : UInt8) (requestId : UInt32) :
    Returns (dispatch daemon view (Response.init opcode requestId)) fun settled =>
      settled.1 = .ok () ∧ (Response.init opcode requestId).Settled settled.2.1 := by
  apply returns_bind (returns_serve daemon view rfl)
  intro served built
  exact returns_pure (settle_settled served rfl built)

end Serving

section Answers

/-- What every response looks like on the wire: the echo of the request, and a
success body or exactly one error report that the client can read -/
structure Response.WellFormed (view : RequestView) (response : Response) : Prop where
  magic : response.header.magic = protocolMagic
  version : response.header.version = protocolVersion
  opcode : response.header.opcode = view.header.opcode
  requestId : response.header.requestId = view.header.requestId
  bounded : response.body.length ≤ maxFrameBody
  outcome : (response.header.status = Status.ok.code ∧ response.header.flags = 0x01) ∨
    (response.header.status ≠ Status.ok.code ∧ response.header.flags = 0x03 ∧
      ∃ (code : ErrorCode) (message : Bytes), message.length ≤ 255 ∧
        response.body = storeU32 code.code ++ storeU32 message.length ++ message ∧
        decodeError response.body = some (code.code, message))

theorem decodeError_report (code : ErrorCode) {message : Bytes} (short : message.length ≤ 255) :
    decodeError (storeU32 code.code ++ storeU32 message.length ++ message) = some (code.code, message) := by
  have small : code.code < 256 ^ 4 := by cases code <;> decide
  have size : message.length < 256 ^ 4 := by omega
  have first : loadU32 (storeU32 code.code ++ storeU32 message.length ++ message) = code.code := by
    rw [List.append_assoc]
    exact loadLe_take_storeLe _ small
  have second : (storeU32 code.code ++ storeU32 message.length ++ message).drop 4 =
      storeU32 message.length ++ message := by
    rw [List.append_assoc]
    exact drop_storeLe code.code _ (le_refl 4)
  have third : loadU32 (storeU32 message.length ++ message) = message.length := loadLe_take_storeLe _ size
  have fourth : (storeU32 code.code ++ storeU32 message.length ++ message).drop 8 = message :=
    List.drop_left' (by simp [storeU32])
  have total : (storeU32 code.code ++ storeU32 message.length ++ message).length = 8 + message.length := by
    simp only [storeU32, List.length_append, length_storeLe]
  unfold decodeError
  rw [first, second, third, fourth, total, if_neg (by omega), if_neg (by omega), List.take_length]

theorem Status.code_injective : Function.Injective Status.code := by
  intro left right same
  cases left <;> cases right <;> first | rfl | exact absurd same (by decide)

theorem wellFormed_of_settled {view : RequestView} {response : Response}
    (settled : (Response.init view.header.opcode view.header.requestId).Settled response) :
    response.WellFormed view := by
  cases settled with
  | success body bounded => exact ⟨rfl, rfl, rfl, rfl, bounded, .inl ⟨rfl, rfl⟩⟩
  | failure status code message bad short =>
    refine ⟨rfl, rfl, rfl, rfl, ?_, .inr ⟨?_, rfl, code, message, short, rfl, decodeError_report code short⟩⟩
    · simp only [Response.failed, storeU32, List.length_append, length_storeLe, maxFrameBody]
      omega
    · intro same
      exact bad (Status.code_injective same)

/-- Every request that is dispatched is answered, unless one call is interrupted
for ever, and whatever the calls answer, the response is well formed and owes
nothing to the response before it. -/
theorem dispatch_wellFormed [Libm] (daemon : Daemon) (view : RequestView) (previous : Response) (world : World) :
    (∀ supply, Recurring (· ≠ Answer.interrupted) supply → ∃ used response later after, ∀ rest,
      dispatch daemon view (previous.reset view.header.opcode view.header.requestId) world
        (supplied supply used ++ rest) = .returned (.ok (), response, later) after rest) ∧
    (∀ answers result response later after rest,
      dispatch daemon view (previous.reset view.header.opcode view.header.requestId) world answers =
        .returned (result, response, later) after rest →
      result = .ok () ∧ response.WellFormed view) ∧
    ∀ earlier : Response,
      dispatch daemon view (earlier.reset view.header.opcode view.header.requestId) =
        dispatch daemon view (previous.reset view.header.opcode view.header.requestId) := by
  have returns := returns_dispatch daemon view view.header.opcode view.header.requestId
  refine ⟨?_, ?_, fun _ => rfl⟩
  · intro supply recurs
    obtain ⟨used, ⟨result, response, later⟩, after, run⟩ := returns.run world supply recurs
    have done : result = .ok () := (returns.yields (run [])).1
    subst done
    exact ⟨used, response, later, after, run⟩
  · intro answers result response later after rest run
    obtain ⟨done, settled⟩ := returns.yields run
    exact ⟨done, wellFormed_of_settled settled⟩

/-- A daemon that holds nothing yet -/
def emptyDaemon : Daemon := ⟨⟨bytes "/p", bytes "/m", .always⟩, .init, none, .zero⟩

def pingView : RequestView := ⟨⟨protocolMagic, protocolVersion, 1, 0, 0, 7, 0⟩, [], rfl⟩

/-- A frame with a body for one of the opcodes -/
def frameOf (opcode : UInt8) (body : Bytes) (short : body.length < 2 ^ 32) : RequestView :=
  ⟨⟨protocolMagic, protocolVersion, opcode, 0, 0, 7, body.length.toUInt32⟩, body,
    (Nat.mod_eq_of_lt short).symm⟩

/-- CREATE of a small filter -/
def createView : RequestView :=
  frameOf 2 (storeU64 100 ++ storeDouble 0x3f847ae147ae147b ++ storeU32 3 ++ storeU16 1 ++ storeU16 0 ++ bytes "x")
    (by decide)

/-- Every call is interrupted, and then there is no memory. -/
def starved (count : Nat) : Answer := if count % 2 = 0 then .interrupted else .fail .enomem

/-- The map of a CREATE is refused, and the client reads so in the report. -/
theorem dispatch_wellFormed_refused :
    (∃ used response later after, ∀ rest,
      @dispatch exactLibm emptyDaemon createView ((Response.init 9 3).reset 2 7) .empty
        (supplied starved used ++ rest) = .returned (.ok (), response, later) after rest) ∧
    ∃ response later after rest,
      @dispatch exactLibm emptyDaemon createView ((Response.init 9 3).reset 2 7) .empty [.fail .eperm] =
        .returned (.ok (), response, later) after rest ∧
      (response.header.status, decodeError response.body) =
        (Status.perm.code, some (6, bytes "BPF_MAP_CREATE failed: Operation not permitted")) ∧
      response.WellFormed createView := by
  have recurs : Recurring (· ≠ Answer.interrupted) starved := by
    intro used
    refine ⟨used + 1, ?_⟩
    have odd : (used + (used + 1)) % 2 = 1 := by omega
    simp [starved, odd]
  obtain ⟨answered, shaped, -⟩ := @dispatch_wellFormed exactLibm emptyDaemon createView (.init 9 3) .empty
  have outcome : (@dispatch exactLibm emptyDaemon createView ((Response.init 9 3).reset 2 7) .empty
      [.fail .eperm]).value.map (fun result => (result.2.1.header.status, decodeError result.2.1.body)) =
        some (Status.perm.code, some (6, bytes "BPF_MAP_CREATE failed: Operation not permitted")) := by
    decide +kernel
  obtain ⟨⟨done, response, later⟩, after, rest, run, reported⟩ := Stop.returned_of_value outcome
  obtain ⟨rfl, formed⟩ := shaped _ _ _ _ _ _ run
  exact ⟨answered _ recurs, response, later, after, rest, run, reported, formed⟩

/-- The response turns the request away: BAD_REQUEST, TOO_LARGE, NAME, NOT_FOUND or
EXISTS. -/
def Response.Rejected (response : Response) : Prop :=
  response.header.status ∈ [Status.badRequest, .tooLarge, .name, .notFound, .exists].map Status.code

theorem rejected_code_iff (status : Status) :
    status.code ∈ [Status.badRequest, .tooLarge, .name, .notFound, .exists].map Status.code ↔
      status.rejects = true := by
  cases status <;> decide

theorem send_status {start : Response} (reply : Reply) (fresh : start.header.status = Status.ok.code) :
    (start.send reply).2.header.status = reply.status.code := by
  cases reply with
  | ok body => exact fresh
  | error status code message =>
    simp only [Response.send, Response.error]
    split
    · rfl
    · split <;> rfl

theorem wp_sending_aside {daemon : Daemon} {start : Response} {work : Sys (Reply × Daemon)} {world : World}
    (fresh : start.header.status = Status.ok.code)
    (works : wp work (Aside Reply.Rejects daemon world) (fun _ => True) world) :
    wp (sending start work) (fun served after =>
      served.2.1.Rejected → after = world ∧ daemon.Unmoved served.2.2) (fun _ => True) world := by
  apply wp_bind
  apply works.mono
  · rintro ⟨reply, later⟩ after aside
    refine (wp_pure _).mpr fun rejected => aside ?_
    have status : (start.send reply).2.header.status = reply.status.code := send_status reply fresh
    change (start.send reply).2.header.status ∈ _ at rejected
    rw [status] at rejected
    exact (rejected_code_iff reply.status).mp rejected
  · exact fun _ _ => trivial

/-- The handlers leave everything alone when they turn a request away. -/
theorem wp_serve_aside [Libm] (daemon : Daemon) (view : RequestView) {start : Response} (world : World)
    (fresh : start.header.status = Status.ok.code) :
    wp (serve daemon view start) (fun served after =>
      served.2.1.Rejected → after = world ∧ daemon.Unmoved served.2.2) (fun _ => True) world := by
  unfold serve
  split
  · exact (wp_pure _).mpr fun _ => ⟨rfl, .refl daemon⟩
  · apply wp_sending_aside fresh
    unfold handleCreateBody
    split
    · exact (wp_pure _).mpr fun _ => ⟨rfl, .refl daemon⟩
    · exact wp_handleCreate_aside daemon _ world
  · apply wp_sending_aside fresh
    unfold handleAddCheckBody
    split
    · exact (wp_pure _).mpr fun _ => ⟨rfl, .refl daemon⟩
    · exact wp_handleAddCheck_aside daemon _ _ true world
  · apply wp_sending_aside fresh
    unfold handleAddCheckBody
    split
    · exact (wp_pure _).mpr fun _ => ⟨rfl, .refl daemon⟩
    · exact wp_handleAddCheck_aside daemon _ _ false world
  · exact wp_sending_aside fresh (wp_handleBatchBody_aside daemon _ true world)
  · exact wp_sending_aside fresh (wp_handleBatchBody_aside daemon _ false world)
  · exact (wp_pure _).mpr fun _ => ⟨rfl, unmoved_handleInfo daemon view.body start⟩
  · exact (wp_pure _).mpr fun _ => ⟨rfl, .refl daemon⟩
  · apply wp_sending_aside fresh
    unfold handleDropBody
    split
    · exact (wp_pure _).mpr fun _ => ⟨rfl, .refl daemon⟩
    · exact wp_handleDrop_aside daemon _ world
  · exact (wp_pure _).mpr fun _ => ⟨rfl, .refl daemon⟩
  · exact wp_sending_aside fresh ((wp_pure _).mpr fun _ => ⟨rfl, .refl daemon⟩)

theorem settle_daemon (served : Except Errno Unit × Response × Daemon) :
    (settle served).2.2 = served.2.2 := by
  obtain ⟨result, response, daemon⟩ := served
  cases result with
  | ok done => rfl
  | error errno =>
    simp only [settle]
    split <;> rfl

/-- A response that reports success holds the whole body its handler built. -/
theorem settle_success {served : Except Errno Unit × Response × Daemon}
    (success : (settle served).2.1.header.status = Status.ok.code) :
    served.1 = .ok () ∧ (settle served).2.1 = served.2.1 ∧ served.2.1.header.status = Status.ok.code := by
  obtain ⟨result, response, daemon⟩ := served
  cases result with
  | ok done => exact ⟨rfl, rfl, success⟩
  | error errno =>
    simp only [settle] at success
    split at success
    · rw [Response.error_eq response .internal .none (by decide)] at success
      have clash : Status.internal.code = Status.ok.code := success
      exact absurd clash (by decide)
    · rename_i other
      exact absurd success other

theorem rejected_of_settle {served : Except Errno Unit × Response × Daemon}
    (rejected : (settle served).2.1.Rejected) : served.2.1.Rejected := by
  obtain ⟨result, response, daemon⟩ := served
  cases result with
  | ok done => exact rejected
  | error errno =>
    simp only [settle] at rejected
    split at rejected
    · rw [Response.error_eq response .internal .none (by decide)] at rejected
      exact absurd ((rejected_code_iff .internal).mp rejected) (by decide)
    · exact rejected

/-- A request that is turned away changes no filter, pool, map, pin, metadata file
or log, and neither does a body that is not the whole of one request. -/
theorem rejected_request_changes_nothing [Libm] (daemon : Daemon) (view : RequestView) (previous : Response)
    (world : World) (answers : List Answer) {result : Except Errno Unit} {response : Response} {later : Daemon}
    {after : World} {rest : List Answer}
    (returned : dispatch daemon view (previous.reset view.header.opcode view.header.requestId) world answers =
      .returned (result, response, later) after rest) :
    (response.Rejected → after = world ∧ daemon.Unmoved later) ∧
      (parseRequest view.header.opcode view.body = none → after = world ∧ daemon.Unmoved later) := by
  constructor
  · intro rejected
    have spec : wp (dispatch daemon view (previous.reset view.header.opcode view.header.requestId))
        (fun settled after => settled.2.1.Rejected → after = world ∧ daemon.Unmoved settled.2.2)
        (fun _ => True) world := by
      apply wp_bind
      apply (wp_serve_aside daemon view world rfl).mono
      · intro served after aside
        refine (wp_pure _).mpr fun rejected => ?_
        rw [settle_daemon]
        exact aside (rejected_of_settle rejected)
      · exact fun _ _ => trivial
    exact spec.returned returned rejected
  · intro unparsed
    have spec : wp (dispatch daemon view (previous.reset view.header.opcode view.header.requestId))
        (fun settled after => after = world ∧ daemon.Unmoved settled.2.2) (fun _ => True) world := by
      apply wp_bind
      apply (wp_serve_unparsed daemon _ world unparsed).mono
      · intro served after unmoved
        refine (wp_pure _).mpr ?_
        rw [settle_daemon]
        exact unmoved
      · exact fun _ _ => trivial
    exact spec.returned returned

/-- A daemon with one filter that has no data yet -/
def oneFilter : Daemon := { emptyDaemon with
  set := ⟨[Filter.fresh ⟨⟨bytes "x", backendName, digestName, bytes "/p/x", 100, 0x3f847ae147ae147b, 3,
    digestSize, metadataVersion, false, true⟩, bytes "/m/x.meta", bytes "/m/x.digests"⟩ 0], 8, none⟩ }

/-- A MADD of one item whose length field is cut off -/
def cutView : RequestView :=
  ⟨⟨protocolMagic, protocolVersion, 5, 0, 0, 7, 11⟩, [1, 0, 1, 0, 0, 0, 0, 0, 120, 5, 0], rfl⟩

theorem rejected_request_changes_nothing_cut : ∃ response later after,
    @dispatch exactLibm oneFilter cutView ((Response.init 9 3).reset 5 7) .empty [] =
      .returned (.ok (), response, later) after [] ∧
    response.Rejected ∧ after = .empty ∧ oneFilter.Unmoved later := by
  have rejected : (Response.failed (.init 5 7) .badRequest .parse (bytes "malformed batch payload")).Rejected :=
    (rejected_code_iff .badRequest).mpr rfl
  refine ⟨_, { oneFilter with set := { oneFilter.set with lastIndex := some 0 } }, .empty, rfl, rejected, ?_⟩
  exact (@rejected_request_changes_nothing exactLibm oneFilter cutView (.init 9 3) .empty [] _ _ _ _ _ rfl).1 rejected

end Answers

end Bloomd
