import Bloomd.ResponseSemantics

/-! The client and the daemon speak one language: what the client builds the
daemon parses back, what the daemon accepts the client would have built, and what
the daemon answers the client reads as it was meant. -/

namespace Bloomd

open CrashLogic Prog Framing

section Fields

theorem loadU16_storeU16 {value : Nat} (rest : Bytes) (fits : value < 2 ^ 16) :
    loadU16 (storeU16 value ++ rest) = value := loadLe_take_storeLe rest fits

theorem loadU32_storeU32 {value : Nat} (rest : Bytes) (fits : value < 2 ^ 32) :
    loadU32 (storeU32 value ++ rest) = value := loadLe_take_storeLe rest fits

theorem loadU32_storeU32_mod (value : Nat) (rest : Bytes) :
    loadU32 (storeU32 value ++ rest) = value % 2 ^ 32 := loadLe_take_storeLe_mod 4 value rest

theorem loadU64_storeU64 {value : Nat} (rest : Bytes) (fits : value < 2 ^ 64) :
    loadU64 (storeU64 value ++ rest) = value := loadLe_take_storeLe rest fits

theorem loadDouble_storeDouble (value : UInt64) (rest : Bytes) :
    loadDouble (storeDouble value ++ rest) = value := by
  have read : loadLe ((storeLe 8 value.toNat ++ rest).take 8) = value.toNat :=
    loadLe_take_storeLe rest value.toNat_lt
  rw [loadDouble, storeDouble, read]
  exact UInt64.ofNat_toNat

@[simp] theorem length_storeU16 (value : Nat) : (storeU16 value).length = 2 := length_storeLe 2 value

@[simp] theorem length_storeU32 (value : Nat) : (storeU32 value).length = 4 := length_storeLe 4 value

@[simp] theorem length_storeU64 (value : Nat) : (storeU64 value).length = 8 := length_storeLe 8 value

@[simp] theorem length_storeDouble (value : UInt64) : (storeDouble value).length = 8 :=
  length_storeLe 8 value.toNat

theorem drop_storeU16 {skip : Nat} (value : Nat) (rest : Bytes) (past : 2 ≤ skip) :
    (storeU16 value ++ rest).drop skip = rest.drop (skip - 2) := drop_storeLe value rest past

theorem drop_storeU32 {skip : Nat} (value : Nat) (rest : Bytes) (past : 4 ≤ skip) :
    (storeU32 value ++ rest).drop skip = rest.drop (skip - 4) := drop_storeLe value rest past

theorem drop_storeU64 {skip : Nat} (value : Nat) (rest : Bytes) (past : 8 ≤ skip) :
    (storeU64 value ++ rest).drop skip = rest.drop (skip - 8) := drop_storeLe value rest past

theorem drop_storeDouble {skip : Nat} (value : UInt64) (rest : Bytes) (past : 8 ≤ skip) :
    (storeDouble value ++ rest).drop skip = rest.drop (skip - 8) := drop_storeLe value.toNat rest past

theorem storeU16_at {body : Bytes} {off : Nat} (inside : off + 2 ≤ body.length) :
    storeU16 (loadU16 (body.drop off)) ++ body.drop (off + 2) = body.drop off := by
  rw [← List.drop_drop]
  exact storeLe_append_drop (by simp; omega)

theorem storeU32_at {body : Bytes} {off : Nat} (inside : off + 4 ≤ body.length) :
    storeU32 (loadU32 (body.drop off)) ++ body.drop (off + 4) = body.drop off := by
  rw [← List.drop_drop]
  exact storeLe_append_drop (by simp; omega)

theorem storeU64_at {body : Bytes} {off : Nat} (inside : off + 8 ≤ body.length) :
    storeU64 (loadU64 (body.drop off)) ++ body.drop (off + 8) = body.drop off := by
  rw [← List.drop_drop]
  exact storeLe_append_drop (by simp; omega)

theorem storeDouble_at {body : Bytes} {off : Nat} (inside : off + 8 ≤ body.length) :
    storeDouble (loadDouble (body.drop off)) ++ body.drop (off + 8) = body.drop off := by
  have small : loadLe ((body.drop off).take 8) < 2 ^ 64 := loadLe_take_lt (body.drop off) 8
  have same : (loadLe ((body.drop off).take 8)).toUInt64.toNat = loadLe ((body.drop off).take 8) :=
    Nat.mod_eq_of_lt small
  rw [storeDouble, loadDouble, same]
  exact storeU64_at inside

end Fields

section Bodies

/-- The body of a CREATE -/
def createBody (request : CreateRequest) : Bytes :=
  storeU64 request.capacity ++ (storeDouble request.errorRate ++ (storeU32 request.hashes ++
    (storeU16 request.name.length ++ (storeU16 0 ++ request.name))))

/-- The body of an INFO or DROP -/
def nameBody (name : Bytes) : Bytes := storeU16 name.length ++ (storeU16 0 ++ (storeU32 0 ++ name))

/-- The body of an ADD or CHECK -/
def payloadBody (name payload : Bytes) : Bytes :=
  storeU16 name.length ++ (storeU16 0 ++ (storeU32 payload.length ++ (name ++ payload)))

def itemsBody (items : List Bytes) : Bytes := (items.map fun item => storeU32 item.length ++ item).flatten

/-- The body of a MADD or MCHECK -/
def batchBody (name : Bytes) (items : List Bytes) : Bytes :=
  storeU16 name.length ++ (storeU16 items.length ++ (storeU32 0 ++ (name ++ itemsBody items)))

theorem append_eq {body data : Bytes} (fits : body.length + data.length ≤ maxFrameBody) :
    append body data = .ok (body ++ data) := by
  rw [append, bufferAppend_fits fits]

theorem appendName_eq {body name : Bytes} (valid : nameIsValid name = true)
    (fits : body.length + name.length ≤ maxFrameBody) : appendName body name = .ok (body ++ name) := by
  have short := length_of_valid valid
  have small : ¬ 2 ^ 16 ≤ name.length := by
    simp only [maxNameLen] at short
    omega
  simp only [appendName, valid, Bool.not_true, Bool.false_eq_true, small, ↓reduceIte]
  exact append_eq fits

theorem commandCreate_eq {request : CreateRequest} (valid : nameIsValid request.name = true) :
    commandCreate request = .ok (createBody request) := by
  have short := length_of_valid valid
  simp only [maxNameLen] at short
  unfold commandCreate
  rw [append_eq (by simp [maxFrameBody])]
  change appendName _ request.name = _
  rw [appendName_eq valid (by simp [maxFrameBody]; omega)]
  simp [createBody]

theorem buildNameRequest_eq {name : Bytes} (valid : nameIsValid name = true) :
    buildNameRequest name = .ok (nameBody name) := by
  have short := length_of_valid valid
  simp only [maxNameLen] at short
  unfold buildNameRequest
  rw [append_eq (by simp [maxFrameBody])]
  change appendName _ name = _
  rw [appendName_eq valid (by simp [maxFrameBody]; omega)]
  simp [nameBody]

theorem buildPayloadRequest_eq {name payload : Bytes} (valid : nameIsValid name = true)
    (fits : (payloadBody name payload).length ≤ maxFrameBody) :
    buildPayloadRequest name payload = .ok (payloadBody name payload) := by
  simp only [payloadBody, List.length_append, length_storeU16, length_storeU32, maxFrameBody] at fits
  unfold buildPayloadRequest
  rw [if_neg (by omega), append_eq (by simp [maxFrameBody])]
  change (appendName _ name >>= fun body => append body payload) = _
  rw [appendName_eq valid (by simp [maxFrameBody]; omega)]
  change append _ payload = _
  rw [append_eq (by simp [maxFrameBody]; omega)]
  simp [payloadBody]

theorem appendItems_eq (items : List Bytes) : ∀ body : Bytes,
    body.length + (itemsBody items).length ≤ maxFrameBody →
    appendItems items body = .ok (body ++ itemsBody items) := by
  induction items with
  | nil =>
    intro body _
    simp [appendItems, itemsBody]
  | cons item rest ih =>
    intro body fits
    have split : itemsBody (item :: rest) = storeU32 item.length ++ (item ++ itemsBody rest) := by
      simp [itemsBody]
    rw [split] at fits ⊢
    simp only [List.length_append, length_storeU32] at fits
    unfold appendItems
    rw [append_eq (by simp; omega)]
    change (append _ item >>= fun body => appendItems rest body) = _
    rw [append_eq (by simp; omega)]
    change appendItems rest _ = _
    rw [ih _ (by simp; omega)]
    simp

theorem commandBatch_eq {name : Bytes} {items : List Bytes} (valid : nameIsValid name = true)
    (some : items ≠ []) (few : items.length ≤ maxBatchItems)
    (fits : (batchBody name items).length ≤ maxFrameBody) :
    commandBatch name items = .ok (batchBody name items) := by
  have counted : items.length ≠ 0 := fun none => some (List.eq_nil_of_length_eq_zero none)
  simp only [batchBody, List.length_append, length_storeU16, length_storeU32] at fits
  unfold commandBatch
  rw [if_neg (by omega), append_eq (by simp [maxFrameBody])]
  change (appendName _ name >>= fun body => appendItems items body) = _
  rw [appendName_eq valid (by simp; omega)]
  change appendItems items _ = _
  rw [appendItems_eq items _ (by simp; omega)]
  simp [batchBody]

end Bodies

section Parsing

theorem parseCreate_createBody {request : CreateRequest} (valid : nameIsValid request.name = true)
    (capacity : request.capacity < 2 ^ 64) (hashes : request.hashes < 2 ^ 32) :
    parseCreate (createBody request) = .ok request := by
  have short := length_of_valid valid
  simp only [maxNameLen] at short
  have size : (createBody request).length = 24 + request.name.length := by
    simp [createBody]
    omega
  have first : loadU64 (createBody request) = request.capacity := loadU64_storeU64 _ capacity
  have second : loadDouble ((createBody request).drop 8) = request.errorRate := by
    rw [createBody, drop_storeU64 _ _ (by omega)]
    exact loadDouble_storeDouble _ _
  have third : loadU32 ((createBody request).drop 16) = request.hashes := by
    rw [createBody, drop_storeU64 _ _ (by omega), drop_storeDouble _ _ (by omega)]
    exact loadU32_storeU32 _ hashes
  have fourth : loadU16 ((createBody request).drop 20) = request.name.length := by
    rw [createBody, drop_storeU64 _ _ (by omega), drop_storeDouble _ _ (by omega), drop_storeU32 _ _ (by omega)]
    exact loadU16_storeU16 _ (by omega)
  have fifth : loadU16 ((createBody request).drop 22) = 0 := by
    rw [createBody, drop_storeU64 _ _ (by omega), drop_storeDouble _ _ (by omega), drop_storeU32 _ _ (by omega),
      drop_storeU16 _ _ (by omega)]
    exact loadU16_storeU16 _ (by omega)
  have named : (createBody request).drop 24 = request.name := by
    rw [createBody, drop_storeU64 _ _ (by omega), drop_storeDouble _ _ (by omega), drop_storeU32 _ _ (by omega),
      drop_storeU16 _ _ (by omega), drop_storeU16 _ _ (by omega)]
    rfl
  unfold parseCreate
  rw [size, first, second, third, fourth, fifth, named, List.take_length]
  simp [valid]

theorem createBody_parseCreate {body : Bytes} {request : CreateRequest} (parsed : parseCreate body = .ok request) :
    createBody request = body := by
  obtain ⟨size, reserved, -, rfl⟩ := parseCreate_ok parsed
  have length : (body.drop 24).length = loadU16 (body.drop 20) := by
    rw [List.length_drop]
    omega
  have name : (body.drop 24).take (loadU16 (body.drop 20)) = body.drop 24 :=
    List.take_of_length_le (by omega)
  have tail : storeU16 (loadU16 (body.drop 22)) ++ body.drop 24 = body.drop 22 := storeU16_at (by omega)
  have lengths : storeU16 (loadU16 (body.drop 20)) ++ body.drop 22 = body.drop 20 := storeU16_at (by omega)
  have hashes : storeU32 (loadU32 (body.drop 16)) ++ body.drop 20 = body.drop 16 := storeU32_at (by omega)
  have rate : storeDouble (loadDouble (body.drop 8)) ++ body.drop 16 = body.drop 8 := storeDouble_at (by omega)
  have capacity : storeU64 (loadU64 body) ++ body.drop 8 = body := @storeU64_at body 0 (by omega)
  rw [reserved] at tail
  simp only [createBody, name, length, tail, lengths, hashes, rate, capacity]

theorem parseNameRequest_nameBody (operation : String) {name : Bytes} (valid : nameIsValid name = true) :
    parseNameRequest operation (nameBody name) = .ok name := by
  have short := length_of_valid valid
  simp only [maxNameLen] at short
  have size : (nameBody name).length = 8 + name.length := by
    simp [nameBody]
    omega
  have first : loadU16 (nameBody name) = name.length := loadU16_storeU16 _ (by omega)
  have second : loadU16 ((nameBody name).drop 2) = 0 := by
    rw [nameBody, drop_storeU16 _ _ (by omega)]
    exact loadU16_storeU16 _ (by omega)
  have third : loadU32 ((nameBody name).drop 4) = 0 := by
    rw [nameBody, drop_storeU16 _ _ (by omega), drop_storeU16 _ _ (by omega)]
    exact loadU32_storeU32 _ (by omega)
  have named : (nameBody name).drop 8 = name := by
    rw [nameBody, drop_storeU16 _ _ (by omega), drop_storeU16 _ _ (by omega), drop_storeU32 _ _ (by omega)]
    rfl
  unfold parseNameRequest
  rw [size, first, second, third, named, List.take_length]
  simp [valid]

theorem nameBody_parseNameRequest {operation : String} {body name : Bytes}
    (parsed : parseNameRequest operation body = .ok name) : nameBody name = body := by
  obtain ⟨size, reserved, further, -, rfl⟩ := parseNameRequest_ok parsed
  have length : (body.drop 8).length = loadU16 body := by
    rw [List.length_drop]
    omega
  have whole : (body.drop 8).take (loadU16 body) = body.drop 8 := List.take_of_length_le (by omega)
  have third : storeU32 (loadU32 (body.drop 4)) ++ body.drop 8 = body.drop 4 := storeU32_at (by omega)
  have second : storeU16 (loadU16 (body.drop 2)) ++ body.drop 4 = body.drop 2 := storeU16_at (by omega)
  have first : storeU16 (loadU16 body) ++ body.drop 2 = body := @storeU16_at body 0 (by omega)
  rw [further] at third
  rw [reserved] at second
  simp only [nameBody, whole, length, third, second, first]

theorem parseNamePayload_payloadBody {name payload : Bytes} (valid : nameIsValid name = true)
    (small : payload.length < 2 ^ 32) : parseNamePayload (payloadBody name payload) = .ok (name, payload) := by
  have short := length_of_valid valid
  simp only [maxNameLen] at short
  have size : (payloadBody name payload).length = 8 + name.length + payload.length := by
    simp [payloadBody]
    omega
  have first : loadU16 (payloadBody name payload) = name.length := loadU16_storeU16 _ (by omega)
  have second : loadU16 ((payloadBody name payload).drop 2) = 0 := by
    rw [payloadBody, drop_storeU16 _ _ (by omega)]
    exact loadU16_storeU16 _ (by omega)
  have third : loadU32 ((payloadBody name payload).drop 4) = payload.length := by
    rw [payloadBody, drop_storeU16 _ _ (by omega), drop_storeU16 _ _ (by omega)]
    exact loadU32_storeU32 _ small
  have rest : (payloadBody name payload).drop 8 = name ++ payload := by
    rw [payloadBody, drop_storeU16 _ _ (by omega), drop_storeU16 _ _ (by omega), drop_storeU32 _ _ (by omega)]
    rfl
  unfold parseNamePayload
  rw [size, first, second, third, ← List.drop_drop, rest, List.take_left, List.drop_left]
  simp [valid]
  omega

theorem payloadBody_parseNamePayload {body name payload : Bytes}
    (parsed : parseNamePayload body = .ok (name, payload)) : payloadBody name payload = body := by
  obtain ⟨size, reserved, -, rfl, rfl⟩ := parseNamePayload_ok parsed
  have length : ((body.drop 8).take (loadU16 body)).length = loadU16 body := by
    rw [List.length_take, List.length_drop]
    omega
  have remaining : (body.drop (8 + loadU16 body)).length = loadU32 (body.drop 4) := by
    rw [List.length_drop]
    omega
  have both : (body.drop 8).take (loadU16 body) ++ body.drop (8 + loadU16 body) = body.drop 8 := by
    rw [← List.drop_drop]
    exact List.take_append_drop _ _
  have third : storeU32 (loadU32 (body.drop 4)) ++ body.drop 8 = body.drop 4 := storeU32_at (by omega)
  have second : storeU16 (loadU16 (body.drop 2)) ++ body.drop 4 = body.drop 2 := storeU16_at (by omega)
  have first : storeU16 (loadU16 body) ++ body.drop 2 = body := @storeU16_at body 0 (by omega)
  rw [reserved] at second
  simp only [payloadBody, length, remaining, both, third, second, first]

theorem readPayload_item {item : Bytes} (rest : Bytes) (small : item.length ≤ maxFrameBody) :
    readPayload (storeU32 item.length ++ (item ++ rest)) = .ok (item, 4 + item.length) := by
  have fits : item.length < 2 ^ 32 := by
    simp only [maxFrameBody] at small
    omega
  have length : loadU32 (storeU32 item.length ++ (item ++ rest)) = item.length := loadU32_storeU32 _ fits
  have after : (storeU32 item.length ++ (item ++ rest)).drop 4 = item ++ rest :=
    drop_storeU32 item.length _ (le_refl 4)
  have total : (storeU32 item.length ++ (item ++ rest)).length = 4 + (item.length + rest.length) := by simp
  unfold readPayload
  rw [length, after, total, List.take_left, if_neg (by omega), if_neg (by omega), if_neg (by omega)]

theorem readPayload_ok {buf payload : Bytes} {consumed : Nat} (read : readPayload buf = .ok (payload, consumed)) :
    consumed ≤ buf.length ∧ storeU32 payload.length ++ (payload ++ buf.drop consumed) = buf := by
  unfold readPayload at read
  split_ifs at read with short large cut
  cases read
  have length : ((buf.drop 4).take (loadU32 buf)).length = loadU32 buf := by
    rw [List.length_take, List.length_drop]
    omega
  have both : (buf.drop 4).take (loadU32 buf) ++ buf.drop (4 + loadU32 buf) = buf.drop 4 := by
    rw [← List.drop_drop]
    exact List.take_append_drop _ _
  have first : storeU32 (loadU32 buf) ++ buf.drop 4 = buf := @storeU32_at buf 0 (by omega)
  exact ⟨by omega, by rw [length, both, first]⟩

theorem itemsBody_cons (item : Bytes) (rest : List Bytes) :
    itemsBody (item :: rest) = storeU32 item.length ++ (item ++ itemsBody rest) := by
  simp [itemsBody]

/-- The item loop reads the client's items where the client put them. -/
theorem readItems_itemsBody (items : List Bytes) : ∀ front : Bytes, (itemsBody items).length ≤ maxFrameBody →
    readItems (front ++ itemsBody items) items.length front.length =
      .ok (items, front.length + (itemsBody items).length) := by
  induction items with
  | nil =>
    intro front _
    simp [readItems, itemsBody]
  | cons item rest ih =>
    intro front fits
    rw [itemsBody_cons] at fits ⊢
    simp only [List.length_append, length_storeU32] at fits
    have here : (front ++ (storeU32 item.length ++ (item ++ itemsBody rest))).drop front.length =
        storeU32 item.length ++ (item ++ itemsBody rest) := List.drop_left
    have later := ih (front ++ (storeU32 item.length ++ item)) (by omega)
    have ends : (front ++ (storeU32 item.length ++ item)).length = front.length + (4 + item.length) := by simp
    have whole : front ++ (storeU32 item.length ++ item) ++ itemsBody rest =
        front ++ (storeU32 item.length ++ (item ++ itemsBody rest)) := by simp
    rw [ends, whole] at later
    simp only [List.length_cons, readItems, here, readPayload_item (itemsBody rest) (show item.length ≤ _ by omega),
      later, List.length_append, length_storeU32]
    congr 2
    omega

/-- What the item loop reads is what stands between its ends. -/
theorem itemsBody_readItems {items : Bytes} {count : Nat} : ∀ {off payloads last}, off ≤ items.length →
    readItems items count off = .ok (payloads, last) →
    last ≤ items.length ∧ itemsBody payloads ++ items.drop last = items.drop off := by
  induction count with
  | zero =>
    intro off payloads last inside read
    cases read
    exact ⟨inside, rfl⟩
  | succ count ih =>
    intro off payloads last inside read
    obtain ⟨payload, consumed, rest, first, later, rfl⟩ := readItems_succ read
    obtain ⟨within, piece⟩ := readPayload_ok first
    rw [List.length_drop] at within
    obtain ⟨bound, others⟩ := ih (by omega) later
    refine ⟨bound, ?_⟩
    rw [List.drop_drop] at piece
    rw [itemsBody_cons, List.append_assoc, List.append_assoc, others, piece]

theorem parseBatch_batchBody {name : Bytes} {items : List Bytes} (valid : nameIsValid name = true)
    (some : items ≠ []) (few : items.length ≤ maxBatchItems) :
    parseBatch (batchBody name items) = .ok ⟨name, items.length, itemsBody items⟩ := by
  have short := length_of_valid valid
  simp only [maxNameLen] at short
  have counted : items.length ≠ 0 := fun none => some (List.eq_nil_of_length_eq_zero none)
  have size : (batchBody name items).length = 8 + name.length + (itemsBody items).length := by
    simp [batchBody]
    omega
  have first : loadU16 (batchBody name items) = name.length := loadU16_storeU16 _ (by omega)
  have second : loadU16 ((batchBody name items).drop 2) = items.length := by
    rw [batchBody, drop_storeU16 _ _ (by omega)]
    apply loadU16_storeU16
    simp only [maxBatchItems] at few
    omega
  have third : loadU32 ((batchBody name items).drop 4) = 0 := by
    rw [batchBody, drop_storeU16 _ _ (by omega), drop_storeU16 _ _ (by omega)]
    exact loadU32_storeU32 _ (by omega)
  have rest : (batchBody name items).drop 8 = name ++ itemsBody items := by
    rw [batchBody, drop_storeU16 _ _ (by omega), drop_storeU16 _ _ (by omega), drop_storeU32 _ _ (by omega)]
    rfl
  unfold parseBatch
  rw [size, first, second, third, ← List.drop_drop, rest, List.take_left, List.drop_left,
    if_neg (by omega), if_neg counted, if_neg (by omega), if_neg (by omega), if_neg (by omega)]
  simp [valid]

theorem payloads_itemsBody (name : Bytes) {items : List Bytes} (fits : (itemsBody items).length ≤ maxFrameBody) :
    (BatchRequest.mk name items.length (itemsBody items)).payloads = some items := by
  have read := readItems_itemsBody items [] fits
  simp only [List.nil_append, List.length_nil, Nat.zero_add] at read
  simp [BatchRequest.payloads, read]

theorem batchBody_parseBatch {body : Bytes} {batch : BatchRequest} {payloads : List Bytes}
    (parsed : parseBatch body = .ok batch) (read : batch.payloads = some payloads) :
    batchBody batch.name payloads = body := by
  have whole := payloads_some read
  obtain ⟨-, filled⟩ := itemsBody_readItems (Nat.zero_le _) whole
  have counted := length_readItems whole
  obtain ⟨size, -, -, reserved, -, rfl⟩ := parseBatch_ok parsed
  simp only [List.drop_length, List.append_nil, List.drop_zero] at filled
  dsimp only at counted
  have length : ((body.drop 8).take (loadU16 body)).length = loadU16 body := by
    rw [List.length_take, List.length_drop]
    omega
  have both : (body.drop 8).take (loadU16 body) ++ body.drop (8 + loadU16 body) = body.drop 8 := by
    rw [← List.drop_drop]
    exact List.take_append_drop _ _
  have third : storeU32 (loadU32 (body.drop 4)) ++ body.drop 8 = body.drop 4 := storeU32_at (by omega)
  have second : storeU16 (loadU16 (body.drop 2)) ++ body.drop 4 = body.drop 2 := storeU16_at (by omega)
  have first : storeU16 (loadU16 body) ++ body.drop 2 = body := @storeU16_at body 0 (by omega)
  rw [reserved] at third
  simp only [batchBody, length, counted, filled, both, third, second, first]

end Parsing

section Language

/-- A builder and a parser of the same bodies: each allowed request is built, and
parsed from what was built; and a body that fits a frame and parses is the one
that is built from what was parsed. -/
structure Agrees (allowed : α → Prop) (build : α → Except Errno Bytes) (parse : Bytes → Option α) : Prop where
  recovers : ∀ request, allowed request → ∃ body, build request = .ok body ∧ parse body = some request
  explains : ∀ body request, body.length ≤ maxFrameBody → parse body = some request → build request = .ok body

/-- The payloads of an accepted MADD or MCHECK body, with the name -/
def parseItems (body : Bytes) : Option (Bytes × List Bytes) :=
  (parseBatch body).toOption.bind fun batch => batch.payloads.map fun payloads => (batch.name, payloads)

theorem agrees_create : Agrees (fun request : CreateRequest =>
      nameIsValid request.name = true ∧ request.capacity < 2 ^ 64 ∧ request.hashes < 2 ^ 32)
    commandCreate (fun body => (parseCreate body).toOption) := by
  constructor
  · rintro request ⟨valid, capacity, hashes⟩
    refine ⟨createBody request, commandCreate_eq valid, ?_⟩
    rw [parseCreate_createBody valid capacity hashes]
    rfl
  · intro body request _ parsed
    have accepted := toOption_some parsed
    obtain ⟨-, -, valid, -⟩ := parseCreate_ok accepted
    rw [commandCreate_eq valid, createBody_parseCreate accepted]

theorem agrees_payload : Agrees (fun request : Bytes × Bytes =>
      nameIsValid request.1 = true ∧ 8 + request.1.length + request.2.length ≤ maxFrameBody)
    (fun request => buildPayloadRequest request.1 request.2) (fun body => (parseNamePayload body).toOption) := by
  constructor
  · rintro ⟨name, payload⟩ ⟨valid, fits⟩
    have size : (payloadBody name payload).length = 8 + name.length + payload.length := by
      simp [payloadBody]
      omega
    have small : payload.length < 2 ^ 32 := by
      simp only [maxFrameBody] at fits
      omega
    refine ⟨payloadBody name payload, buildPayloadRequest_eq valid (by rwa [size]), ?_⟩
    rw [parseNamePayload_payloadBody valid small]
    rfl
  · rintro body ⟨name, payload⟩ bounded parsed
    have accepted := toOption_some parsed
    obtain ⟨-, -, valid, -, -⟩ := parseNamePayload_ok accepted
    have same := payloadBody_parseNamePayload accepted
    dsimp only
    rw [buildPayloadRequest_eq valid (by rwa [same]), same]

theorem length_itemsBody (items : List Bytes) :
    (itemsBody items).length = (items.map fun item => 4 + item.length).sum := by
  simp [itemsBody, List.length_flatten, List.map_map, Function.comp_def]

theorem agrees_batch : Agrees (fun request : Bytes × List Bytes =>
      nameIsValid request.1 = true ∧ request.2 ≠ [] ∧ request.2.length ≤ maxBatchItems ∧
        8 + request.1.length + (request.2.map fun item => 4 + item.length).sum ≤ maxFrameBody)
    (fun request => commandBatch request.1 request.2) parseItems := by
  constructor
  · rintro ⟨name, items⟩ ⟨valid, some, few, fits⟩
    dsimp only at fits
    rw [← length_itemsBody] at fits
    have size : (batchBody name items).length = 8 + name.length + (itemsBody items).length := by
      simp [batchBody]
      omega
    refine ⟨batchBody name items, commandBatch_eq valid some few (by rwa [size]), ?_⟩
    simp only [parseItems, parseBatch_batchBody valid some few, Except.toOption, Option.bind_some,
      payloads_itemsBody name (show (itemsBody items).length ≤ maxFrameBody by omega), Option.map_some]
  · rintro body ⟨name, items⟩ bounded parsed
    obtain ⟨batch, accepted, taken⟩ := Option.bind_eq_some_iff.mp parsed
    obtain ⟨payloads, read, same⟩ := Option.map_eq_some_iff.mp taken
    cases same
    have accepted := toOption_some accepted
    have whole := batchBody_parseBatch accepted read
    have counted := length_readItems (payloads_some read)
    obtain ⟨-, positive, few, -, valid, fields⟩ := parseBatch_ok accepted
    have named : nameIsValid batch.name = true := by
      rw [fields]
      exact valid
    have itemCount : batch.itemCount = loadU16 (body.drop 2) := by rw [fields]
    have some : items ≠ [] := by
      rintro rfl
      simp at counted
      omega
    dsimp only
    rw [commandBatch_eq named some (by omega) (by rwa [whole]), whole]

theorem agrees_name (operation : String) : Agrees (fun name => nameIsValid name = true) buildNameRequest
    (fun body => (parseNameRequest operation body).toOption) := by
  constructor
  · intro name valid
    refine ⟨nameBody name, buildNameRequest_eq valid, ?_⟩
    rw [parseNameRequest_nameBody operation valid]
    rfl
  · intro body name _ parsed
    have accepted := toOption_some parsed
    obtain ⟨-, -, -, valid, -⟩ := parseNameRequest_ok accepted
    rw [buildNameRequest_eq valid, nameBody_parseNameRequest accepted]

/-- The client's builders and the daemon's parsers define one request language. -/
theorem request_language :
    Agrees (fun request : CreateRequest =>
        nameIsValid request.name = true ∧ request.capacity < 2 ^ 64 ∧ request.hashes < 2 ^ 32)
      commandCreate (fun body => (parseCreate body).toOption) ∧
    Agrees (fun request : Bytes × Bytes =>
        nameIsValid request.1 = true ∧ 8 + request.1.length + request.2.length ≤ maxFrameBody)
      (fun request => buildPayloadRequest request.1 request.2) (fun body => (parseNamePayload body).toOption) ∧
    Agrees (fun request : Bytes × List Bytes =>
        nameIsValid request.1 = true ∧ request.2 ≠ [] ∧ request.2.length ≤ maxBatchItems ∧
          8 + request.1.length + (request.2.map fun item => 4 + item.length).sum ≤ maxFrameBody)
      (fun request => commandBatch request.1 request.2) parseItems ∧
    ∀ operation, Agrees (fun name => nameIsValid name = true) buildNameRequest
      (fun body => (parseNameRequest operation body).toOption) :=
  ⟨agrees_create, agrees_payload, agrees_batch, agrees_name⟩

end Language

end Bloomd
