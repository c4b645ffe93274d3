import Bloomd.RequestProgress
import Bloomd.RequestInvariant
import Mathlib.Tactic.SplitIfs

/-! A body either is one request, and then it is handled as that request, or it is
turned away with nothing changed. The two passes of a MADD over its items and the
single pass of an MCHECK agree with one reading of the items. -/

namespace Bloomd

open CrashLogic Prog

section Items

theorem scanItems_eq (items : Bytes) (count : Nat) :
    ∀ off, scanItems items count off = (readItems items count off).map Prod.snd := by
  induction count with
  | zero => intro off; rfl
  | succ count ih =>
    intro off
    simp only [scanItems, readItems]
    cases readPayload (items.drop off) with
    | error errno => rfl
    | ok read =>
      simp only [ih]
      cases readItems items count (off + read.2) <;> rfl

/-- A reading of several items is one item and a reading of the others. -/
theorem readItems_succ {items : Bytes} {count off last : Nat} {payloads : List Bytes}
    (read : readItems items (count + 1) off = .ok (payloads, last)) :
    ∃ payload consumed rest, readPayload (items.drop off) = .ok (payload, consumed) ∧
      readItems items count (off + consumed) = .ok (rest, last) ∧ payloads = payload :: rest := by
  simp only [readItems] at read
  cases first : readPayload (items.drop off) with
  | error errno =>
    rw [first] at read
    cases read
  | ok item =>
    rw [first] at read
    cases later : readItems items count (off + item.2) with
    | error errno =>
      simp only [later] at read
      cases read
    | ok rest =>
      simp only [later] at read
      cases read
      exact ⟨item.1, item.2, rest.1, rfl, later, rfl⟩

theorem length_readItems {items : Bytes} {count : Nat} :
    ∀ {off payloads last}, readItems items count off = .ok (payloads, last) → payloads.length = count := by
  induction count with
  | zero =>
    intro off payloads last read
    cases read
    rfl
  | succ count ih =>
    intro off payloads last read
    obtain ⟨payload, consumed, rest, -, later, rfl⟩ := readItems_succ read
    rw [List.length_cons, ih later]

/-- Over items that all parse, the loop of a MADD is `addItems`. -/
theorem batchItems_adding (mode : LogSyncMode) (marked : Bool) {items : Bytes} {count : Nat} :
    ∀ {off payloads last} (anyAdded : Bool) (filter : Filter),
      readItems items count off = .ok (payloads, last) →
      batchItems mode true marked items count off anyAdded filter = (do
        let (added, filter) ← addItems mode marked (payloads.map digestPayload) anyAdded filter
        match added with
        | .error reply => pure (.error reply, filter)
        | .ok () => pure (.ok (last, payloads.map fun _ => 1), filter)) := by
  induction count with
  | zero =>
    intro off payloads last anyAdded filter read
    cases read
    rfl
  | succ count ih =>
    intro off payloads last anyAdded filter read
    obtain ⟨payload, consumed, rest, first, later, rfl⟩ := readItems_succ read
    simp only [batchItems, first, batchItem, ↓reduceIte, List.map_cons, addItems, bind_assoc]
    congr 1
    funext staged
    obtain ⟨added, filter⟩ := staged
    cases added with
    | error reply => rfl
    | ok done =>
      simp only [pure_bind, Bool.true_or, ih true filter later, bind_assoc]
      congr 1
      funext outcome
      obtain ⟨added, filter⟩ := outcome
      cases added <;> rfl

/-- Over items that all parse, the loop of an MCHECK is `checkItems`. -/
theorem batchItems_checking (mode : LogSyncMode) (marked : Bool) {items : Bytes} {count : Nat} (filter : Filter) :
    ∀ {off payloads last} (anyAdded : Bool), readItems items count off = .ok (payloads, last) →
      batchItems mode false marked items count off anyAdded filter = (do
        match ← checkItems filter (payloads.map digestPayload) with
        | .error reply => pure (.error reply, filter)
        | .ok results => pure (.ok (last, results), filter)) := by
  induction count with
  | zero =>
    intro off payloads last anyAdded read
    cases read
    rfl
  | succ count ih =>
    intro off payloads last anyAdded read
    obtain ⟨payload, consumed, rest, first, later, rfl⟩ := readItems_succ read
    simp only [batchItems, first, batchItem, Bool.false_eq_true, ↓reduceIte, List.map_cons, checkItems,
      bind_assoc]
    congr 1
    funext checked
    cases checked with
    | error failure => rfl
    | ok present =>
      simp only [pure_bind, ih _ later, bind_assoc]
      congr 1
      funext results
      cases results <;> rfl

end Items

section Requests

/-- The payloads of a batch whose items fill its body exactly -/
def BatchRequest.payloads (batch : BatchRequest) : Option (List Bytes) :=
  match readItems batch.items batch.itemCount 0 with
  | .ok (payloads, last) => if last = batch.items.length then some payloads else none
  | .error _ => none

/-- The request that a body stands for -/
def parseRequest (opcode : UInt8) (body : Bytes) : Option Request :=
  match opcode.toNat with
  | 2 => (parseCreate body).toOption.map .create
  | 3 => (parseNamePayload body).toOption.map fun (name, payload) => .add name payload
  | 4 => (parseNamePayload body).toOption.map fun (name, payload) => .check name payload
  | 5 => (parseBatch body).toOption.bind fun batch => batch.payloads.map (.madd batch.name)
  | 6 => (parseBatch body).toOption.bind fun batch => batch.payloads.map (.mcheck batch.name)
  | 9 => (parseNameRequest "DROP" body).toOption.map .drop
  | _ => none

theorem payloads_some {batch : BatchRequest} {payloads : List Bytes} (read : batch.payloads = some payloads) :
    readItems batch.items batch.itemCount 0 = .ok (payloads, batch.items.length) := by
  unfold BatchRequest.payloads at read
  split at read
  · rename_i met last found
    split at read
    · rename_i exact
      cases read
      rw [found, exact]
    · cases read
  · cases read

theorem handleItems_adding (filter : Filter) {batch : BatchRequest} {payloads : List Bytes} (mode : LogSyncMode)
    (read : batch.payloads = some payloads) :
    handleItems filter batch true mode = addBatch filter (payloads.map digestPayload) mode := by
  have whole := payloads_some read
  simp only [handleItems, prepareBatch, ↓reduceIte, scanItems_eq, whole, Except.map, ne_eq, not_true_eq_false,
    addBatch]
  congr 1
  funext prepared
  obtain ⟨ready, filter⟩ := prepared
  cases ready with
  | error reply => rfl
  | ok marked =>
    simp only [batchItems_adding mode marked false filter whole, bind_assoc]
    congr 1
    funext outcome
    obtain ⟨added, filter⟩ := outcome
    cases added with
    | error reply => rfl
    | ok done => simp [Function.comp_def]

theorem handleItems_checking (filter : Filter) {batch : BatchRequest} {payloads : List Bytes} (mode : LogSyncMode)
    (read : batch.payloads = some payloads) :
    handleItems filter batch false mode = checkBatch filter (payloads.map digestPayload) := by
  have whole := payloads_some read
  simp only [handleItems, prepareBatch, Bool.false_eq_true, ↓reduceIte, pure_bind,
    batchItems_checking mode false filter false whole, checkBatch, bind_assoc]
  congr 1
  funext results
  cases results with
  | error reply => rfl
  | ok results => simp

theorem parseBatch_ok {body : Bytes} {batch : BatchRequest} (parsed : parseBatch body = .ok batch) :
    8 + loadU16 body ≤ body.length ∧ 0 < loadU16 (body.drop 2) ∧ loadU16 (body.drop 2) ≤ maxBatchItems ∧
      loadU32 (body.drop 4) = 0 ∧ nameIsValid ((body.drop 8).take (loadU16 body)) = true ∧
      batch = ⟨(body.drop 8).take (loadU16 body), loadU16 (body.drop 2), body.drop (8 + loadU16 body)⟩ := by
  unfold parseBatch at parsed
  split_ifs at parsed with short none many reserved cut invalid
  cases parsed
  have valid : nameIsValid ((body.drop 8).take (loadU16 body)) = true := by simpa using invalid
  exact ⟨by omega, by omega, by omega, by omega, valid, rfl⟩

theorem parseNamePayload_ok {body name payload : Bytes} (parsed : parseNamePayload body = .ok (name, payload)) :
    8 + loadU16 body + loadU32 (body.drop 4) = body.length ∧ loadU16 (body.drop 2) = 0 ∧
      nameIsValid name = true ∧ name = (body.drop 8).take (loadU16 body) ∧
      payload = body.drop (8 + loadU16 body) := by
  unfold parseNamePayload at parsed
  split_ifs at parsed with short malformed reserved invalid
  cases parsed
  exact ⟨by omega, by omega, by simpa using invalid, rfl, rfl⟩

theorem parseNameRequest_ok {operation : String} {body name : Bytes}
    (parsed : parseNameRequest operation body = .ok name) :
    8 + loadU16 body = body.length ∧ loadU16 (body.drop 2) = 0 ∧ loadU32 (body.drop 4) = 0 ∧
      nameIsValid name = true ∧ name = (body.drop 8).take (loadU16 body) := by
  unfold parseNameRequest at parsed
  split_ifs at parsed with short malformed reserved invalid
  cases parsed
  exact ⟨by omega, by omega, by omega, by simpa using invalid, rfl⟩

theorem parseCreate_ok {body : Bytes} {request : CreateRequest} (parsed : parseCreate body = .ok request) :
    24 + loadU16 (body.drop 20) = body.length ∧ loadU16 (body.drop 22) = 0 ∧
      nameIsValid request.name = true ∧
      request = ⟨(body.drop 24).take (loadU16 (body.drop 20)), loadU64 body, loadDouble (body.drop 8),
        loadU32 (body.drop 16)⟩ := by
  unfold parseCreate at parsed
  split_ifs at parsed with short malformed reserved invalid
  cases parsed
  exact ⟨by omega, by omega, by simpa using invalid, rfl⟩

theorem toOption_some {result : Except ε α} {value : α} (accepted : result.toOption = some value) :
    result = .ok value := by
  cases result with
  | error failure => cases accepted
  | ok met =>
    cases accepted
    rfl

theorem handleBatchBody_eq (daemon : Daemon) {body : Bytes} {batch : BatchRequest} {payloads : List Bytes}
    (isAdd : Bool) (parsed : parseBatch body = .ok batch) (read : batch.payloads = some payloads) :
    handleBatchBody daemon body isAdd = handleBatch daemon batch.name payloads isAdd := by
  obtain ⟨-, -, -, -, valid, fields⟩ := parseBatch_ok parsed
  have named : nameIsValid batch.name = true := by
    rw [fields]
    exact valid
  simp only [handleBatchBody, parsed, handleBatch, named, Bool.not_true, Bool.false_eq_true, ↓reduceIte]
  congr 1
  funext filter
  cases isAdd with
  | true => exact handleItems_adding filter _ read
  | false => exact handleItems_checking filter _ read

/-- A body that parses is handled as the request it stands for. -/
theorem serve_eq [Libm] (daemon : Daemon) {view : RequestView} (response : Response) {request : Request}
    (parsed : parseRequest view.header.opcode view.body = some request) :
    serve daemon view response = sending response (handle daemon request) := by
  unfold parseRequest at parsed
  unfold serve
  split at parsed
  · rename_i opcode
    obtain ⟨fields, accepted, rfl⟩ := Option.map_eq_some_iff.mp parsed
    simp only [opcode, handleCreateBody, toOption_some accepted, handle]
  · rename_i opcode
    obtain ⟨⟨name, payload⟩, accepted, rfl⟩ := Option.map_eq_some_iff.mp parsed
    simp only [opcode, handleAddCheckBody, toOption_some accepted, handle]
  · rename_i opcode
    obtain ⟨⟨name, payload⟩, accepted, rfl⟩ := Option.map_eq_some_iff.mp parsed
    simp only [opcode, handleAddCheckBody, toOption_some accepted, handle]
  · rename_i opcode
    obtain ⟨batch, accepted, items⟩ := Option.bind_eq_some_iff.mp parsed
    obtain ⟨payloads, read, rfl⟩ := Option.map_eq_some_iff.mp items
    simp only [opcode, handleBatchBody_eq daemon true (toOption_some accepted) read, handle]
  · rename_i opcode
    obtain ⟨batch, accepted, items⟩ := Option.bind_eq_some_iff.mp parsed
    obtain ⟨payloads, read, rfl⟩ := Option.map_eq_some_iff.mp items
    simp only [opcode, handleBatchBody_eq daemon false (toOption_some accepted) read, handle]
  · rename_i opcode
    obtain ⟨name, accepted, rfl⟩ := Option.map_eq_some_iff.mp parsed
    simp only [opcode, handleDropBody, toOption_some accepted, handle]
  · cases parsed

end Requests

section Rejections

/-- The same daemon, apart from the index that lookups remember -/
def Daemon.Unmoved (before after : Daemon) : Prop :=
  ∃ lastIndex, after = { before with set := { before.set with lastIndex } }

theorem Daemon.Unmoved.refl (daemon : Daemon) : daemon.Unmoved daemon := ⟨daemon.set.lastIndex, rfl⟩

theorem findN_set (set : FilterSet) (name : Bytes) :
    ∃ lastIndex, (set.findN name).2 = { set with lastIndex } := by
  unfold FilterSet.findN
  split
  · split
    · exact ⟨set.lastIndex, rfl⟩
    · unfold FilterSet.findN.scan
      split
      · exact ⟨_, rfl⟩
      · exact ⟨set.lastIndex, rfl⟩
  · unfold FilterSet.findN.scan
    split
    · exact ⟨_, rfl⟩
    · exact ⟨set.lastIndex, rfl⟩

theorem unmoved_looked (daemon : Daemon) (name : Bytes) :
    daemon.Unmoved { daemon with set := (daemon.set.findN name).2 } := by
  obtain ⟨lastIndex, same⟩ := findN_set daemon.set name
  exact ⟨lastIndex, by rw [same]⟩

/-- What a handler leaves behind when it turns the request away -/
def Aside (turned : Reply → Prop) (daemon : Daemon) (world : World) (result : Reply × Daemon)
    (after : World) : Prop :=
  turned result.1 → after = world ∧ daemon.Unmoved result.2

def Reply.Rejects (reply : Reply) : Prop := reply.status.rejects = true

/-- A handler that turns its filter's request away leaves the filter alone. -/
theorem wp_withFilter_aside {turned : Reply → Prop} (daemon : Daemon) (name : Bytes)
    {work : Filter → Sys (Reply × Filter)} {world : World}
    (kept : ∀ filter, wp (work filter) (fun result after =>
      turned result.1 → after = world ∧ result.2 = filter) (fun _ => True) world) :
    wp (withFilter daemon name work) (Aside turned daemon world) (fun _ => True) world := by
  have looked := unmoved_looked daemon name
  unfold withFilter
  dsimp only
  split
  · exact (wp_pure _).mpr fun _ => ⟨rfl, looked⟩
  · rename_i index _
    split
    · exact (wp_pure _).mpr fun _ => ⟨rfl, looked⟩
    · rename_i filter present
      apply wp_bind
      apply (kept filter).mono
      · rintro ⟨reply, later⟩ after held
        refine (wp_pure _).mpr fun away => ?_
        obtain ⟨same, unchanged⟩ := held away
        change later = filter at unchanged
        obtain ⟨bound, there⟩ := List.getElem?_eq_some_iff.mp present
        have whole : (daemon.set.findN name).2.items.set index later = (daemon.set.findN name).2.items := by
          rw [unchanged, ← there, List.set_getElem_self]
        refine ⟨same, ?_⟩
        rw [whole]
        exact looked
      · exact fun _ _ => trivial

/-- The loop of an MCHECK changes nothing, and it gets to its end only when all
the items parse. -/
theorem wp_batchItems_checking (mode : LogSyncMode) (marked : Bool) (items : Bytes) (filter : Filter)
    (world : World) (count : Nat) : ∀ (off : Nat) (anyAdded : Bool),
      wp (batchItems mode false marked items count off anyAdded filter)
        (fun result after => after = world ∧ result.2 = filter ∧ ∀ last results,
          result.1 = .ok (last, results) → ∃ payloads, readItems items count off = .ok (payloads, last))
        (fun _ => True) world := by
  induction count with
  | zero =>
    intro off anyAdded
    refine (wp_pure _).mpr ⟨rfl, rfl, ?_⟩
    rintro last results ⟨⟩
    exact ⟨[], rfl⟩
  | succ count ih =>
    intro off anyAdded
    simp only [batchItems]
    split
    · refine (wp_pure _).mpr ⟨rfl, rfl, ?_⟩
      rintro last results ⟨⟩
    · rename_i payload consumed first
      have item : wp (batchItem mode false marked anyAdded payload filter)
          (fun result after => after = world ∧ result.2 = filter) (fun _ => True) world := by
        apply wp_bind
        apply (wp_bpfCheckDigest _ _ world).mono
        · rintro checked after rfl
          split <;> exact (wp_pure _).mpr ⟨rfl, rfl⟩
        · exact fun _ _ => trivial
      apply wp_bind
      apply item.mono
      · rintro ⟨item, later⟩ after ⟨rfl, rfl⟩
        dsimp only
        split
        · refine (wp_pure _).mpr ⟨rfl, rfl, ?_⟩
          rintro last results ⟨⟩
        · apply wp_bind
          apply (ih _ _).mono
          · rintro ⟨done, final⟩ after ⟨rfl, rfl, whole⟩
            dsimp only at whole ⊢
            split
            · refine (wp_pure _).mpr ⟨rfl, rfl, ?_⟩
              rintro last results ⟨⟩
            · rename_i last results
              obtain ⟨payloads, read⟩ := whole last results rfl
              refine (wp_pure _).mpr ⟨rfl, rfl, ?_⟩
              rintro _ _ ⟨⟩
              exact ⟨payload :: payloads, by simp only [readItems, first, read]⟩
          · exact fun _ _ => trivial
      · exact fun _ _ => trivial

theorem not_rejects_of_served {reply : Reply} (served : reply.Served) : ¬ reply.Rejects := by
  cases reply with
  | ok body => simp [Reply.Rejects, Reply.status, Status.rejects]
  | error status code message => simp [Reply.Rejects, Reply.status, served.2.1]

/-- What is served once its work begins turns nothing away. -/
theorem wp_of_served {prog : Sys (Reply × α)} (returns : Returns prog fun result => result.1.Served)
    {aside : Reply × α → World → Prop} (world : World) :
    wp prog (fun result after => result.1.Rejects → aside result after) (fun _ => True) world :=
  (returns.wp world).mono (fun _ _ served rejected => absurd rejected (not_rejects_of_served served))
    fun _ _ => trivial

/-- A batch with items that do not parse, or with bytes after them, leaves its
filter alone. -/
theorem wp_handleItems_unparsed (filter : Filter) {batch : BatchRequest} (isAdd : Bool) (mode : LogSyncMode)
    (world : World) (unread : batch.payloads = none) :
    wp (handleItems filter batch isAdd mode) (fun result after => after = world ∧ result.2 = filter)
      (fun _ => True) world := by
  unfold BatchRequest.payloads at unread
  cases isAdd with
  | false =>
    simp only [handleItems, prepareBatch, Bool.false_eq_true, ↓reduceIte, pure_bind]
    apply wp_bind
    apply (wp_batchItems_checking mode false batch.items filter world batch.itemCount 0 false).mono
    · rintro ⟨done, later⟩ after ⟨rfl, rfl, whole⟩
      dsimp only at whole ⊢
      split
      · exact (wp_pure _).mpr ⟨rfl, rfl⟩
      · rename_i last results
        obtain ⟨payloads, read⟩ := whole last results rfl
        have trailing : last ≠ batch.items.length := by
          intro filled
          simp [read, filled] at unread
        simp only [ne_eq, trailing, not_false_eq_true, ↓reduceIte]
        exact (wp_pure _).mpr ⟨rfl, rfl⟩
    · exact fun _ _ => trivial
  | true =>
    have stopped : ∃ reply, prepareBatch filter batch true mode = pure (.error reply, filter) := by
      simp only [prepareBatch, ↓reduceIte, scanItems_eq]
      cases whole : readItems batch.items batch.itemCount 0 with
      | error errno => exact ⟨_, rfl⟩
      | ok found =>
        have trailing : found.2 ≠ batch.items.length := by
          intro filled
          simp [whole, filled] at unread
        simp only [Except.map, ne_eq, trailing, not_false_eq_true, ↓reduceIte]
        exact ⟨_, rfl⟩
    obtain ⟨reply, stopped⟩ := stopped
    simp only [handleItems, stopped, pure_bind]
    exact (wp_pure _).mpr ⟨rfl, rfl⟩

theorem wp_handleItems_aside (filter : Filter) {batch : BatchRequest} (isAdd : Bool) (mode : LogSyncMode)
    (world : World) (few : batch.itemCount ≤ maxBatchItems) :
    wp (handleItems filter batch isAdd mode) (fun result after =>
      result.1.Rejects → after = world ∧ result.2 = filter) (fun _ => True) world := by
  cases read : batch.payloads with
  | none =>
    exact (wp_handleItems_unparsed filter isAdd mode world read).mono (fun _ _ held _ => held) fun _ _ => trivial
  | some payloads =>
    cases isAdd with
    | false =>
      rw [handleItems_checking filter mode read]
      apply wp_bind
      apply (wp_checkItems filter _ world).mono
      · rintro results after rfl
        split
        · exact (wp_pure _).mpr fun _ => ⟨rfl, rfl⟩
        · exact (wp_pure _).mpr fun rejected => absurd rejected (by simp [Reply.Rejects, Reply.status, Status.rejects])
      · exact fun _ _ => trivial
    | true =>
      rw [handleItems_adding filter mode read]
      have size : (payloads.map digestPayload).length ≤ maxBatchItems := by
        rw [List.length_map, length_readItems (payloads_some read)]
        exact few
      exact wp_of_served (returns_addBatch filter mode size) world

theorem wp_handleCreate_aside [Libm] (daemon : Daemon) (request : CreateRequest) (world : World) :
    wp (handleCreate daemon request) (Aside Reply.Rejects daemon world) (fun _ => True) world := by
  have looked := unmoved_looked daemon request.name
  unfold handleCreate
  split
  · exact (wp_pure _).mpr fun _ => ⟨rfl, .refl daemon⟩
  · split
    · exact (wp_pure _).mpr fun _ => ⟨rfl, .refl daemon⟩
    · dsimp only
      split
      · exact (wp_pure _).mpr fun _ => ⟨rfl, looked⟩
      · split
        · exact (wp_pure _).mpr fun rejected => absurd rejected (by simp [Reply.Rejects, Reply.status, Status.rejects])
        · split
          · exact wp_of_served (returns_installFilter _ _) world
          · apply wp_of_served
            apply returns_bind (returns_bpfCreateMap _ _)
            intro created brief
            split
            · split
              · exact returns_pure ⟨by decide, rfl, brief⟩
              · exact returns_pure ⟨by decide, rfl, brief⟩
            · exact returns_installFilter _ _

theorem wp_handleDrop_aside (daemon : Daemon) (name : Bytes) (world : World) :
    wp (handleDrop daemon name) (Aside Reply.Rejects daemon world) (fun _ => True) world := by
  have looked := unmoved_looked daemon name
  unfold handleDrop
  split
  · exact (wp_pure _).mpr fun _ => ⟨rfl, .refl daemon⟩
  · dsimp only
    split
    · exact (wp_pure _).mpr fun _ => ⟨rfl, looked⟩
    · split
      · exact (wp_pure _).mpr fun _ => ⟨rfl, looked⟩
      · apply wp_of_served
        apply returns_bind (returns_dropFiles _)
        intro dropped failed
        split
        · exact returns_pure (Reply.Failed.served failed)
        · exact returns_removeDropped _ _ _

theorem wp_handleAddCheck_aside (daemon : Daemon) (name payload : Bytes) (isAdd : Bool) (world : World) :
    wp (handleAddCheck daemon name payload isAdd) (Aside Reply.Rejects daemon world) (fun _ => True) world := by
  unfold handleAddCheck
  split
  · exact (wp_pure _).mpr fun _ => ⟨rfl, .refl daemon⟩
  · apply wp_withFilter_aside
    intro filter
    apply wp_of_served
    split
    · exact returns_addDigest filter _ _
    · exact returns_checkDigest filter _

theorem wp_handleBatchBody_aside (daemon : Daemon) (body : Bytes) (isAdd : Bool) (world : World) :
    wp (handleBatchBody daemon body isAdd) (Aside Reply.Rejects daemon world) (fun _ => True) world := by
  unfold handleBatchBody
  split
  · split <;> exact (wp_pure _).mpr fun _ => ⟨rfl, .refl daemon⟩
  · rename_i batch parsed
    obtain ⟨-, -, few, -, -, rfl⟩ := parseBatch_ok parsed
    apply wp_withFilter_aside
    intro filter
    exact wp_handleItems_aside filter isAdd _ world few

theorem toOption_none {result : Except ε α} (refused : result.toOption = none) :
    ∃ failure, result = .error failure := by
  cases result with
  | error failure => exact ⟨failure, rfl⟩
  | ok met => cases refused

theorem wp_sending {daemon : Daemon} (response : Response) {work : Sys (Reply × Daemon)} {world : World}
    (works : wp work (Aside (fun _ => True) daemon world) (fun _ => True) world) :
    wp (sending response work) (fun served after => after = world ∧ daemon.Unmoved served.2.2)
      (fun _ => True) world := by
  apply wp_bind
  apply works.mono
  · rintro ⟨reply, later⟩ after aside
    exact (wp_pure _).mpr (aside trivial)
  · exact fun _ _ => trivial

theorem wp_handleBatchBody_unparsed (daemon : Daemon) {body : Bytes} (isAdd : Bool) (world : World)
    (unread : ∀ batch, parseBatch body = .ok batch → batch.payloads = none) :
    wp (handleBatchBody daemon body isAdd) (Aside (fun _ => True) daemon world) (fun _ => True) world := by
  unfold handleBatchBody
  split
  · split <;> exact (wp_pure _).mpr fun _ => ⟨rfl, .refl daemon⟩
  · rename_i batch parsed
    apply wp_withFilter_aside
    intro filter
    apply (wp_handleItems_unparsed filter isAdd _ world (unread batch parsed)).mono
    · intro result after held _
      exact held
    · exact fun _ _ => trivial

theorem unmoved_handleInfo (daemon : Daemon) (body : Bytes) (response : Response) :
    daemon.Unmoved (handleInfo daemon body response).2.2 := by
  unfold handleInfo
  split
  · exact .refl daemon
  · rename_i name _
    dsimp only
    split <;> exact unmoved_looked daemon name

/-- A body that is no request changes nothing. -/
theorem wp_serve_unparsed [Libm] (daemon : Daemon) {view : RequestView} (response : Response) (world : World)
    (unparsed : parseRequest view.header.opcode view.body = none) :
    wp (serve daemon view response) (fun served after => after = world ∧ daemon.Unmoved served.2.2)
      (fun _ => True) world := by
  have turned (reply : Reply) : wp (sending response (pure (reply, daemon)))
      (fun served after => after = world ∧ daemon.Unmoved served.2.2) (fun _ => True) world :=
    wp_sending response ((wp_pure _).mpr fun _ => ⟨rfl, .refl daemon⟩)
  unfold serve
  split
  · exact (wp_pure _).mpr ⟨rfl, .refl daemon⟩
  · rename_i opcode
    simp only [parseRequest, opcode, Option.map_eq_none_iff] at unparsed
    obtain ⟨reply, refused⟩ := toOption_none unparsed
    simp only [handleCreateBody, refused]
    exact turned reply
  · rename_i opcode
    simp only [parseRequest, opcode, Option.map_eq_none_iff] at unparsed
    obtain ⟨errno, refused⟩ := toOption_none unparsed
    simp only [handleAddCheckBody, refused]
    exact turned _
  · rename_i opcode
    simp only [parseRequest, opcode, Option.map_eq_none_iff] at unparsed
    obtain ⟨errno, refused⟩ := toOption_none unparsed
    simp only [handleAddCheckBody, refused]
    exact turned _
  · rename_i opcode
    apply wp_sending
    apply wp_handleBatchBody_unparsed
    intro batch parsed
    simp only [parseRequest, opcode, parsed, Except.toOption, Option.bind_some, Option.map_eq_none_iff] at unparsed
    exact unparsed
  · rename_i opcode
    apply wp_sending
    apply wp_handleBatchBody_unparsed
    intro batch parsed
    simp only [parseRequest, opcode, parsed, Except.toOption, Option.bind_some, Option.map_eq_none_iff] at unparsed
    exact unparsed
  · exact (wp_pure _).mpr ⟨rfl, unmoved_handleInfo daemon view.body response⟩
  · exact (wp_pure _).mpr ⟨rfl, .refl daemon⟩
  · rename_i opcode
    simp only [parseRequest, opcode, Option.map_eq_none_iff] at unparsed
    obtain ⟨reply, refused⟩ := toOption_none unparsed
    simp only [handleDropBody, refused]
    exact turned reply
  · exact (wp_pure _).mpr ⟨rfl, .refl daemon⟩
  · exact turned _

end Rejections

end Bloomd
