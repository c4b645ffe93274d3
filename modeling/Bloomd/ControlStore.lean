import Bloomd.ControlExchange
import Bloomd.ControlSafety
import Bloomd.ServerHistory

/-! What `bloomctl` tells its user. A run that exits with 0 has asked the daemon one request,
and what it prints is so of the store at that time. -/

namespace Bloomd

open CrashLogic Prog Framing

namespace Store

/-- What a command that exits with 0 prints about the store, and the store after it -/
inductive Told (store : Store) : Bytes → List Bytes → Printed → Store → Prop where
  | ping {arguments : List Bytes} {line : Bytes} : Told store (bytes "ping") arguments (.text line) store
  | create {name capacity errorRate : Bytes} {more : List Bytes} (free : store name = none) :
      Told store (bytes "create") (name :: capacity :: errorRate :: more) .nothing
        (Function.update store name (some ∅))
  | add {name payload : Bytes} {held : Set Digest} (present : store name = some held) :
      Told store (bytes "add") [name, payload] (.values [1]) (store.put name held [digestPayload payload])
  | check {name payload : Bytes} {held : Set Digest} {result : UInt8} (present : store name = some held)
      (reports : Reports held [payload] [result]) : Told store (bytes "check") [name, payload] (.values [result]) store
  | madd {name : Bytes} {payloads : List Bytes} {held : Set Digest} (present : store name = some held) :
      Told store (bytes "madd") (name :: payloads) (.values (payloads.map fun _ => 1))
        (store.put name held (payloads.map digestPayload))
  | mcheck {name results : Bytes} {payloads : List Bytes} {held : Set Digest} (present : store name = some held)
      (reports : Reports held payloads results) :
        Told store (bytes "mcheck") (name :: payloads) (.values results) store
  | info {name : Bytes} {reply : InfoReply} (present : store name ≠ none) :
      Told store (bytes "info") [name] (.info reply) store
  | list {arguments names : List Bytes} (distinct : names.Nodup) (members : ∀ name, name ∈ names ↔ store name ≠ none) :
      Told store (bytes "list") arguments (.names names) store
  | drop {name : Bytes} {held : Set Digest} (present : store name = some held) :
      Told store (bytes "drop") [name] .nothing (Function.update store name none)
  | stats {arguments : List Bytes} {reply : StatsReply} : Told store (bytes "stats") arguments (.stats reply) store

/-- What a command that exits with 1 after an answer says about the store: it is as it was,
except that a madd may have put in the first of its payloads. -/
structure Denied (store : Store) (cmd : Bytes) (arguments : List Bytes) (complaint : Complaint)
    (later : Store) : Prop where
  changed : later ≠ store → ∃ name payloads front held, cmd = bytes "madd" ∧ arguments = name :: payloads ∧
    store name = some held ∧ front <+: payloads ∧ front.length < payloads.length ∧
    later = store.put name held (front.map digestPayload)
  missing : ∀ name rest code message, cmd ∈ ["add", "check", "madd", "mcheck", "info", "drop"].map bytes →
    arguments = name :: rest → complaint = .server Status.notFound.code code message → store name = none
  taken : ∀ name rest code message, cmd = bytes "create" → arguments = name :: rest →
    complaint = .server Status.exists.code code message → store name ≠ none

end Store

section Decoding

variable {view : RequestView} {opcode : Opcode}

theorem receive_refused (refused : view.header.status ≠ Status.ok.code) (fits : view.body.length ≤ maxFrameBody) :
    ∃ complaint, receive view opcode = some (.error complaint) ∧
      ∀ status code message, complaint = .server status code message → status = view.header.status := by
  obtain ⟨complaint, printed⟩ := printError_total fits
  refine ⟨complaint, ?_, ?_⟩
  · rw [receive.eq_def, if_pos refused, printed]
    rfl
  · rintro status code message rfl
    unfold printError at printed
    split at printed
    · cases printed
    · simp only [Option.bind_eq_bind, Option.bind_eq_some_iff] at printed
      obtain ⟨loaded, _, length, _, total, _, ends⟩ := printed
      split at ends
      · cases ends
      · obtain ⟨text, _, same⟩ := Option.bind_eq_some_iff.mp ends
        cases same
        rfl

theorem receive_single {result : UInt8} (body : view.body = [result]) :
    (expectBodyLen view 1 "add/check" do
      let result ← view.byte 0
      some (.ok (.values [result]))) = some (.ok (.values [result])) := by
  have length : view.header.bodyLen.toNat = 1 := by
    rw [← view.sized, body]
    rfl
  rw [expectBodyLen, if_neg (not_not.mpr length), RequestView.byte, body]
  rfl

theorem receiveBatch_countBytes {results : Bytes} (few : results.length < 2 ^ 16)
    (body : view.body = countBytes results) : receiveBatch view = some (.ok (.values results)) := by
  have length : view.body.length = 2 + results.length := by
    rw [body, countBytes, List.length_append]
    rfl
  have counted : loadU16 (view.body.drop 0) = results.length := by
    rw [List.drop_zero, body]
    exact loadU16_storeU16 results few
  have count := @loadU16At_inside view 0 (by omega)
  have total := @addWide_small 32 2 results.length (by omega)
  have printed := @printResults_inside view 2 results.length 0 (by omega) (by omega)
  have content : (view.body.drop (2 + 0)).take results.length = results := by
    rw [body]
    exact List.take_length
  rw [receiveBatch, ← view.sized, if_neg (by omega)]
  simp only [count, counted, total, printed, content, Option.bind_eq_bind, Option.bind_some]
  rw [if_neg (not_not.mpr length)]

theorem receiveNames_untilNul (fits : view.body.length ≤ maxFrameBody) (left : Nat) :
    ∀ {off last : Nat} {names : List Bytes},
    off ≤ view.body.length → decodeNames view.body left off = some (names, last) →
    receiveNames view left off = some (.ok (names.map untilNul, last)) := by
  have wide : maxFrameBody + 2 ^ 17 < 2 ^ 64 := by decide
  induction left with
  | zero =>
    intro off last names inside decoded
    cases decoded
    rfl
  | succ left ih =>
    intro off last names inside decoded
    simp only [decodeNames] at decoded
    split_ifs at decoded with header entry
    have small : loadU16 (view.body.drop off) < 2 ^ 16 := loadLe_take_lt (view.body.drop off) 2
    have past := @addWide_small 64 off 2 (by omega)
    have next := @addWide_small 64 (off + 2) (loadU16 (view.body.drop off)) (by omega)
    cases rest : decodeNames view.body left (off + 2 + loadU16 (view.body.drop off)) with
    | none =>
      rw [rest] at decoded
      cases decoded
    | some found =>
      obtain ⟨more, final⟩ := found
      rw [rest] at decoded
      cases decoded
      have later := ih (Nat.le_of_not_lt entry) rest
      rw [receiveNames, past, ← view.sized]
      simp only [Option.bind_eq_bind, Option.bind_some, header, ↓reduceIte,
        @loadU16At_inside view off (by omega), next,
        entry, printText_inside fits (Nat.le_of_not_lt entry), later, List.map_cons]

theorem untilNul_valid {name : Bytes} (valid : nameIsValid name = true) : untilNul name = name := by
  simp only [nameIsValid, Bool.and_eq_true, List.all_eq_true] at valid
  apply List.takeWhile_eq_self_iff.mpr
  intro char member
  have allowed := valid.2 char member
  rw [decide_eq_true_eq]
  rintro rfl
  cases allowed

theorem receiveList_names {names : List Bytes} (fits : view.body.length ≤ maxFrameBody)
    (decoded : decodeList view.body = some names) (valid : ∀ name ∈ names, nameIsValid name = true) :
    receiveList view = some (.ok (.names names)) := by
  unfold decodeList at decoded
  split_ifs at decoded with header
  have count := @loadU32At_inside view 0 (by omega)
  cases found : decodeNames view.body (loadU32 view.body) 4 with
  | none =>
    rw [found] at decoded
    cases decoded
  | some pair =>
    obtain ⟨listed, last⟩ := pair
    rw [found] at decoded
    simp only at decoded
    split_ifs at decoded with ends
    cases decoded
    have read := receiveNames_untilNul fits _ (Nat.le_of_not_lt header) found
    have printed : names.map untilNul = names := by
      rw [List.map_congr_left fun name member => untilNul_valid (valid name member), List.map_id']
    rw [List.drop_zero] at count
    rw [receiveList, ← view.sized, if_neg header]
    simp only [count, read, printed, ends, Option.bind_eq_bind, Option.bind_some, ↓reduceIte]

theorem kind_bind {α β : Type} {first : Option α} {next : α → Option β} {kind : β → Prop}
    (every : ∀ value, ∀ result ∈ next value, kind result) : ∀ result ∈ first >>= next, kind result := by
  intro result member
  obtain ⟨value, _, last⟩ := Option.bind_eq_some_iff.mp member
  exact every value result last

theorem kind_some {α : Type} {value : α} {kind : α → Prop} (held : kind value) :
    ∀ result ∈ some value, kind result := by
  rintro result same
  exact Option.some.inj same ▸ held

/-- The complaint, if there is one, is the client's own. -/
def Unserved (result : Except Complaint Printed) : Prop :=
  ∀ status code message, result ≠ .error (.server status code message)

/-- What is printed, if anything, is a reply of one kind. -/
structure Replies {α : Type} (make : α → Printed) (result : Except Complaint Printed) : Prop where
  unserved : Unserved result
  printed : ∀ printed, result = .ok printed → ∃ reply, printed = make reply

theorem unserved_ok (printed : Printed) : Unserved (.ok printed) := by
  intro status code message impossible
  cases impossible

theorem replies_ok {α : Type} {make : α → Printed} (reply : α) : Replies make (.ok (make reply)) := by
  refine ⟨unserved_ok _, ?_⟩
  intro printed same
  exact ⟨reply, (Except.ok.inj same).symm⟩

theorem replies_malformed {α : Type} {make : α → Printed} (what : String) (length : Nat) :
    Replies make (.error (.malformedLength what length)) := by
  constructor
  · intro status code message impossible
    cases impossible
  · intro printed impossible
    cases impossible

theorem receiveInfo_replies : ∀ result ∈ receiveInfo view, Replies Printed.info result := by
  unfold receiveInfo
  split
  · exact kind_some (replies_malformed _ _)
  · iterate 17 refine kind_bind fun _ => ?_
    split
    · exact kind_some (replies_malformed _ _)
    · iterate 4 refine kind_bind fun _ => ?_
      exact kind_some (replies_ok _)

theorem receiveStats_replies : ∀ result ∈ receiveStats view, Replies Printed.stats result := by
  unfold receiveStats expectBodyLen
  split
  · exact kind_some (replies_malformed _ _)
  · iterate 14 refine kind_bind fun _ => ?_
    exact kind_some (replies_ok _)

end Decoding

section Spec

variable {before after : Store} {cmd body : Bytes} {arguments : List Bytes} {opcode : Opcode} {request : Request}
  {response : Response} {view seen : RequestView} {complaint : Complaint}

/-- The names of the filters are those that a CREATE takes. -/
def Store.Named (store : Store) : Prop := ∀ name, store name ≠ none → nameIsValid name = true

theorem denied_of_serves (serves : before.Serves request response.header.status response.body after)
    (refused : response.header.status ≠ Status.ok.code)
    (status : ∀ status code message, complaint = .server status code message → status = response.header.status)
    (named : ∃ rest, arguments = request.target :: rest)
    (batch : ∀ name payloads, request = .madd name payloads → cmd = bytes "madd" ∧ arguments = name :: payloads) :
    before.Denied cmd arguments complaint after := by
  obtain ⟨rest, rfl⟩ := named
  refine ⟨?_, ?_, ?_⟩
  · intro changed
    cases serves.refuses refused with
    | nothing => exact absurd rfl changed
    | @madd name payloads front held present first cut =>
      obtain ⟨command, same⟩ := batch name payloads rfl
      exact ⟨name, payloads, front, held, command, same, present, first, cut, rfl⟩
  · rintro name others code message member same rfl
    obtain ⟨rfl, _⟩ := List.cons.inj same
    exact (serves.missing.mp (status _ _ _ rfl).symm).1
  · rintro name others code message command same rfl
    obtain ⟨rfl, _⟩ := List.cons.inj same
    exact serves.taken (status _ _ _ rfl).symm

/-- What the client makes of an answer that it read, for a daemon that answers as a store -/
structure Decoded (before : Store) (cmd : Bytes) (arguments : List Bytes) (result : Option (Except Complaint Printed))
    (after : Store) : Prop where
  whole : result ≠ none
  told : ∀ printed, result = some (.ok printed) → before.Told cmd arguments printed after
  denied : ∀ complaint, result = some (.error complaint) → before.Denied cmd arguments complaint after

theorem Decoded.of_told {printed : Printed} (told : before.Told cmd arguments printed after) :
    Decoded before cmd arguments (some (.ok printed)) after := by
  refine ⟨Option.some_ne_none _, ?_, ?_⟩
  · rintro _ same
    cases same
    exact told
  · rintro _ impossible
    cases impossible

theorem Decoded.of_denied (denied : before.Denied cmd arguments complaint after) :
    Decoded before cmd arguments (some (.error complaint)) after := by
  refine ⟨Option.some_ne_none _, ?_, ?_⟩
  · rintro _ impossible
    cases impossible
  · rintro _ same
    cases same
    exact denied

/-- A request that works on one filter -/
theorem decoded_of_serves (serves : before.Serves request response.header.status response.body after)
    (status : seen.header.status = response.header.status) (fits : seen.body.length ≤ maxFrameBody)
    (named : ∃ rest, arguments = request.target :: rest)
    (batch : ∀ name payloads, request = .madd name payloads → cmd = bytes "madd" ∧ arguments = name :: payloads)
    (accepted : seen.header.status = Status.ok.code → before.Accepts request response.body after →
      ∃ printed, receive seen opcode = some (.ok printed) ∧ before.Told cmd arguments printed after) :
    Decoded before cmd arguments (receive seen opcode) after := by
  by_cases fine : response.header.status = Status.ok.code
  · obtain ⟨printed, received, told⟩ := accepted (status.trans fine) (serves.accepts fine)
    rw [received]
    exact .of_told told
  · obtain ⟨complaint, received, same⟩ := @receive_refused seen opcode (status ▸ fine) fits
    rw [received]
    exact .of_denied (denied_of_serves serves fine (fun code _ _ shown => status ▸ same code _ _ shown) named batch)

/-- A request that only tells -/
theorem decoded_of_tells (tells : before.Tells view response after)
    (status : seen.header.status = response.header.status) (fits : seen.body.length ≤ maxFrameBody)
    (missing : ∀ name rest, cmd ∈ ["add", "check", "madd", "mcheck", "info", "drop"].map bytes →
      arguments = name :: rest →
      response.header.status = Status.notFound.code → before name = none)
    (made : cmd ≠ bytes "create")
    (answered : seen.header.status = Status.ok.code → ∃ result, receive seen opcode = some result ∧
      (∀ printed, result = .ok printed → before.Told cmd arguments printed before) ∧ Unserved result) :
    Decoded before cmd arguments (receive seen opcode) after := by
  have denied : ∀ complaint, (∀ status code message, complaint = .server status code message →
      status = response.header.status) → before.Denied cmd arguments complaint after := by
    intro complaint shown
    refine ⟨fun changed => absurd tells.same changed, ?_, ?_⟩
    · rintro name rest code message member same rfl
      exact missing name rest member same (shown _ _ _ rfl).symm
    · intro name rest code message command
      exact absurd command made
  by_cases fine : response.header.status = Status.ok.code
  · obtain ⟨result, received, told, unserved⟩ := answered (status.trans fine)
    rw [received]
    cases result with
    | ok printed => exact .of_told (tells.same ▸ told printed rfl)
    | error complaint =>
      apply Decoded.of_denied
      apply denied
      rintro code number message rfl
      exact absurd rfl (unserved code number message)
  · obtain ⟨complaint, received, same⟩ := @receive_refused seen opcode (status ▸ fine) fits
    rw [received]
    exact .of_denied (denied complaint fun code _ _ shown => status ▸ same code _ _ shown)

theorem Control.Asks.decoded (asks : Control.Asks cmd arguments opcode body)
    (answers : Store.Answers (view, response) before after)
    (code : view.header.opcode = opcode.code) (content : view.body = body) (named : before.Named)
    (status : seen.header.status = response.header.status) (same : seen.body = response.body)
    (fits : seen.body.length ≤ maxFrameBody) : Decoded before cmd arguments (receive seen opcode) after := by
  have serves : ∀ {request : Request}, parseRequest opcode.code body = some request →
      before.Serves request response.header.status response.body after := by
    intro request parsed
    rw [← code, ← content] at parsed
    exact (Store.answers_request parsed).mp answers
  have few : ∀ {request : Request}, parseRequest opcode.code body = some request → request.payloads.length < 2 ^ 16 :=
    fun parsed => Nat.lt_of_le_of_lt (parseRequest_few parsed) (by decide)
  have tells : parseRequest opcode.code body = none → before.Tells view response after := by
    intro unparsed
    rw [← code, ← content] at unparsed
    exact (Store.answers_other unparsed).mp answers
  cases asks with
  | ping =>
    apply decoded_of_tells (tells rfl) status fits _ (by decide)
    · intro fine
      have line := @printText_inside seen 0 seen.header.bodyLen.toNat fits (by rw [seen.sized]; omega)
      rw [receive.eq_def, if_neg (not_not.mpr fine)]
      simp only [line]
      refine ⟨_, rfl, ?_, unserved_ok _⟩
      intro printed ok
      cases ok
      exact .ping
    · intro name rest member
      exact absurd member (by decide)
  | @create fields _ _ _ _ _ typed parsed =>
    subst typed
    apply decoded_of_serves (serves parsed) status fits ⟨_, rfl⟩
    · rintro _ _ impossible
      cases impossible
    · intro fine accepts
      rw [receive.eq_def, if_neg (not_not.mpr fine)]
      generalize response.body = answer at accepts
      cases accepts with
      | create free => exact ⟨_, rfl, .create free⟩
  | add parsed =>
    apply decoded_of_serves (serves parsed) status fits ⟨_, rfl⟩
    · rintro _ _ impossible
      cases impossible
    · intro fine accepts
      rw [receive.eq_def, if_neg (not_not.mpr fine)]
      generalize response.body = answer at accepts same
      cases accepts with
      | add present => exact ⟨_, receive_single same, .add present⟩
  | check parsed =>
    apply decoded_of_serves (serves parsed) status fits ⟨_, rfl⟩
    · rintro _ _ impossible
      cases impossible
    · intro fine accepts
      rw [receive.eq_def, if_neg (not_not.mpr fine)]
      generalize response.body = answer at accepts same
      cases accepts with
      | check present reports => exact ⟨_, receive_single same, .check present reports⟩
  | madd parsed =>
    apply decoded_of_serves (serves parsed) status fits ⟨_, rfl⟩
    · rintro _ _ equal
      cases equal
      exact ⟨rfl, rfl⟩
    · intro fine accepts
      rw [receive.eq_def, if_neg (not_not.mpr fine)]
      generalize response.body = answer at accepts same
      cases accepts with
      | madd present =>
        refine ⟨_, receiveBatch_countBytes ?_ same, .madd present⟩
        rw [List.length_map]
        exact few parsed
  | mcheck parsed =>
    apply decoded_of_serves (serves parsed) status fits ⟨_, rfl⟩
    · rintro _ _ impossible
      cases impossible
    · intro fine accepts
      rw [receive.eq_def, if_neg (not_not.mpr fine)]
      generalize response.body = answer at accepts same
      cases accepts with
      | mcheck present reports =>
        refine ⟨_, receiveBatch_countBytes ?_ same, .mcheck present reports⟩
        rw [← reports.length_eq]
        exact few parsed
  | @info name _ parsed =>
    have told := tells rfl
    have shows := told.shows code name (content ▸ parsed)
    apply decoded_of_tells told status fits _ (by decide)
    · intro fine
      have found : response.header.status ≠ Status.notFound.code := by
        rw [← status, fine]
        decide
      have present : before name ≠ none := fun absent => found (shows.mpr absent)
      obtain ⟨result, received, _⟩ := exits_receiveInfo fits
      obtain ⟨unserved, replied⟩ := receiveInfo_replies result received
      rw [receive.eq_def, if_neg (not_not.mpr fine)]
      refine ⟨result, received, ?_, unserved⟩
      intro printed ok
      obtain ⟨reply, rfl⟩ := replied printed ok
      exact .info present
    · rintro other rest _ equal absent
      obtain ⟨rfl, _⟩ := List.cons.inj equal
      exact shows.mp absent
  | list =>
    have told := tells rfl
    apply decoded_of_tells told status fits _ (by decide)
    · intro fine
      obtain ⟨names, decoded, distinct, members⟩ := told.lists code (status ▸ fine)
      have valid : ∀ name ∈ names, nameIsValid name = true := fun name member => named name ((members name).mp member)
      rw [receive.eq_def, if_neg (not_not.mpr fine)]
      refine ⟨_, receiveList_names fits (same ▸ decoded) valid, ?_, unserved_ok _⟩
      rintro printed ok
      cases ok
      exact .list distinct members
    · intro name rest member
      exact absurd member (by decide)
  | drop parsed =>
    apply decoded_of_serves (serves parsed) status fits ⟨_, rfl⟩
    · rintro _ _ impossible
      cases impossible
    · intro fine accepts
      rw [receive.eq_def, if_neg (not_not.mpr fine)]
      generalize response.body = answer at accepts
      cases accepts with
      | drop present => exact ⟨_, rfl, .drop present⟩
  | stats =>
    apply decoded_of_tells (tells rfl) status fits _ (by decide)
    · intro fine
      obtain ⟨result, received, _⟩ := @exits_receiveStats seen
      obtain ⟨unserved, replied⟩ := receiveStats_replies result received
      rw [receive.eq_def, if_neg (not_not.mpr fine)]
      refine ⟨result, received, ?_, unserved⟩
      intro printed ok
      obtain ⟨reply, rfl⟩ := replied printed ok
      exact .stats
    · intro name rest member
      exact absurd member (by decide)

end Spec

section Names

variable {begun store later : Store} {entry : RequestView × Response} {history : List (RequestView × Response)}

theorem Store.Named.answers (named : store.Named) (answers : Store.Answers entry store later) : later.Named := by
  intro name present
  have stands := answers.stands name
  rw [Option.isSome_iff_ne_none.mpr present] at stands
  unfold Store.stands at stands
  split at stands
  · exact named name (Option.isSome_iff_ne_none.mp stands.symm)
  · cases parsed : parseRequest entry.1.header.opcode entry.1.body with
    | none =>
      rw [parsed] at stands
      exact named name (Option.isSome_iff_ne_none.mp stands.symm)
    | some request =>
      have valid := parseRequest_valid parsed
      rw [parsed] at stands
      cases request with
      | create fields =>
        by_cases own : fields.name = name
        · exact own ▸ valid
        · simp only [own, decide_false, Bool.false_or] at stands
          exact named name (Option.isSome_iff_ne_none.mp stands.symm)
      | drop other =>
        have held := (Bool.and_eq_true_iff.mp stands.symm).2
        exact named name (Option.isSome_iff_ne_none.mp held)
      | add | check | madd | mcheck => exact named name (Option.isSome_iff_ne_none.mp stands.symm)

theorem InPlace.named {config : Config} {daemon : Daemon} {world : World} (place : InPlace config daemon world) :
    (daemon.store world).Named := by
  obtain ⟨added, serving⟩ := place
  intro name present
  by_contra invalid
  apply present
  apply Daemon.store_eq_none.mpr
  rintro filter member rfl
  exact invalid (serving.named filter member)

namespace Server

variable {config : Config} {begun : Store} {server : Server} {streams : Nat → Bytes}
  {tagged : List (Nat × (RequestView × Response))}

theorem Recorded.named [Libm] (recorded : Recorded config begun server streams tagged) : begun.Named := by
  induction recorded with
  | start started distinct empty => exact (startup_inPlace started).1.named
  | next recorded stepped ih => exact ih

/-- `bloomctl` tells the truth. A run of it that talks to the server through a slot has at
most one request dispatched. If it comes to an answer, that request was dispatched once, as it
was typed; what is printed on exit 0 is so of the store at that time, and after a complaint
the store is as it was, or a madd has put in the first of its payloads. -/
theorem control_tells_store [Libm] [Strto] (recorded : Recorded config begun server streams tagged) {index : Nat}
    {client : Client} {socket : Socket} (there : server.clients[index]? = some (client, socket))
    {connect : Bytes → Except Errno Unit} {arguments : List Bytes} {transfers rest : List Transfer} {ending : Ending}
    {wire : Wire} (ran : Control.main connect arguments ⟨socket.outgoing, []⟩ transfers = .returned ending wire rest)
    (wrote : wire.outgoing = streams index) :
    socket.dispatched.length ≤ 1 ∧
    ∀ result, ending = .answered result → ∃ path cmd parameters early late view response before after,
      Control.socketArguments arguments = (path, cmd :: parameters) ∧
      socket.dispatched = [(view, response)] ∧ tagged = early ++ (index, view, response) :: late ∧
      Runs Store.Answers (early.map Prod.snd) begun before ∧
      Runs Store.Answers (late.map Prod.snd) after (server.daemon.store server.world) ∧
      Decoded before cmd parameters result after := by
  have explained := recorded.explained
  obtain ⟨conversing, kept⟩ := explained.slots index client socket there
  have conversed := conversing.conversed
  rcases (Control.wp_main connect arguments socket.outgoing).returned ran with ⟨silent, unanswered⟩ | exchange
  · have none := conversed.requests
    rw [← wrote, silent, requestFrames, frames_short (Nat.succ_pos 15), List.map_nil, List.prefix_nil,
      List.map_eq_nil_iff] at none
    rw [none]
    exact ⟨Nat.zero_le 1, fun result answered => absurd answered (unanswered result)⟩
  · obtain ⟨path, cmd, parameters, opcode, body, split, asks, fits, ⟨left, whole⟩, read⟩ := exchange
    have valid : headerIsValid (Transport.outHeader (Control.outgoing opcode.code 1 body)) = .ok () := by
      apply headerIsValid_iff.mpr
      refine ⟨rfl, rfl, ?_⟩
      have small : body.length < 2 ^ 32 := Nat.lt_of_le_of_lt fits (by decide)
      have same : body.length.toUInt32.toNat = body.length := Nat.mod_eq_of_lt small
      exact same.symm ▸ fits
    have front := conversed.requests.trans (Control.requestFrames_front valid fits (wrote ▸ whole))
    have once : socket.dispatched.length ≤ 1 := by
      have bound := front.length_le
      rwa [List.length_map] at bound
    refine ⟨once, ?_⟩
    intro result ended
    have known : ∀ served ∈ socket.dispatched, (index, served) ∈ tagged := by
      intro served member
      obtain ⟨entry, inside, same⟩ := List.mem_map.mp (kept.subset member)
      obtain ⟨held, own⟩ := List.mem_filter.mp inside
      have key : entry.1 = index := by simpa using own
      rw [← same, ← key]
      exact held
    obtain ⟨seen, raw, tail, rfl, size, heading, stood⟩ := read result ended
    obtain ⟨view, response, alone, header, content⟩ := Control.answer_of_read conversed.sent once
      (fun served member => explained.formed _ (known served member)) size heading seen.sized stood
    have formed := explained.formed _ (known (view, response) (alone ▸ List.mem_singleton_self _))
    obtain ⟨early, late, parts⟩ := List.append_of_mem (known (view, response) (alone ▸ List.mem_singleton_self _))
    have runs := explained.explained
    rw [parts, List.map_append, List.map_cons] at runs
    obtain ⟨before, first, runs⟩ := runs.split
    rw [alone, List.map_singleton] at front
    have asked := List.cons_prefix_cons.mp front
    cases runs with
    | next answers others =>
      refine ⟨path, cmd, parameters, early, late, view, response, before, _, split, alone, parts, first, others, ?_⟩
      have heads := Prod.mk.inj asked.1
      have named : before.Named := by
        apply first.preserves _ recorded.named
        exact fun entry _ store later answers held => held.answers answers
      have code : view.header.opcode = opcode.code := by
        rw [heads.1]
        rfl
      have bounded : seen.body.length ≤ maxFrameBody := by
        rw [content]
        exact formed.bounded
      apply asks.decoded answers code heads.2 named _ content bounded
      rw [header]
      rfl

/-- The filter x is made over one connection, and `bloomctl add x a` comes over another. -/
def controlledEvents : List Event :=
  [.accept (createFrame.header.toBytes ++ createFrame.body) true, .poll 0 [.moved 16] [], .poll 0 [.moved 99] plenty,
    .accept (Control.outgoing 3 1 payloadFields).wire true, .poll 1 [.moved 16] [], .poll 1 [.moved 9] [],
    .poll 1 [.moved 99] plenty, .poll 1 [.moved 99, .moved 99] []]

/-- What the daemon answered on the other connection -/
def addedWire : Bytes := [66, 76, 77, 49, 1, 3, 1, 0, 1, 0, 0, 0, 1, 0, 0, 0, 1]

theorem control_tells_store_add : ∃ server streams history socket client before after,
    @Recorded exactLibm demoRoots (emptyDaemon.store .empty) server streams history ∧
    server.clients[1]? = some (client, socket) ∧ socket.outgoing = addedWire ∧
    socket.dispatched.length ≤ 1 ∧ Store.Told before (bytes "add") [bytes "x", bytes "a"] (.values [1]) after := by
  have started : startup .plain demoRoots .empty plenty = .returned (.ok emptyDaemon) .empty (plenty.drop 2) := rfl
  have printed : @Control.main exactStrto (fun _ => .ok ()) [bytes "add", bytes "x", bytes "a"] ⟨addedWire, []⟩
      [.moved 7, .interrupted, .moved 99, .moved 10, .moved 99, .moved 99] =
      .returned (.answered (some (.ok (.values [1])))) ⟨[], (Control.outgoing 3 1 payloadFields).wire⟩ [] := rfl
  have ran : (@Record.run exactLibm ⟨start emptyDaemon .empty, fun _ => [], []⟩ controlledEvents).map
      (fun record => (record.server.clients[1]?.map (·.2.outgoing), record.streams 1)) =
      some (some addedWire, (Control.outgoing 3 1 payloadFields).wire) := by
    decide +kernel
  obtain ⟨record, ended, facts⟩ := Option.map_eq_some_iff.mp ran
  obtain ⟨slot, stream⟩ := Prod.mk.inj facts
  obtain ⟨pair, there, sent⟩ := Option.map_eq_some_iff.mp slot
  obtain ⟨client, socket⟩ := pair
  simp only at sent
  have recorded := @Recorded.run demoRoots (emptyDaemon.store .empty) exactLibm controlledEvents
    ⟨start emptyDaemon .empty, fun _ => [], []⟩ record
    (@Recorded.start exactLibm demoRoots _ _ _ _ _ _ started .nil (List.forall_mem_nil _)) ended
  obtain ⟨once, tells⟩ := @control_tells_store _ _ _ _ _ exactLibm exactStrto recorded 1 client socket there
    (fun _ => .ok ()) [bytes "add", bytes "x", bytes "a"] _ _ _ _ (sent.symm ▸ printed) stream.symm
  obtain ⟨path, cmd, parameters, early, late, view, response, before, after, split, _, _, _, _, decoded⟩ := tells _ rfl
  have told := decoded.told _ rfl
  have command : (path, cmd :: parameters) =
      (bytes "/run/bloomd.sock", [bytes "add", bytes "x", bytes "a"]) := split.symm
  obtain ⟨_, same⟩ := Prod.mk.inj command
  obtain ⟨rfl, rfl⟩ := List.cons.inj same
  exact ⟨record.server, record.streams, record.history, socket, client, before, after, recorded, there,
    sent, once, told⟩

end Server

end Names

end Bloomd
