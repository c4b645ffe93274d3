import Bloomd.ControlMain
import Bloomd.ControlSemantics
import Bloomd.DispatchSemantics

/-! A command of `bloomctl` that is sent is one that the daemon reads as it was typed. -/

namespace Bloomd

open CrashLogic Prog Framing

namespace Control

section Builders

variable {name payload body out data : Bytes} {items : List Bytes}

theorem bind_ok {ε α β : Type} {first : Except ε α} {next : α → Except ε β} {value : β}
    (done : first >>= next = .ok value) : ∃ middle, first = .ok middle ∧ next middle = .ok value := by
  cases first with
  | error error => cases done
  | ok middle => exact ⟨middle, rfl, done⟩

theorem append_ok (built : append body data = .ok out) :
    out = body ++ data ∧ (body.length ≤ maxFrameBody → out.length ≤ maxFrameBody) := by
  have bounded := fun fits => @bufferAppend_bounded body data fits
  unfold append at built
  cases appended : bufferAppend body data with
  | mk result after =>
    rw [appended] at bounded built
    cases result with
    | error errno => cases built
    | ok done =>
      obtain rfl := Except.ok.inj built
      refine ⟨?_, fun fits => (bounded fits).1⟩
      unfold bufferAppend at appended
      split at appended
      · rename_i none
        cases appended
        rw [List.eq_nil_of_length_eq_zero none, List.append_nil]
      · split at appended
        · cases appended
        · cases appended
          rfl

theorem appendName_ok (built : appendName body name = .ok out) :
    nameIsValid name = true ∧ append body name = .ok out := by
  unfold appendName at built
  split at built
  · cases built
  · rename_i valid
    split at built
    · cases built
    · exact ⟨by simpa using valid, built⟩

theorem buildNameRequest_ok (built : buildNameRequest name = .ok body) :
    body = nameBody name ∧ nameIsValid name = true ∧ body.length ≤ maxFrameBody := by
  obtain ⟨front, first, second⟩ := bind_ok built
  obtain ⟨rfl, fits⟩ := append_ok first
  obtain ⟨valid, last⟩ := appendName_ok second
  obtain ⟨rfl, within⟩ := append_ok last
  exact ⟨by simp [nameBody], valid, within (fits (Nat.zero_le _))⟩

theorem buildPayloadRequest_ok (built : buildPayloadRequest name payload = .ok body) :
    body = payloadBody name payload ∧ nameIsValid name = true ∧ body.length ≤ maxFrameBody := by
  unfold buildPayloadRequest at built
  split at built
  · cases built
  · obtain ⟨front, first, built⟩ := bind_ok built
    obtain ⟨named, second, third⟩ := bind_ok built
    obtain ⟨rfl, fits⟩ := append_ok first
    obtain ⟨valid, last⟩ := appendName_ok second
    obtain ⟨rfl, within⟩ := append_ok last
    obtain ⟨rfl, bounded⟩ := append_ok third
    exact ⟨by simp [payloadBody], valid, bounded (within (fits (Nat.zero_le _)))⟩

theorem appendItems_ok : appendItems items body = .ok out →
    out = body ++ itemsBody items ∧ (body.length ≤ maxFrameBody → out.length ≤ maxFrameBody) := by
  induction items generalizing body with
  | nil =>
    intro built
    obtain rfl := Except.ok.inj built
    exact ⟨by simp [itemsBody], id⟩
  | cons item rest ih =>
    intro built
    obtain ⟨counted, first, built⟩ := bind_ok built
    obtain ⟨filled, second, third⟩ := bind_ok built
    obtain ⟨rfl, fits⟩ := append_ok first
    obtain ⟨rfl, within⟩ := append_ok second
    obtain ⟨rfl, bounded⟩ := ih third
    exact ⟨by simp [itemsBody], fun start => bounded (within (fits start))⟩

theorem commandBatch_ok (built : commandBatch name items = .ok body) : body = batchBody name items ∧
    nameIsValid name = true ∧ items ≠ [] ∧ items.length ≤ maxBatchItems ∧ body.length ≤ maxFrameBody := by
  unfold commandBatch at built
  split at built
  · cases built
  · rename_i counted
    obtain ⟨front, first, built⟩ := bind_ok built
    obtain ⟨named, second, third⟩ := bind_ok built
    obtain ⟨rfl, fits⟩ := append_ok first
    obtain ⟨valid, last⟩ := appendName_ok second
    obtain ⟨rfl, within⟩ := append_ok last
    obtain ⟨rfl, bounded⟩ := appendItems_ok third
    refine ⟨by simp [batchBody], valid, ?_, by omega, bounded (within (fits (Nat.zero_le _)))⟩
    rintro rfl
    exact counted (Or.inl rfl)

theorem commandCreate_ok {fields : CreateRequest} (built : commandCreate fields = .ok body) :
    body = createBody fields ∧ nameIsValid fields.name = true ∧ body.length ≤ maxFrameBody := by
  obtain ⟨front, first, second⟩ := bind_ok built
  obtain ⟨rfl, fits⟩ := append_ok first
  obtain ⟨valid, last⟩ := appendName_ok second
  obtain ⟨rfl, within⟩ := append_ok last
  exact ⟨by simp [createBody], valid, within (fits (Nat.zero_le _))⟩

end Builders

/-- What a command asks the daemon, as the daemon reads the body that was built for it -/
inductive Asks : Bytes → List Bytes → Opcode → Bytes → Prop where
  | ping {arguments : List Bytes} : Asks (bytes "ping") arguments .ping []
  | create {fields : CreateRequest} {name capacity errorRate body : Bytes} {more : List Bytes}
      (named : fields.name = name) (parsed : parseRequest 2 body = some (.create fields)) :
      Asks (bytes "create") (name :: capacity :: errorRate :: more) .create body
  | add {name payload body : Bytes} (parsed : parseRequest 3 body = some (.add name payload)) :
      Asks (bytes "add") [name, payload] .add body
  | check {name payload body : Bytes} (parsed : parseRequest 4 body = some (.check name payload)) :
      Asks (bytes "check") [name, payload] .check body
  | madd {name body : Bytes} {payloads : List Bytes} (parsed : parseRequest 5 body = some (.madd name payloads)) :
      Asks (bytes "madd") (name :: payloads) .madd body
  | mcheck {name body : Bytes} {payloads : List Bytes} (parsed : parseRequest 6 body = some (.mcheck name payloads)) :
      Asks (bytes "mcheck") (name :: payloads) .mcheck body
  | info {name body : Bytes} (parsed : parseNameRequest "INFO" body = .ok name) : Asks (bytes "info") [name] .info body
  | list {arguments : List Bytes} : Asks (bytes "list") arguments .list []
  | drop {name body : Bytes} (parsed : parseRequest 9 body = some (.drop name)) : Asks (bytes "drop") [name] .drop body
  | stats {arguments : List Bytes} : Asks (bytes "stats") arguments .stats []

section Requests

variable {name payload body cmd : Bytes} {items arguments : List Bytes} {opcode : Opcode}

theorem built_ok {outcome : Except Errno Bytes} {result : Opcode × Bytes} (done : built opcode outcome = .ok result) :
    result.1 = opcode ∧ outcome = .ok result.2 := by
  cases outcome with
  | error errno => cases done
  | ok body =>
    cases done
    exact ⟨rfl, rfl⟩

theorem parsed_payload (done : buildPayloadRequest name payload = .ok body) :
    (parseNamePayload body).toOption = some (name, payload) ∧ body.length ≤ maxFrameBody := by
  obtain ⟨rfl, valid, fits⟩ := buildPayloadRequest_ok done
  refine ⟨?_, fits⟩
  rw [parseNamePayload_payloadBody valid]
  · rfl
  · simp only [payloadBody, List.length_append, maxFrameBody] at fits
    omega

theorem parsed_batch (done : commandBatch name items = .ok body) :
    parseItems body = some (name, items) ∧ body.length ≤ maxFrameBody := by
  obtain ⟨rfl, valid, some, few, fits⟩ := commandBatch_ok done
  refine ⟨?_, fits⟩
  have small : (itemsBody items).length ≤ maxFrameBody := by
    simp only [batchBody, List.length_append] at fits
    omega
  simp only [parseItems, parseBatch_batchBody valid some few, Except.toOption, Option.bind_some,
    payloads_itemsBody name small, Option.map_some]

theorem parsed_items {payloads : List Bytes} (make : Bytes → List Bytes → Request)
    (read : parseItems body = some (name, payloads)) :
    ((parseBatch body).toOption.bind fun batch => batch.payloads.map (make batch.name)) =
      some (make name payloads) := by
  obtain ⟨batch, accepted, taken⟩ := Option.bind_eq_some_iff.mp read
  obtain ⟨items, decoded, same⟩ := Option.map_eq_some_iff.mp taken
  cases same
  rw [accepted, Option.bind_some, decoded, Option.map_some]

theorem parsed_name (operation : String) (done : buildNameRequest name = .ok body) :
    parseNameRequest operation body = .ok name ∧ body.length ≤ maxFrameBody := by
  obtain ⟨rfl, valid, fits⟩ := buildNameRequest_ok done
  exact ⟨parseNameRequest_nameBody operation valid, fits⟩

theorem parsed_fields {fields : CreateRequest} (done : commandCreate fields = .ok body)
    (capacity : fields.capacity < 2 ^ 64)
    (hashes : fields.hashes < 2 ^ 32) : parseRequest 2 body = some (.create fields) ∧ body.length ≤ maxFrameBody := by
  obtain ⟨rfl, valid, fits⟩ := commandCreate_ok done
  refine ⟨?_, fits⟩
  have parsed := parseCreate_createBody valid capacity hashes
  simp only [parseRequest]
  exact congrArg (fun result => result.toOption.map Request.create) parsed

theorem parsed_create [Strto] {capacity errorRate : Bytes} {hashes : Option Bytes}
    (done : commandCreateArgs name capacity errorRate hashes = .ok body) : body.length ≤ maxFrameBody ∧
    ∃ fields : CreateRequest, fields.name = name ∧ parseRequest 2 body = some (.create fields) := by
  unfold commandCreateArgs at done
  cases hashes with
  | none =>
    obtain ⟨parsed, fits⟩ := parsed_fields done (UInt64.toNat_lt _) (Nat.two_pow_pos 32)
    exact ⟨fits, _, rfl, parsed⟩
  | some text =>
    obtain ⟨parsed, fits⟩ := parsed_fields done (UInt64.toNat_lt _) (Nat.mod_lt _ (Nat.two_pow_pos 32))
    exact ⟨fits, _, rfl, parsed⟩

/-- What ends the client before it has a request is no answer. -/
def Early (outcome : Except Ending (Opcode × Bytes)) : Prop :=
  ∀ ending, outcome = .error ending → ∀ result, ending ≠ .answered result

theorem early_ite {condition : Prop} [Decidable condition] {first second : Except Ending (Opcode × Bytes)}
    (left : Early first) (right : Early second) : Early (if condition then first else second) := by
  by_cases holds : condition
  · rw [if_pos holds]
    exact left
  · rw [if_neg holds]
    exact right

theorem early_ok (made : Opcode × Bytes) : Early (.ok made) := by
  intro ending impossible
  cases impossible

theorem early_usage (text : String) : Early (.error (.usage text)) := by
  intro ending same
  cases same
  exact fun result => Ending.noConfusion

theorem early_built (opcode : Opcode) (outcome : Except Errno Bytes) : Early (built opcode outcome) := by
  intro ending same
  cases outcome with
  | ok body => cases same
  | error errno =>
    cases same
    exact fun result => Ending.noConfusion

theorem request_early [Strto] (cmd : Bytes) (arguments : List Bytes) : Early (request cmd arguments) := by
  unfold request
  refine early_ite (early_ok _) (early_ite ?_ (early_ite ?_ (early_ite ?_ (early_ite ?_ (early_ite ?_ (early_ite ?_
    (early_ite (early_ok _) (early_ite ?_ (early_ite (early_ok _) ?_)))))))))
  iterate 7
    · split
      · exact early_built _ _
      · exact early_usage _
  · intro ending same
    cases same
    exact fun result => Ending.noConfusion

/-- A command that is sent is one that the daemon reads as it was typed. -/
theorem request_asks [Strto] (done : request cmd arguments = .ok (opcode, body)) :
    Asks cmd arguments opcode body ∧ body.length ≤ maxFrameBody := by
  unfold request at done
  by_cases ping : cmd = bytes "ping"
  · subst ping
    rw [if_pos rfl] at done
    cases done
    exact ⟨.ping, Nat.zero_le _⟩
  rw [if_neg ping] at done
  by_cases create : cmd = bytes "create"
  · subst create
    rw [if_pos rfl] at done
    split at done
    · obtain ⟨rfl, made⟩ := built_ok done
      obtain ⟨fits, fields, named, parsed⟩ := parsed_create made
      exact ⟨.create named parsed, fits⟩
    · cases done
  rw [if_neg create] at done
  by_cases add : cmd = bytes "add"
  · subst add
    rw [if_pos rfl] at done
    split at done
    · obtain ⟨rfl, made⟩ := built_ok done
      obtain ⟨parsed, fits⟩ := parsed_payload made
      refine ⟨.add ?_, fits⟩
      simp only [parseRequest, parsed]
      rfl
    · cases done
  rw [if_neg add] at done
  by_cases check : cmd = bytes "check"
  · subst check
    rw [if_pos rfl] at done
    split at done
    · obtain ⟨rfl, made⟩ := built_ok done
      obtain ⟨parsed, fits⟩ := parsed_payload made
      refine ⟨.check ?_, fits⟩
      simp only [parseRequest, parsed]
      rfl
    · cases done
  rw [if_neg check] at done
  by_cases madd : cmd = bytes "madd"
  · subst madd
    rw [if_pos rfl] at done
    split at done
    · obtain ⟨rfl, made⟩ := built_ok done
      obtain ⟨parsed, fits⟩ := parsed_batch made
      exact ⟨.madd (parsed_items .madd parsed), fits⟩
    · cases done
  rw [if_neg madd] at done
  by_cases mcheck : cmd = bytes "mcheck"
  · subst mcheck
    rw [if_pos rfl] at done
    split at done
    · obtain ⟨rfl, made⟩ := built_ok done
      obtain ⟨parsed, fits⟩ := parsed_batch made
      exact ⟨.mcheck (parsed_items .mcheck parsed), fits⟩
    · cases done
  rw [if_neg mcheck] at done
  by_cases info : cmd = bytes "info"
  · subst info
    rw [if_pos rfl] at done
    split at done
    · obtain ⟨rfl, made⟩ := built_ok done
      obtain ⟨parsed, fits⟩ := parsed_name "INFO" made
      exact ⟨.info parsed, fits⟩
    · cases done
  rw [if_neg info] at done
  by_cases list : cmd = bytes "list"
  · subst list
    rw [if_pos rfl] at done
    cases done
    exact ⟨.list, Nat.zero_le _⟩
  rw [if_neg list] at done
  by_cases drop : cmd = bytes "drop"
  · subst drop
    rw [if_pos rfl] at done
    split at done
    · obtain ⟨rfl, made⟩ := built_ok done
      obtain ⟨parsed, fits⟩ := parsed_name "DROP" made
      refine ⟨.drop ?_, fits⟩
      simp only [parseRequest, parsed]
      rfl
    · cases done
  rw [if_neg drop] at done
  by_cases stats : cmd = bytes "stats"
  · subst stats
    rw [if_pos rfl] at done
    cases done
    exact ⟨.stats, Nat.zero_le _⟩
  rw [if_neg stats] at done
  cases done

end Requests

end Control

end Bloomd
