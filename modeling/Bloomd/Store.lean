import Bloomd.AnswerSemantics
import Bloomd.CrashLogic.History
import Mathlib.Data.Set.Basic

/-! What a daemon is for: a store of filters by name. A filter is the set of the digests
that it is bound to report. An answer may report more of them as present, never fewer. -/

namespace Bloomd

open CrashLogic

/-- The filters by name, each with the digests that it is bound to report -/
abbrev Store := Bytes → Option (Set Digest)

/-- The results of a lookup: one byte for each payload, set for every payload that is held -/
abbrev Reports (held : Set Digest) (payloads : List Bytes) (results : Bytes) : Prop :=
  List.Forall₂ (fun payload result => (result = 0 ∨ result = 1) ∧ (digestPayload payload ∈ held → result = 1))
    payloads results

namespace Store

/-- A filter that holds `held` takes in some digests. -/
def put (store : Store) (name : Bytes) (held : Set Digest) (digests : List Digest) : Store :=
  Function.update store name (some (held ∪ {digest | digest ∈ digests}))

/-- A request that is answered OK: the body of the answer, and the store after it -/
inductive Accepts (store : Store) : Request → Bytes → Store → Prop where
  | create {fields : CreateRequest} (free : store fields.name = none) :
      Accepts store (.create fields) [] (Function.update store fields.name (some ∅))
  | add {name payload : Bytes} {held : Set Digest} (present : store name = some held) :
      Accepts store (.add name payload) [1] (put store name held [digestPayload payload])
  | madd {name : Bytes} {payloads : List Bytes} {held : Set Digest} (present : store name = some held) :
      Accepts store (.madd name payloads) (countBytes (payloads.map fun _ => 1))
        (put store name held (payloads.map digestPayload))
  | check {name payload : Bytes} {held : Set Digest} {result : UInt8} (present : store name = some held)
      (reports : Reports held [payload] [result]) : Accepts store (.check name payload) [result] store
  | mcheck {name results : Bytes} {payloads : List Bytes} {held : Set Digest} (present : store name = some held)
      (reports : Reports held payloads results) : Accepts store (.mcheck name payloads) (countBytes results) store
  | drop {name : Bytes} {held : Set Digest} (present : store name = some held) :
      Accepts store (.drop name) [] (Function.update store name none)

/-- What a request that is answered with an error leaves: only a MADD may have put in the
first of its payloads. -/
inductive Refuses (store : Store) : Request → Store → Prop where
  | nothing {request : Request} : Refuses store request store
  | madd {name : Bytes} {payloads front : List Bytes} {held : Set Digest} (present : store name = some held)
      (first : front <+: payloads) (cut : front.length < payloads.length) :
      Refuses store (.madd name payloads) (put store name held (front.map digestPayload))

/-- An answer to a request that works on one filter -/
structure Serves (store : Store) (request : Request) (status : UInt8) (body : Bytes) (later : Store) : Prop where
  accepts : status = Status.ok.code → Accepts store request body later
  refuses : status ≠ Status.ok.code → Refuses store request later
  missing : status = Status.notFound.code ↔ store request.target = none ∧ ∀ fields, request ≠ .create fields
  taken : status = Status.exists.code → store request.target ≠ none

/-- An answer to any other frame: INFO and LIST tell which filters there are. -/
structure Tells (store : Store) (view : RequestView) (response : Response) (later : Store) : Prop where
  same : later = store
  lists : view.header.opcode = 8 → response.header.status = Status.ok.code →
    ∃ names, decodeList response.body = some names ∧ names.Nodup ∧ ∀ name, name ∈ names ↔ store name ≠ none
  shows : view.header.opcode = 7 → ∀ name, parseNameRequest "INFO" view.body = .ok name →
    (response.header.status = Status.notFound.code ↔ store name = none)

/-- A frame and its answer -/
def Answers (entry : RequestView × Response) (store later : Store) : Prop :=
  match parseRequest entry.1.header.opcode entry.1.body with
  | none => Tells store entry.1 entry.2 later
  | some request => Serves store request entry.2.header.status entry.2.body later

variable {store later : Store} {view : RequestView} {response : Response}

theorem answers_request {request : Request} (parsed : parseRequest view.header.opcode view.body = some request) :
    Answers (view, response) store later ↔ store.Serves request response.header.status response.body later := by
  simp only [Answers, parsed]

theorem answers_other (unparsed : parseRequest view.header.opcode view.body = none) :
    Answers (view, response) store later ↔ store.Tells view response later := by
  simp only [Answers, unparsed]

end Store

/-- The request puts the payload into the filter. -/
inductive Request.Puts (name payload : Bytes) : Request → Prop where
  | add : Request.Puts name payload (.add name payload)
  | madd {payloads : List Bytes} (member : payload ∈ payloads) : Request.Puts name payload (.madd name payloads)

/-- The answer to a lookup reports the payload as present. -/
structure Reveals (name payload : Bytes) (request : Request) (body : Bytes) : Prop where
  check : request = .check name payload → body = [1]
  mcheck : ∀ payloads, request = .mcheck name payloads → ∃ results : Bytes, body = countBytes results ∧
    results.length = payloads.length ∧ ∀ index : Nat, payloads[index]? = some payload → results[index]? = some 1

namespace Store

/-- The filter is bound to report the digest. -/
def Holds (store : Store) (name : Bytes) (digest : Digest) : Prop := ∃ held, store name = some held ∧ digest ∈ held

variable {store later : Store} {entry : RequestView × Response} {request : Request} {name payload : Bytes}
    {digest : Digest}

theorem holds_put {held : Set Digest} {other : Bytes} {digests : List Digest} (present : store other = some held)
    (holds : store.Holds name digest) : (store.put other held digests).Holds name digest := by
  obtain ⟨inside, known, member⟩ := holds
  by_cases own : name = other
  · subst own
    obtain rfl := Option.some.inj (present.symm.trans known)
    exact ⟨_, Function.update_self _ _ _, Or.inl member⟩
  · exact ⟨inside, (Function.update_of_ne own _ _).trans known, member⟩

/-- Only a DROP takes a digest away. -/
theorem Accepts.holds {body : Bytes} (accepts : store.Accepts request body later) (holds : store.Holds name digest)
    (undropped : request ≠ .drop name) : later.Holds name digest := by
  obtain ⟨held, known, member⟩ := holds
  cases accepts with
  | create free =>
    refine ⟨held, ?_, member⟩
    rw [Function.update_of_ne, known]
    rintro rfl
    rw [known] at free
    cases free
  | add present => exact holds_put present ⟨held, known, member⟩
  | madd present => exact holds_put present ⟨held, known, member⟩
  | check present reports => exact ⟨held, known, member⟩
  | mcheck present reports => exact ⟨held, known, member⟩
  | drop present =>
    refine ⟨held, ?_, member⟩
    rw [Function.update_of_ne, known]
    rintro rfl
    exact undropped rfl

theorem Refuses.holds (refuses : store.Refuses request later) (holds : store.Holds name digest) :
    later.Holds name digest := by
  cases refuses with
  | nothing => exact holds
  | madd present first cut => exact holds_put present holds

theorem Answers.holds (answers : Answers entry store later) (holds : store.Holds name digest)
    (undropped : parseRequest entry.1.header.opcode entry.1.body = some (.drop name) →
      entry.2.header.status ≠ Status.ok.code) : later.Holds name digest := by
  cases parsed : parseRequest entry.1.header.opcode entry.1.body with
  | none => exact ((answers_other parsed).mp answers).same ▸ holds
  | some request =>
    have serves := (answers_request parsed).mp answers
    by_cases done : entry.2.header.status = Status.ok.code
    · apply (serves.accepts done).holds holds
      rintro rfl
      exact undropped parsed done
    · exact (serves.refuses done).holds holds

theorem reports_at {held : Set Digest} {payloads : List Bytes} {results : Bytes}
    (reports : Reports held payloads results)
    {index : Nat} (there : payloads[index]? = some payload) : ∃ result, results[index]? = some result ∧
      (result = 0 ∨ result = 1) ∧ (digestPayload payload ∈ held → result = 1) := by
  induction reports generalizing index with
  | nil => cases there
  | @cons _ result _ _ first rest ih =>
    cases index with
    | zero =>
      obtain rfl := Option.some.inj there
      exact ⟨result, rfl, first⟩
    | succ index => exact ih there

/-- What is acknowledged is in the filter. -/
theorem Serves.puts {status : UInt8} {body : Bytes} (serves : store.Serves request status body later)
    (puts : request.Puts name payload) (done : status = Status.ok.code) :
    later.Holds name (digestPayload payload) := by
  have accepts := serves.accepts done
  cases puts with
  | add =>
    cases accepts with
    | add present => exact ⟨_, Function.update_self _ _ _, Or.inr (List.mem_singleton_self _)⟩
  | madd member =>
    cases accepts with
    | madd present => exact ⟨_, Function.update_self _ _ _, Or.inr (List.mem_map_of_mem member)⟩

/-- What is in the filter is found. -/
theorem Serves.finds {status : UInt8} {body : Bytes} (serves : store.Serves request status body later)
    (holds : store.Holds name (digestPayload payload)) (done : status = Status.ok.code) :
    Reveals name payload request body := by
  have accepts := serves.accepts done
  obtain ⟨held, known, member⟩ := holds
  constructor
  · rintro rfl
    cases accepts with
    | check present reports =>
      obtain rfl := Option.some.inj (present.symm.trans known)
      cases reports with
      | cons first rest => rw [first.2 member]
  · rintro payloads rfl
    cases accepts with
    | mcheck present reports =>
      rename_i results held'
      obtain rfl := Option.some.inj (present.symm.trans known)
      refine ⟨results, rfl, reports.length_eq.symm, ?_⟩
      intro index there
      obtain ⟨result, found, _, set⟩ := reports_at reports there
      rw [found, set member]

/-- Whether there is a filter of the name after an entry of the history, if it is known
whether there was one before -/
def stands (name : Bytes) (known : Bool) (entry : RequestView × Response) : Bool :=
  if entry.2.header.status ≠ Status.ok.code then known
  else
    match parseRequest entry.1.header.opcode entry.1.body with
    | some (.create fields) => fields.name = name || known
    | some (.drop other) => other ≠ name && known
    | _ => known

/-- Whether there is a filter of the name after a history -/
def standing (store : Store) (history : List (RequestView × Response)) (name : Bytes) : Bool :=
  history.foldl (stands name) (store name).isSome

theorem isSome_put {held : Set Digest} {other : Bytes} {digests : List Digest} (present : store other = some held) :
    (store.put other held digests name).isSome = (store name).isSome := by
  by_cases own : name = other
  · subst own
    rw [put, Function.update_self, present]
    rfl
  · rw [put, Function.update_of_ne own]

/-- Only an acknowledged CREATE or DROP changes which filters there are. -/
theorem Answers.stands (answers : Answers entry store later) (name : Bytes) :
    (later name).isSome = Store.stands name (store name).isSome entry := by
  unfold Store.stands
  cases parsed : parseRequest entry.1.header.opcode entry.1.body with
  | none =>
    rw [((answers_other parsed).mp answers).same]
    split <;> rfl
  | some request =>
    have serves := (answers_request parsed).mp answers
    by_cases done : entry.2.header.status = Status.ok.code
    · rw [if_neg (not_not_intro done)]
      have accepts := serves.accepts done
      generalize entry.2.body = body at accepts
      cases accepts with
      | @create fields free =>
        by_cases own : name = fields.name
        · subst own
          rw [Function.update_self]
          simp
        · rw [Function.update_of_ne own]
          simp [Ne.symm own]
      | add present => exact isSome_put present
      | madd present => exact isSome_put present
      | check present reports => rfl
      | mcheck present reports => rfl
      | @drop other held present =>
        by_cases own : name = other
        · subst own
          rw [Function.update_self]
          simp
        · rw [Function.update_of_ne own]
          simp [Ne.symm own]
    · rw [if_pos done]
      cases serves.refuses done with
      | nothing => rfl
      | madd present first cut => exact isSome_put present

theorem isSome_of_runs {begun last : Store} {history : List (RequestView × Response)}
    (runs : Runs Answers history begun last) (name : Bytes) : (last name).isSome = begun.standing history name := by
  induction runs with
  | done state => rfl
  | next first others ih => rw [ih, standing, first.stands name, standing, List.foldl_cons]

end Store

end Bloomd
