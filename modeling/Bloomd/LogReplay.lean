import Bloomd.CrashLogic.Retry
import Bloomd.LogSemantics

/-! The replay of an arbitrary log file, whatever way its reads are cut into short
counts and put off by signals. -/

namespace Bloomd

open CrashLogic Prog

/-- A transfer may be cut to a positive count or put off, but it does not fail. -/
def Answer.Cut (answer : Answer) : Prop := (∀ fault, answer ≠ .fail fault) ∧ answer ≠ .count 0

/-- Signals do not put a transfer off for ever. -/
abbrev CutTransfers (answers : Nat → Answer) : Prop := Patient Answer.Cut (· ≠ .interrupted) answers

abbrev Settles (prog : Sys α) (post : α → World → Prop) (world : World) : Prop :=
  Prog.Settles Answer.Cut (· ≠ .interrupted) prog post world

section Scan

variable {κ : Type}

/-- How the record loop of `log_replay_impl` ends -/
inductive ScanEnd where
  | failed (errno : Errno)
  | ended (count : Nat) (partialDigest : Bytes)
  | refused

/-- The record loop of `log_replay_impl` up to the end of the file -/
def scanRecord (path : Bytes) (callback : Digest → κ → Sys (Bool × κ)) :
    Nat × κ → Sys ((Nat × κ) ⊕ (ScanEnd × κ)) := fun (count, context) => do
  match ← readDigest path (count * digestSize) with
  | .failed errno => pure (.inr (.failed errno, context))
  | .eof partialDigest => pure (.inr (.ended count partialDigest, context))
  | .digest digest => do
    let (accepted, context) ← callback digest context
    if accepted then pure (.inl (count + 1, context)) else pure (.inr (.refused, context))

/-- What `log_replay_impl` does after its record loop -/
def finishScan (path : Bytes) (truncatePartial : Bool) : ScanEnd × κ → Sys (Except Errno Nat × κ)
  | (.failed errno, context) => pure (.error errno, context)
  | (.refused, context) => pure (.error .einval, context)
  | (.ended count partialDigest, context) =>
    if partialDigest = [] then pure (.ok count, context)
    else if truncatePartial then do
      match ← sysTruncate path (count * digestSize) with
      | .error errno => pure (.error errno, context)
      | .ok () => pure (.ok count, context)
    else pure (.ok count, context)

theorem logReplayImpl_eq (path : Bytes) (callback : Digest → κ → Sys (Bool × κ)) (context : κ)
    (truncatePartial : Bool) :
    logReplayImpl path callback context truncatePartial = (sysOpenRead path >>= fun opened => match opened with
      | .error errno => pure (.error errno, context)
      | .ok () => Prog.loop (scanRecord path callback) (0, context) >>= finishScan path truncatePartial) := by
  unfold logReplayImpl
  congr 1
  funext opened
  cases opened with
  | error errno => rfl
  | ok done =>
    simp only
    rw [← loop_bind]
    congr 1
    funext current
    obtain ⟨count, context⟩ := current
    simp only [scanRecord, bind_assoc]
    congr 1
    funext read
    cases read with
    | failed errno => rfl
    | eof partialDigest =>
      simp only [pure_bind, finishScan]
      split
      · rfl
      · split
        · simp only [bind_assoc]
          congr 1
          funext cut
          cases cut <;> rfl
        · rfl
    | digest digest =>
      simp only [bind_assoc]
      congr 1
      funext answered
      obtain ⟨accepted, context⟩ := answered
      cases accepted <;> rfl

end Scan

/-- The callback of a replay that notes each digest it is given, and refuses one
that `accept` refuses after the digests before it -/
def watch (accept : List Digest → Digest → Bool) (digest : Digest) (seen : List Digest) : Sys (Bool × List Digest) :=
  pure (accept seen digest, seen ++ [digest])

/-- Each of the digests was accepted after those before it. -/
def Accepts (accept : List Digest → Digest → Bool) (digests : List Digest) : Prop :=
  ∀ front digest back, digests = front ++ digest :: back → accept front digest = true

section Watch

variable {accept : List Digest → Digest → Bool} {seen front other later rest : List Digest} {digest given : Digest}

theorem accepts_nil : Accepts accept [] := by
  intro front digest back split
  cases front with
  | nil => cases split
  | cons head tail => cases split

theorem Accepts.snoc (accepts : Accepts accept seen) (accepted : accept seen digest = true) :
    Accepts accept (seen ++ [digest]) := by
  intro front given back split
  rcases List.eq_nil_or_concat back with rfl | ⟨init, last, rfl⟩
  · obtain ⟨rfl, same⟩ := List.append_inj' split rfl
    obtain rfl := List.cons.inj same |>.1
    exact accepted
  · rw [List.concat_eq_append, ← List.cons_append, ← List.append_assoc] at split
    obtain ⟨rfl, _⟩ := List.append_inj' split rfl
    exact accepts front given init rfl

/-- The first refused digest is found in one place only. -/
theorem first_refused_unique (accepts : Accepts accept front) (refused : accept front digest = false)
    (accepts' : Accepts accept other) (refused' : accept other given = false)
    (same : front ++ digest :: later = other ++ given :: rest) : front = other ∧ digest = given := by
  rcases List.append_eq_append_iff.mp same with ⟨middle, rfl, tail⟩ | ⟨middle, rfl, tail⟩
  · cases middle with
    | nil =>
      rw [List.nil_append] at tail
      obtain ⟨rfl, rfl⟩ := List.cons.inj tail
      exact ⟨(List.append_nil _).symm, rfl⟩
    | cons head middle =>
      obtain ⟨rfl, rfl⟩ := List.cons.inj tail
      rw [accepts' front digest middle rfl] at refused
      cases refused
  · cases middle with
    | nil =>
      rw [List.nil_append] at tail
      obtain ⟨rfl, rfl⟩ := List.cons.inj tail
      exact ⟨List.append_nil _, rfl⟩
    | cons head middle =>
      obtain ⟨rfl, rfl⟩ := List.cons.inj tail
      rw [accepts other given middle rfl] at refused'
      cases refused'

end Watch

section Replay

variable {world : World} {path : Bytes} {log : LogFile}

theorem settles_readDigest (present : world.logAt path = some log) (position : Nat) :
    Settles (readDigest path position)
      (fun result after => after = world ∧ match result with
        | .digest digest => (log.data.drop position).take digestSize = digest.val
        | .eof rest => rest = log.data.drop position ∧ rest.length < digestSize
        | .failed _ => False) world := by
  apply settles_retry (fun got middle => middle = world ∧ got.length < digestSize ∧
    got = (log.data.drop position).take got.length) (fun got => digestSize - got.length)
  · rintro got middle ⟨rfl, short, sofar⟩
    right
    intro answer cut
    have there : ((middle.logAt path).map LogFile.data).getD [] = log.data := by rw [present]; rfl
    have room : 0 < digestSize - got.length := by omega
    have moves : (∃ want, 0 < want ∧ want ≤ digestSize - got.length ∧ ∀ answers,
        sysRead path (position + got.length) (digestSize - got.length) middle (answer :: answers) =
          .returned (.moved (((log.data.drop position).drop got.length).take want)) middle answers) ∨
        answer = .interrupted := by
      simp only [sysRead, call, there, ← List.drop_drop]
      cases answer with
      | interrupted => exact Or.inr rfl
      | fail fault => exact absurd rfl (cut.1 fault)
      | count n => exact Or.inl ⟨min (max n 1) (digestSize - got.length), by omega, Nat.min_le_right _ _, fun _ => rfl⟩
      | ok => exact Or.inl ⟨_, room, le_rfl, fun _ => rfl⟩
      | time now => exact Or.inl ⟨_, room, le_rfl, fun _ => rfl⟩
    rcases moves with ⟨want, positive, bound, moved⟩ | rfl
    · have spec := takeMore_spec short sofar positive bound
      refine ⟨takeMore got (((log.data.drop position).drop got.length).take want), middle, fun answers => ?_, ?_⟩
      · change (sysRead path _ _ >>= _) middle _ = _
        rw [bind_apply, moved]
        rfl
      · generalize takeMore got _ = taken at spec
        match taken, spec with
        | .inl next, spec =>
          have less : digestSize - next.length < digestSize - got.length := by omega
          exact ⟨⟨rfl, spec.1, spec.2.1⟩, le_of_lt less, fun _ => less⟩
        | .inr (.digest digest), spec => exact ⟨rfl, spec⟩
        | .inr (.eof rest), spec => exact ⟨rfl, spec⟩
        | .inr (.failed errno), spec => exact spec.elim
    · exact ⟨.inl got, middle, fun _ => rfl, ⟨rfl, short, sofar⟩, le_rfl, fun easy => absurd rfl easy⟩
  · exact ⟨rfl, by decide, by simp⟩

/-- The record loop gives the records of the file to the callback, up to the first
one that is refused. -/
inductive Scanned (accept : List Digest → Digest → Bool) (data : Bytes) : ScanEnd × List Digest → Prop where
  | ended (accepts : Accepts accept (Framing.records digestSize data)) :
    Scanned accept data (.ended (Framing.records digestSize data).length
      (data.drop ((Framing.records digestSize data).length * digestSize)), Framing.records digestSize data)
  | refused (front : List Digest) (digest : Digest) (later : List Digest)
      (divided : Framing.records digestSize data = front ++ digest :: later) (accepts : Accepts accept front)
      (refusal : accept front digest = false) : Scanned accept data (.refused, front ++ [digest])

theorem settles_scan (present : world.logAt path = some log) (accept : List Digest → Digest → Bool) :
    Settles (Prog.loop (scanRecord path (watch accept)) (0, []))
      (fun result after => after = world ∧ Scanned accept log.data result) world := by
  let ready (current : Nat × List Digest) (middle : World) : Prop := middle = world ∧ current.1 = current.2.length ∧
    Accepts accept current.2 ∧ ∃ later, Framing.records digestSize log.data = current.2 ++ later
  apply settles_loop ready fun current => (Framing.records digestSize log.data).length - current.1
  · rintro ⟨count, seen⟩ middle next after rest
    have waiting : readDigest path (count * digestSize) middle [] = .crashed middle := by
      rw [readDigest, loop_eq]
      simp [bind_apply, sysRead, call]
    simp [scanRecord, bind_apply, waiting]
  · rintro ⟨count, seen⟩ middle ⟨rfl, counted, accepts, later, divided⟩
    obtain rfl : count = seen.length := counted
    apply settles_bind
    apply (settles_readDigest present _).mono
    rintro result after ⟨rfl, read⟩
    cases result with
    | failed errno => exact read.elim
    | eof rest =>
      obtain ⟨rfl, short⟩ := read
      obtain rfl := records_end divided short
      rw [List.append_nil] at divided
      apply settles_pure
      have ended : Scanned accept log.data _ := .ended (divided ▸ accepts)
      rw [divided] at ended
      exact ⟨rfl, ended⟩
    | digest digest =>
      obtain ⟨rest, rfl⟩ := records_next divided read
      simp only [watch, pure_bind]
      by_cases accepted : accept seen digest = true
      · rw [if_pos accepted]
        apply settles_pure
        refine ⟨⟨rfl, ?_, accepts.snoc accepted, rest, ?_⟩, ?_⟩
        · rw [List.length_append, List.length_singleton]
        · rw [divided, List.append_assoc, List.singleton_append]
        · rw [divided]
          simp only [List.length_append, List.length_cons]
          omega
      · rw [if_neg accepted]
        apply settles_pure
        exact ⟨rfl, .refused seen digest rest divided accepts (Bool.eq_false_iff.mpr accepted)⟩
  · exact ⟨rfl, rfl, accepts_nil, _, rfl⟩

/-- The answers to the calls of a replay: its open, as many reads as it makes, and
`closing` for its truncation -/
def ReplayEnds (replay : Sys α) (reads : Nat → Answer) (closing : List Answer) (world : World) (value : α)
    (after : World) : Prop :=
  ∃ used, ∀ rest, replay world (.ok :: (supplied reads used ++ (closing ++ rest))) = .returned value after rest

/-- The answer for the truncation of a torn record, if there is one -/
def tornClosing (data : Bytes) : List Answer := if data.length % digestSize = 0 then [] else [.ok]

variable {reads : Nat → Answer}

/-- What comes before the end of the record loop is the same for both replays. -/
theorem replayEnds_impl (present : world.logAt path = some log) (cut : CutTransfers reads)
    (accept : List Digest → Digest → Bool) : ∃ result, Scanned accept log.data result ∧
      ∀ truncatePartial closing value after, (∀ rest, finishScan path truncatePartial result world (closing ++ rest) =
          .returned value after rest) →
        ReplayEnds (logReplayImpl path (watch accept) [] truncatePartial) reads closing world value after := by
  obtain ⟨used, result, after, ⟨rfl, scanned⟩, run⟩ := (settles_scan present accept).run reads cut
  refine ⟨result, scanned, fun truncatePartial closing value later finishes => ⟨used, fun rest => ?_⟩⟩
  have opens : ∀ answers, sysOpenRead path after (.ok :: answers) = .returned (.ok ()) after answers := by
    intro answers
    simp [sysOpenRead, attempt, call, Answer.refusal, present]
  rw [logReplayImpl_eq, bind_apply, opens]
  simp only [bind_apply, run]
  exact finishes rest

theorem drop_records_eq_nil (data : Bytes) :
    data.drop ((Framing.records digestSize data).length * digestSize) = [] ↔ data.length % digestSize = 0 := by
  rw [Framing.length_records digestSize_pos, List.drop_eq_nil_iff]
  have parts := Nat.div_add_mod data.length digestSize
  rw [Nat.mul_comm] at parts
  omega

/-- A replay that accepts every record leaves the file as it is, unless it cuts off
a torn one. -/
theorem replayEnds_accepting (present : world.logAt path = some log) (cut : CutTransfers reads)
    (truncatePartial : Bool) (kept : truncatePartial = false ∨ log.data.length % digestSize = 0) :
    ReplayEnds (logReplayImpl path (watch fun _ _ => true) [] truncatePartial) reads [] world
      (.ok (Framing.records digestSize log.data).length, Framing.records digestSize log.data) world := by
  obtain ⟨result, scanned, closes⟩ := replayEnds_impl present cut fun _ _ => true
  apply closes
  intro rest
  cases scanned with
  | refused front digest later divided accepts refusal => cases refusal
  | ended accepts =>
    rcases kept with rfl | whole
    · simp [finishScan, pure_apply]
    · simp [finishScan, pure_apply, (drop_records_eq_nil log.data).mpr whole]

/-- The torn record behind the others is cut off. -/
theorem replayEnds_truncating (present : world.logAt path = some log) (cut : CutTransfers reads)
    (torn : log.data.length % digestSize ≠ 0) :
    ReplayEnds (logReplay path (watch fun _ _ => true) []) reads [.ok] world
      (.ok (Framing.records digestSize log.data).length, Framing.records digestSize log.data)
      (world.changeLog path (·.truncate ((Framing.records digestSize log.data).length * digestSize))) := by
  obtain ⟨result, scanned, closes⟩ := replayEnds_impl present cut fun _ _ => true
  apply closes
  intro rest
  cases scanned with
  | refused front digest later divided accepts refusal => cases refusal
  | ended accepts =>
    have some := mt (drop_records_eq_nil log.data).mp torn
    simp only [finishScan, some, ↓reduceIte]
    rfl

/-- The plain replay leaves the whole records. -/
theorem replayEnds_plain (present : world.logAt path = some log) (cut : CutTransfers reads) : ∃ after later,
    ReplayEnds (logReplay path (watch fun _ _ => true) []) reads (tornClosing log.data) world
      (.ok (log.data.length / digestSize), Framing.records digestSize log.data) after ∧
    LogNow path later world after ∧ later.data = log.data.take (digestSize * (log.data.length / digestSize)) := by
  have counted := Framing.length_records digestSize_pos log.data
  have parts := Nat.div_add_mod log.data.length digestSize
  by_cases whole : log.data.length % digestSize = 0
  · have ends := replayEnds_accepting present cut true (Or.inr whole)
    rw [counted] at ends
    rw [tornClosing, if_pos whole]
    refine ⟨world, log, ends, .here present, ?_⟩
    rw [List.take_of_length_le (by omega)]
  · have ends := replayEnds_truncating present cut whole
    rw [counted] at ends
    rw [tornClosing, if_neg whole]
    refine ⟨_, _, ends, .change present _, ?_⟩
    rw [LogFile.data_truncate log (by rw [Nat.mul_comm]; omega), Nat.mul_comm]

/-- A refused record ends a replay at once. -/
theorem replayEnds_refusing (present : world.logAt path = some log) (cut : CutTransfers reads) (truncatePartial : Bool)
    {accept : List Digest → Digest → Bool} {front later : List Digest} {digest : Digest}
    (divided : Framing.records digestSize log.data = front ++ digest :: later) (accepts : Accepts accept front)
    (refusal : accept front digest = false) :
    ReplayEnds (logReplayImpl path (watch accept) [] truncatePartial) reads [] world
      (.error .einval, front ++ [digest]) world := by
  obtain ⟨result, scanned, closes⟩ := replayEnds_impl present cut accept
  apply closes
  intro rest
  cases scanned with
  | ended all =>
    rw [all front digest later divided] at refusal
    cases refusal
  | refused other given rest divided' accepts' refusal' =>
    obtain ⟨rfl, rfl⟩ := first_refused_unique accepts refusal accepts' refusal' (divided.symm.trans divided')
    rfl

end Replay

/-- The consecutive blocks of `digestSize` bytes at the front of a file -/
def blocks (data : Bytes) : List Bytes :=
  (List.range (data.length / digestSize)).map fun index => (data.drop (digestSize * index)).take digestSize

/-- However its reads are cut and put off, a replay gives the whole records of the
file to the callback in order and counts them. Only the plain one changes the file:
it cuts off a torn record, and a second replay then does the same without a change.
A record that the callback refuses is the last one that it is given. -/
theorem logReplay_records {world : World} {path : Bytes} {log : LogFile} {reads : Nat → Answer}
    (present : world.logAt path = some log) (cut : CutTransfers reads) :
    ∃ records : List Digest, records.map Subtype.val = blocks log.data ∧
      ReplayEnds (logReplayReadonly path (watch fun _ _ => true) []) reads [] world
        (.ok (log.data.length / digestSize), records) world ∧
      (∃ after later, ReplayEnds (logReplay path (watch fun _ _ => true) []) reads (tornClosing log.data) world
          (.ok (log.data.length / digestSize), records) after ∧
        LogNow path later world after ∧ later.data = log.data.take (digestSize * (log.data.length / digestSize)) ∧
        ∀ again, CutTransfers again →
          ReplayEnds (logReplay path (watch fun _ _ => true) []) again [] after
            (.ok (log.data.length / digestSize), records) after ∧
          ReplayEnds (logReplayReadonly path (watch fun _ _ => true) []) again [] after
            (.ok (log.data.length / digestSize), records) after) ∧
      ∀ accept front digest later, records = front ++ digest :: later → Accepts accept front →
        accept front digest = false →
        ReplayEnds (logReplay path (watch accept) []) reads [] world (.error .einval, front ++ [digest]) world ∧
        ReplayEnds (logReplayReadonly path (watch accept) []) reads [] world
          (.error .einval, front ++ [digest]) world := by
  have counted := Framing.length_records digestSize_pos log.data
  have readonly := replayEnds_accepting present cut false (Or.inl rfl)
  rw [counted] at readonly
  refine ⟨Framing.records digestSize log.data, Framing.map_val_records digestSize_pos log.data, readonly, ?_, ?_⟩
  · obtain ⟨after, later, ends, now, kept⟩ := replayEnds_plain present cut
    refine ⟨after, later, ends, now, kept, fun again cut => ?_⟩
    have short : later.data.length = digestSize * (log.data.length / digestSize) := by
      rw [kept, List.length_take]
      exact Nat.min_eq_left (Nat.mul_div_le _ _)
    have same : Framing.records digestSize later.data = Framing.records digestSize log.data := by
      rw [kept, Framing.records_take digestSize_pos _ _ le_rfl]
    have whole : later.data.length % digestSize = 0 := by rw [short, Nat.mul_mod_right]
    have first := replayEnds_accepting now.now cut true (Or.inr whole)
    have second := replayEnds_accepting now.now cut false (Or.inr whole)
    rw [same, counted] at first second
    exact ⟨first, second⟩
  · intro accept front digest later divided accepts refusal
    exact ⟨replayEnds_refusing present cut true divided accepts refusal,
      replayEnds_refusing present cut false divided accepts refusal⟩

/-- A log of one record and three more bytes -/
def tornReplayLog : LogFile := ⟨List.replicate 19 7, []⟩

def tornReplayWorld : World := World.empty.setLog (bytes "/m/x.digests") tornReplayLog

/-- Every read moves at most five bytes, and every second one is interrupted first. -/
def shortReads (index : Nat) : Answer := if index % 2 = 0 then .interrupted else .count 5

theorem logReplay_records_torn : ∃ records : List Digest, records.map Subtype.val = blocks tornReplayLog.data ∧
    ReplayEnds (logReplayReadonly (bytes "/m/x.digests") (watch fun _ _ => true) []) shortReads [] tornReplayWorld
      (.ok 1, records) tornReplayWorld := by
  have cut : CutTransfers shortReads := by
    constructor
    · intro index
      unfold shortReads
      split
      · exact ⟨fun _ => Answer.noConfusion, Answer.noConfusion⟩
      · exact ⟨fun _ => Answer.noConfusion, by decide⟩
    · intro used
      by_cases even : used % 2 = 0
      · exact ⟨1, by simp [shortReads, Nat.add_mod, even]⟩
      · exact ⟨0, by simp [shortReads, even]⟩
  have present : tornReplayWorld.logAt (bytes "/m/x.digests") = some tornReplayLog := by decide +kernel
  obtain ⟨records, divided, readonly, _⟩ := logReplay_records present cut
  exact ⟨records, divided, readonly⟩

end Bloomd
