import Bloomd.LogReplay
import Bloomd.LogSession

/-! Appends and flushes whose writes do not fail, followed by a replay: no digest is
lost, repeated or moved, whatever way the transfers are cut. -/

namespace Bloomd

open CrashLogic Prog

section Writes

variable {world : World} {path : Bytes} {log : LogFile}

theorem settles_writeAll (present : world.logAt path = some log) (buf : Bytes) :
    Settles (writeAll path buf)
      (fun result after => result = .ok () ∧ LogNow path (log.append buf) world after) world := by
  let keep (rest : Bytes) (middle : World) : Prop :=
    ∃ written, buf = written ++ rest ∧ LogNow path (log.append written) world middle
  have start : keep buf world := ⟨[], rfl, by rw [LogFile.append_nil]; exact .here present⟩
  apply settles_retry keep List.length _ start
  rintro rest middle ⟨written, split, now⟩
  by_cases done : rest = []
  · left
    refine ⟨.ok (), ⟨rfl, ?_⟩, fun answers => ?_⟩
    · rw [split, done, List.append_nil]
      exact now
    · simp only [done, ↓reduceIte]
      rfl
  · right
    intro answer cut
    have some : 0 < rest.length := List.length_pos_iff.mpr done
    -- A write moves the next bytes of the buffer behind those of the file.
    have moves : (∃ count, 0 < count ∧ count ≤ rest.length ∧ ∀ answers, sysWrite path rest middle (answer :: answers) =
        .returned (.moved count) (middle.changeLog path (·.append (rest.take count))) answers) ∨
        answer = .interrupted := by
      have whole : rest.take rest.length = rest := List.take_length
      cases answer with
      | interrupted => exact Or.inr rfl
      | fail fault => exact absurd rfl (cut.1 fault)
      | count n =>
        have positive : n ≠ 0 := fun zero => cut.2 (zero ▸ rfl)
        have same : rest.take (min n rest.length) = rest.take n := by
          rw [← List.take_take, whole]
        refine Or.inl ⟨min n rest.length, by omega, Nat.min_le_right _ _, fun answers => ?_⟩
        rw [same]
        rfl
      | ok => exact Or.inl ⟨rest.length, some, le_rfl, fun answers => by rw [whole]; rfl⟩
      | time now => exact Or.inl ⟨rest.length, some, le_rfl, fun answers => by rw [whole]; rfl⟩
    rcases moves with ⟨count, positive, bound, moved⟩ | rfl
    · refine ⟨.inl (rest.drop count), middle.changeLog path (·.append (rest.take count)), fun answers => ?_,
        ⟨written ++ rest.take count, ?_, ?_⟩, ?_⟩
      · simp only [done, ↓reduceIte]
        rw [bind_apply, moved]
        simp only [Nat.ne_of_gt positive, ↓reduceIte]
        rfl
      · rw [List.append_assoc, List.take_append_drop]
        exact split
      · rw [← LogFile.append_append]
        exact now.trans (.change now.now (·.append (rest.take count)))
      · rw [List.length_drop]
        omega
    · refine ⟨.inl rest, middle, fun answers => ?_, ⟨written, split, now⟩, le_rfl, fun easy => absurd rfl easy⟩
      simp only [done, ↓reduceIte]
      rfl

theorem settles_logBufferAppend (present : world.logAt path = some log) {buf : Bytes}
    (room : buf.length ≤ logBufferCap) (digest : Digest) :
    Settles (logBufferAppend (some path) buf digest)
      (fun result after => ∃ written kept, result = (.ok (), kept) ∧ written ++ kept = buf ++ digest.val ∧
        (written = [] ∨ written = buf) ∧ kept.length ≤ logBufferCap ∧ LogNow path (log.append written) world after)
      world := by
  unfold logBufferAppend
  simp only
  split
  · omega
  · split
    · apply settles_bind
      apply (settles_writeAll present buf).mono
      rintro _ after ⟨rfl, now⟩
      refine settles_pure _ ⟨buf, digest.val, rfl, rfl, Or.inr rfl, ?_, now⟩
      rw [digest.property]
      decide
    · rename_i fits
      refine settles_pure _ ⟨[], buf ++ digest.val, rfl, rfl, Or.inl rfl, ?_, ?_⟩
      · rw [List.length_append, digest.property]
        omega
      · rw [LogFile.append_nil]
        exact .here present

theorem settles_logBufferFlush (present : world.logAt path = some log) (buf : Bytes) (sync : Bool) :
    Settles (logBufferFlush (some path) buf sync)
      (fun result after => result.2 = [] ∧
        ∃ later, LogNow path later world after ∧ later.data = log.data ++ buf) world := by
  apply settles_bind
  apply (settles_writeAll present buf).mono
  rintro _ after ⟨rfl, now⟩
  have written : ∃ later, LogNow path later world after ∧ later.data = log.data ++ buf :=
    ⟨_, now, LogFile.data_append log buf⟩
  cases sync with
  | false => exact settles_pure _ ⟨rfl, written⟩
  | true =>
    apply settles_bind
    apply settles_call
    intro answer _
    apply settles_pure
    refine ⟨rfl, ?_⟩
    cases answer.refusal with
    | some errno => exact written
    | none =>
      refine ⟨_, now.trans (.change now.now LogFile.synced), ?_⟩
      rw [LogFile.data_synced, LogFile.data_append]

end Writes

namespace LogSession

variable {path : Bytes} {session next : LogSession} {log : LogFile} {initial : List Digest}

/-- The digests that a call appends -/
def digests : LogCall → List Digest
  | .append digest => [digest]
  | .flush _ => []

/-- The calls return one after the other, whatever answers follow those they use. -/
def Plays (path : Bytes) : LogSession → List (LogCall × (Nat → Answer)) → LogSession → Prop
  | session, [], last => last = session
  | session, (request, answers) :: calls, last => ∃ used next,
    (∀ rest, session.call path (supplied answers used ++ rest) request = some next) ∧ next.Plays path calls last

/-- What calls whose writes do not fail keep -/
structure Faithful (path : Bytes) (initial : List Digest) (session : LogSession) (log : LogFile) : Prop where
  present : session.world.logAt path = some log
  framed : log.data.length % digestSize = 0
  whole : session.buf.length % digestSize = 0
  room : session.buf.length ≤ logBufferCap
  complete : Framing.records digestSize log.data ++ Framing.records digestSize session.buf =
    initial ++ session.accepted

/-- Every call returns, and keeps each digest once and in its place. -/
theorem Faithful.call (faithful : Faithful path initial session log) {answers : Nat → Answer}
    (cut : CutTransfers answers) (request : LogCall) : ∃ used next later,
      (∀ rest, session.call path (supplied answers used ++ rest) request = some next) ∧
      next.accepted = session.accepted ++ digests request ∧ Faithful path initial next later := by
  have empty : Framing.records digestSize ([] : Bytes) = [] := Framing.records_short digestSize_pos
  cases request with
  | append digest =>
    obtain ⟨used, _, after, ⟨written, kept, rfl, split, part, fits, now⟩, run⟩ :=
      (settles_logBufferAppend faithful.present faithful.room digest).run answers cut
    refine ⟨used, ⟨after, kept, session.accepted ++ [digest], false⟩, log.append written, fun rest => ?_, rfl, ?_⟩
    · simp only [LogSession.call, run]
    · have aligned : written.length % digestSize = 0 := by
        rcases part with rfl | rfl
        · rfl
        · exact faithful.whole
      have framed := length_append_whole faithful.framed aligned
      have parts := congrArg (fun data => (Framing.records digestSize data, data.length % digestSize)) split
      simp only [Prod.mk.injEq] at parts
      obtain ⟨same, remainder⟩ := parts
      rw [Framing.records_append digestSize_pos aligned, Framing.records_append digestSize_pos faithful.whole,
        records_digest] at same
      rw [length_append_whole faithful.whole (length_digest digest), List.length_append, Nat.add_mod, aligned,
        Nat.zero_add, Nat.mod_mod] at remainder
      constructor
      · exact now.now
      · rw [LogFile.data_append]
        exact framed
      · exact remainder
      · exact fits
      · rw [LogFile.data_append, Framing.records_append digestSize_pos faithful.framed, List.append_assoc, same,
          ← List.append_assoc, faithful.complete, List.append_assoc]
  | flush sync =>
    obtain ⟨used, ⟨result, buf⟩, after, ⟨emptied, later, now, same⟩, run⟩ :=
      (settles_logBufferFlush faithful.present session.buf sync).run answers cut
    obtain rfl : buf = [] := emptied
    have flushed : ∀ flag, Faithful path initial ⟨after, [], session.accepted, flag⟩ later := by
      intro flag
      constructor
      · exact now.now
      · rw [same]
        exact length_append_whole faithful.framed faithful.whole
      · rfl
      · exact Nat.zero_le _
      · rw [same, Framing.records_append digestSize_pos faithful.framed, empty, List.append_nil]
        exact faithful.complete
    cases result with
    | ok done =>
      refine ⟨used, ⟨after, [], session.accepted, true⟩, later, fun rest => ?_, (List.append_nil _).symm, flushed true⟩
      simp only [LogSession.call, run]
    | error errno =>
      refine ⟨used, ⟨after, [], session.accepted, false⟩, later, fun rest => ?_, (List.append_nil _).symm,
        flushed false⟩
      simp only [LogSession.call, run]

/-- A call returns in one way only. -/
theorem call_unique {answers : Nat → Answer} {first second : Nat} {request : LogCall} {other : LogSession}
    (called : ∀ rest, session.call path (supplied answers first ++ rest) request = some next)
    (again : ∀ rest, session.call path (supplied answers second ++ rest) request = some other) : next = other := by
  have same := called (supplied (fun index => answers (first + index)) second)
  rw [← supplied_add, Nat.add_comm, supplied_add, again] at same
  exact (Option.some.inj same).symm

theorem Faithful.plays (faithful : Faithful path initial session log) {calls : List (LogCall × (Nat → Answer))}
    (cut : ∀ entry ∈ calls, CutTransfers entry.2) :
    (∃ last, session.Plays path calls last) ∧ ∀ last, session.Plays path calls last →
      last.accepted = session.accepted ++ calls.flatMap (fun entry => digests entry.1) ∧
      ∃ later, Faithful path initial last later := by
  induction calls generalizing session log with
  | nil =>
    refine ⟨⟨session, rfl⟩, ?_⟩
    rintro last rfl
    exact ⟨(List.append_nil _).symm, log, faithful⟩
  | cons entry calls ih =>
    obtain ⟨request, answers⟩ := entry
    obtain ⟨used, next, later, called, accepted, kept⟩ := faithful.call (cut _ List.mem_cons_self) request
    obtain ⟨⟨last, plays⟩, ends⟩ := ih kept fun entry member => cut entry (List.mem_cons_of_mem _ member)
    refine ⟨⟨last, used, next, called, plays⟩, ?_⟩
    rintro last ⟨count, other, again, plays⟩
    obtain rfl := call_unique called again
    obtain ⟨appended, held⟩ := ends last plays
    refine ⟨?_, held⟩
    rw [appended, accepted, List.flatMap_cons, List.append_assoc]

/-- Appends and flushes whose writes do not fail return. After them the buffer is
made of whole digests and fits, and a replay of the file followed by the buffer is
what the file held at first followed by every digest appended since. -/
theorem log_round_trip {world : World} {calls : List (LogCall × (Nat → Answer))}
    (present : world.logAt path = some log)
    (framed : log.data.length % digestSize = 0) (cut : ∀ entry ∈ calls, CutTransfers entry.2) :
    (∃ last, (start world).Plays path calls last) ∧ ∀ last, (start world).Plays path calls last →
      last.buf.length % digestSize = 0 ∧ last.buf.length ≤ logBufferCap ∧
      ∀ reads, CutTransfers reads → ∃ replayed,
        ReplayEnds (logReplay path (watch fun _ _ => true) []) reads [] last.world
          (.ok replayed.length, replayed) last.world ∧
        ReplayEnds (logReplayReadonly path (watch fun _ _ => true) []) reads [] last.world
          (.ok replayed.length, replayed) last.world ∧
        replayed ++ Framing.records digestSize last.buf =
          Framing.records digestSize log.data ++ calls.flatMap fun entry => digests entry.1 := by
  have empty : Framing.records digestSize ([] : Bytes) = [] := Framing.records_short digestSize_pos
  have fresh : Faithful path (Framing.records digestSize log.data) (start world) log := by
    refine ⟨present, framed, rfl, Nat.zero_le _, ?_⟩
    simp only [start, empty]
  obtain ⟨returns, ends⟩ := fresh.plays cut
  refine ⟨returns, fun last plays => ?_⟩
  obtain ⟨accepted, later, faithful⟩ := ends last plays
  refine ⟨faithful.whole, faithful.room, fun reads cut => ⟨Framing.records digestSize later.data, ?_, ?_, ?_⟩⟩
  · exact replayEnds_accepting faithful.present cut true (Or.inr faithful.framed)
  · exact replayEnds_accepting faithful.present cut false (Or.inl rfl)
  · rw [faithful.complete, accepted]
    rfl

/-- Every second transfer is interrupted, and the others move three bytes. -/
def threeAtATime (index : Nat) : Answer := if index % 2 = 0 then .interrupted else .count 3

theorem log_round_trip_appended : ∃ last,
    (start (World.empty.setLog onlyLog .empty)).Plays onlyLog
      [(.append countingDigest, threeAtATime), (.flush false, threeAtATime)] last := by
  have cut : CutTransfers threeAtATime := by
    constructor
    · intro index
      unfold threeAtATime
      split
      · exact ⟨fun _ => Answer.noConfusion, Answer.noConfusion⟩
      · exact ⟨fun _ => Answer.noConfusion, by decide⟩
    · intro used
      by_cases even : used % 2 = 0
      · exact ⟨1, by simp [threeAtATime, Nat.add_mod, even]⟩
      · exact ⟨0, by simp [threeAtATime, even]⟩
  have present : (World.empty.setLog onlyLog .empty).logAt onlyLog = some .empty := by decide +kernel
  apply (log_round_trip present rfl _).1
  intro entry member
  rcases List.mem_cons.mp member with rfl | member
  · exact cut
  · obtain rfl := List.mem_singleton.mp member
    exact cut

end LogSession

end Bloomd
