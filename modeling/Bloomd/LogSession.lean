import Bloomd.LogCompletion

/-! Sequences of appends and flushes on one log, and what a replay of the file
yields after the last flush returned 0. -/

namespace Bloomd

open CrashLogic Prog

/-- The bytes of a log file; a missing file has none. -/
def World.logBytes (world : World) (path : Bytes) : Bytes :=
  ((world.logAt path).map LogFile.data).getD []

theorem World.logBytes_of (present : World.logAt world path = some log) :
    world.logBytes path = log.data := by
  simp [logBytes, present]

/-- A log with its buffer, the digests whose append returned 0, and whether the
last call was a flush that returned 0 -/
structure LogSession where
  world : World
  buf : Bytes
  accepted : List Digest
  flushed : Bool

inductive LogCall where
  | append (digest : Digest)
  | flush (sync : Bool)

namespace LogSession

def start (world : World) : LogSession := ⟨world, [], [], false⟩

/-- One call with the answers that its system calls get -/
def call (path : Bytes) (session : LogSession) (answers : List Answer) : LogCall → Option LogSession
  | .append digest =>
    match logBufferAppend (some path) session.buf digest session.world answers with
    | .returned (.ok (), buf) world _ => some ⟨world, buf, session.accepted ++ [digest], false⟩
    | .returned (.error _, buf) world _ => some ⟨world, buf, session.accepted, false⟩
    | .crashed _ => none
  | .flush sync =>
    match logBufferFlush (some path) session.buf sync session.world answers with
    | .returned (.ok (), buf) world _ => some ⟨world, buf, session.accepted, true⟩
    | .returned (.error _, buf) world _ => some ⟨world, buf, session.accepted, false⟩
    | .crashed _ => none

def run (path : Bytes) : LogSession → List (LogCall × List Answer) → Option LogSession
  | session, [] => some session
  | session, (call, answers) :: rest => (session.call path answers call).bind fun next => next.run path rest

/-- Each call finds a file that ends with a whole record. -/
def framed (path : Bytes) : LogSession → List (LogCall × List Answer) → Bool
  | _, [] => true
  | session, (call, answers) :: rest =>
    (session.world.logBytes path).length % digestSize == 0 &&
      match session.call path answers call with
      | some next => next.framed path rest
      | none => true

/-- The callback of a replay that notes each digest it is given -/
def collect (digest : Digest) (seen : List Digest) : Sys (Bool × List Digest) :=
  pure (true, seen ++ [digest])

/-- What the calls keep. The accepted digests are in the file or wait in the
buffer, as long as the file ends with a whole record. -/
structure Sound (path : Bytes) (session : LogSession) (log : LogFile) : Prop where
  present : session.world.logAt path = some log
  whole : session.buf.length % digestSize = 0
  room : session.buf.length ≤ logBufferCap
  held : log.data.length % digestSize = 0 → session.accepted.Sublist
    (Framing.records digestSize log.data ++ Framing.records digestSize session.buf)
  flushed : session.flushed = true →
    session.accepted.Sublist (Framing.records digestSize log.data)

end LogSession

theorem records_digest (digest : Digest) : Framing.records digestSize digest.val = [digest] := by
  have encoded : Framing.encode [digest] = digest.val := by simp
  rw [← encoded, Framing.records_encode digestSize_pos]

section

variable {data buf written : Bytes}

/-- A write that stopped after some bytes of the buffer repeats records, if it
stopped between two of them, and loses none. -/
theorem sublist_repeated {accepted : List Digest} (whole : data.length % digestSize = 0)
    (held : accepted.Sublist (Framing.records digestSize data ++ Framing.records digestSize buf)) :
    accepted.Sublist
      (Framing.records digestSize (data ++ written) ++ Framing.records digestSize buf) := by
  rw [Framing.records_append digestSize_pos whole]
  refine held.trans (List.Sublist.append_right ?_ _)
  exact List.sublist_append_left _ _

theorem length_append_whole (first : data.length % digestSize = 0)
    (second : buf.length % digestSize = 0) : (data ++ buf).length % digestSize = 0 := by
  rw [List.length_append, Nat.add_mod, first, second]
  rfl

theorem length_digest (digest : Digest) : digest.val.length % digestSize = 0 := by
  rw [digest.property, Nat.mod_self]

end

namespace LogSession

variable {path : Bytes} {session next : LogSession} {log : LogFile} {answers : List Answer}

theorem Sound.append (sound : Sound path session log) (framed : log.data.length % digestSize = 0)
    {digest : Digest} (called : session.call path answers (.append digest) = some next) :
    ∃ later, Sound path next later := by
  have spec := wp_logBufferAppend sound.present session.buf sound.room digest
  have held := sound.held framed
  simp only [call] at called
  cases run : logBufferAppend (some path) session.buf digest session.world answers with
  | crashed after => simp [run] at called
  | returned result after rest =>
    rw [run] at called
    rcases spec.returned run with ⟨rfl, room, now⟩ | ⟨rfl, full, now⟩ | ⟨errno, written, rfl, prefixed, now⟩
    · obtain rfl := Option.some.inj called
      refine ⟨log, now.now, length_append_whole sound.whole (length_digest digest), ?_, fun _ => ?_,
        fun flushed => (by cases flushed)⟩
      · rw [List.length_append, digest.property]
        exact room
      · rw [Framing.records_append digestSize_pos sound.whole, records_digest, ← List.append_assoc]
        exact held.append (List.Sublist.refl _)
    · obtain rfl := Option.some.inj called
      refine ⟨log.append session.buf, now.now, length_digest digest, ?_, fun _ => ?_,
        fun flushed => (by cases flushed)⟩
      · rw [digest.property]
        decide
      · rw [LogFile.data_append, Framing.records_append digestSize_pos framed, records_digest]
        exact held.append (List.Sublist.refl _)
    · obtain rfl := Option.some.inj called
      refine ⟨log.append written, now.now, sound.whole, sound.room, fun _ => ?_,
        fun flushed => (by cases flushed)⟩
      rw [LogFile.data_append]
      exact sublist_repeated framed held

theorem Sound.flush (sound : Sound path session log) (framed : log.data.length % digestSize = 0)
    {sync : Bool} (called : session.call path answers (.flush sync) = some next) :
    ∃ later, Sound path next later := by
  have held := sound.held framed
  have empty : Framing.records digestSize ([] : Bytes) = [] := Framing.records_short digestSize_pos
  have failed : ∀ after written, LogNow path (log.append written) session.world after →
      ∃ later, Sound path ⟨after, session.buf, session.accepted, false⟩ later := by
    intro after written now
    refine ⟨log.append written, now.now, sound.whole, sound.room, fun _ => ?_,
      fun flushed => (by cases flushed)⟩
    rw [LogFile.data_append]
    exact sublist_repeated framed held
  have emptied : ∀ after later flag, LogNow path later session.world after →
      later.data = log.data ++ session.buf →
      ∃ later, Sound path ⟨after, [], session.accepted, flag⟩ later := by
    intro after later flag now same
    have complete : session.accepted.Sublist (Framing.records digestSize later.data) := by
      rw [same, Framing.records_append digestSize_pos framed]
      exact held
    refine ⟨later, now.now, rfl, Nat.zero_le _, fun _ => ?_, fun _ => complete⟩
    simpa [empty] using complete
  simp only [call] at called
  cases run : logBufferFlush (some path) session.buf sync session.world answers with
  | crashed after => simp [run] at called
  | returned result after rest =>
    rw [run] at called
    cases sync with
    | true =>
      rcases (wp_logBufferFlush_sync sound.present session.buf).returned run with
        ⟨rfl, now⟩ | ⟨errno, written, rfl, prefixed, now⟩ | ⟨errno, rfl, now⟩
      · obtain rfl := Option.some.inj called
        exact emptied after _ true now (by simp)
      · obtain rfl := Option.some.inj called
        exact failed after written now
      · obtain rfl := Option.some.inj called
        exact emptied after _ false now (by simp)
    | false =>
      rcases (wp_logBufferFlush_plain sound.present session.buf).returned run with
        ⟨rfl, now⟩ | ⟨errno, written, rfl, prefixed, now⟩
      · obtain rfl := Option.some.inj called
        exact emptied after _ true now (by simp)
      · obtain rfl := Option.some.inj called
        exact failed after written now

theorem Sound.run (sound : Sound path session log) {calls : List (LogCall × List Answer)}
    (framed : session.framed path calls = true) (ran : session.run path calls = some next) :
    ∃ later, Sound path next later := by
  induction calls generalizing session log with
  | nil =>
    obtain rfl := Option.some.inj ran
    exact ⟨log, sound⟩
  | cons head rest ih =>
    obtain ⟨call, answers⟩ := head
    obtain ⟨middle, called, ran⟩ := Option.bind_eq_some_iff.mp ran
    have both : (session.world.logBytes path).length % digestSize = 0 ∧
        middle.framed path rest = true := by
      simpa [LogSession.framed, called] using framed
    obtain ⟨aligned, framed⟩ := both
    rw [World.logBytes_of sound.present] at aligned
    have step : ∃ later, Sound path middle later := by
      cases call with
      | append digest => exact sound.append aligned called
      | flush sync => exact sound.flush aligned called
    obtain ⟨later, sound⟩ := step
    exact ih sound framed ran

/-- Every replay that returns 0 gives the callback these digests in this order,
and without faults a replay does return 0. -/
structure Replays (path : Bytes) (digests : List Digest) (world : World) : Prop where
  yields : wp (logReplay path collect [])
    (fun result _ => ∀ count, result.1 = .ok count → digests.Sublist result.2) (fun _ => True) world
  returns : Completes (logReplay path collect [])
    (fun result _ => ∃ count, result.1 = .ok count ∧ digests.Sublist result.2) world

theorem wp_collect {world : World} (present : world.logAt path = some log) :
    wp (logReplay path collect [])
      (fun result _ => ∀ count, result.1 = .ok count →
        result.2 = Framing.records digestSize log.data) (fun _ => True) world := by
  refine wp_logReplay log (fun seen context after => context = seen ∧ after = world) ?_ ⟨rfl, rfl⟩
    (fun _ _ _ _ => trivial) ?_ ?_ ?_ ?_
  · rintro seen context after ⟨rfl, rfl⟩
    exact present
  · rintro seen digest later context after _ ⟨rfl, rfl⟩
    exact (wp_pure _).mpr ⟨rfl, rfl⟩
  · rintro errno seen context after _ ⟨rfl, rfl⟩ count failed
    cases failed
  · rintro count context after ⟨rfl, rfl⟩ _ _
    rfl
  · rintro count context after ⟨rfl, rfl⟩ _ _ _
    rfl

theorem completes_collect {world : World} (present : world.logAt path = some log) :
    Completes (logReplay path collect [])
      (fun result _ => ∃ count, result = (.ok count, Framing.records digestSize log.data)) world := by
  refine completes_logReplayImpl log (fun seen context after => context = seen ∧ after = world) ?_ ⟨rfl, rfl⟩
    ?_ ?_ ?_
  · rintro seen context after ⟨rfl, rfl⟩
    exact present
  · rintro seen digest later context after _ ⟨rfl, rfl⟩
    exact completes_pure _ ⟨rfl, rfl, rfl⟩
  · rintro context after ⟨rfl, rfl⟩
    exact ⟨_, rfl⟩
  · rintro context after _ ⟨rfl, rfl⟩
    exact ⟨_, rfl⟩

/-- A replay yields exactly the records of the file. -/
theorem replays_iff {world : World} {digests : List Digest} (present : world.logAt path = some log) :
    Replays path digests world ↔ digests.Sublist (Framing.records digestSize log.data) := by
  constructor
  · intro replays
    obtain ⟨_, value, _, ⟨⟨count, _, sublist⟩, ⟨_, rfl⟩⟩, _⟩ :=
      (replays.returns.and (completes_collect present)).run (fun _ => .ok) fun _ => trivial
    exact sublist
  · intro sublist
    constructor
    · refine (wp_collect present).mono ?_ fun _ _ => trivial
      intro result _ exact count returned
      rw [exact count returned]
      exact sublist
    · refine (completes_collect present).mono ?_
      rintro _ _ ⟨count, rfl⟩
      exact ⟨count, rfl, sublist⟩

/-- When each call finds a file that ends with a whole record, a flush that returns
0 at the end leaves a file whose replay yields every accepted digest. -/
theorem framed_session_replays {world : World} {calls : List (LogCall × List Answer)}
    (empty : world.logAt path = some .empty) (framed : (start world).framed path calls = true)
    (ran : (start world).run path calls = some session) (flushed : session.flushed = true) :
    Replays path session.accepted session.world := by
  have fresh : Sound path (start world) .empty :=
    ⟨empty, rfl, Nat.zero_le _, fun _ => List.nil_sublist _, fun flushed => (by cases flushed)⟩
  obtain ⟨log, sound⟩ := fresh.run framed ran
  exact (replays_iff sound.present).mpr (sound.flushed flushed)

/-- A digest whose bytes all differ -/
def countingDigest : Digest := ⟨(List.range 16).map Nat.toUInt8, rfl⟩

def onlyLog : Bytes := bytes "/m/x.digests"

/-- A full disk refuses the flush, and the retry succeeds. -/
def refusedThenFlushed : List (LogCall × List Answer) :=
  [(.append countingDigest, []), (.flush true, [.fail .enospc]), (.flush true, [.ok, .ok])]

theorem framed_session_replays_refused :
    ∃ session, (start (World.empty.setLog onlyLog .empty)).run onlyLog refusedThenFlushed = some session ∧
      session.accepted = [countingDigest] ∧ Replays onlyLog session.accepted session.world := by
  have summary : ((start (World.empty.setLog onlyLog .empty)).run onlyLog refusedThenFlushed).map
      (fun session => (session.accepted, session.flushed)) = some ([countingDigest], true) := by
    decide +kernel
  obtain ⟨session, ran, both⟩ := Option.map_eq_some_iff.mp summary
  obtain ⟨accepted, flushed⟩ := Prod.mk.inj both
  exact ⟨session, ran, accepted,
    framed_session_replays (by decide +kernel) (by decide +kernel) ran flushed⟩

/-- A full disk stops the flush inside the record, and the retry writes the whole
buffer again behind the torn bytes. -/
def tornThenFlushed : List (LogCall × List Answer) :=
  [(.append countingDigest, []), (.flush true, [.count 5, .fail .enospc]), (.flush true, [.ok, .ok])]

theorem torn_session_loses_digest :
    ¬ ∀ (path : Bytes) (world : World) (calls : List (LogCall × List Answer)) (session : LogSession),
      world.logAt path = some .empty → (start world).run path calls = some session →
      session.flushed = true → Replays path session.accepted session.world := by
  intro always
  have summary : ((start (World.empty.setLog onlyLog .empty)).run onlyLog tornThenFlushed).map
      (fun session => (session.flushed, session.world.logAt onlyLog, decide (session.accepted.Sublist
        (Framing.records digestSize (session.world.logBytes onlyLog))))) =
      some (true, some ⟨countingDigest.val.take 5 ++ countingDigest.val, []⟩, false) := by
    decide +kernel
  obtain ⟨session, ran, parts⟩ := Option.map_eq_some_iff.mp summary
  simp only [Prod.mk.injEq, decide_eq_false_iff_not] at parts
  obtain ⟨flushed, present, lost⟩ := parts
  have replays := always onlyLog _ _ session (by decide +kernel) ran flushed
  rw [replays_iff present, ← World.logBytes_of present] at replays
  exact lost replays

end LogSession

end Bloomd
