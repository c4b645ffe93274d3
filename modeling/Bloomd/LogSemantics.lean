import Bloomd.WorldSemantics

/-! What the functions of `log.c` do to the bytes of a log, for every outcome of
the calls they make. -/

namespace Bloomd

open CrashLogic Prog

@[simp] theorem LogFile.data_append (log : LogFile) (chunk : Bytes) :
    (log.append chunk).data = log.data ++ chunk := by
  simp [LogFile.data, LogFile.append]

@[simp] theorem LogFile.data_synced (log : LogFile) : log.synced.data = log.data := by
  simp [LogFile.data, LogFile.synced]

@[simp] theorem LogFile.append_nil (log : LogFile) : log.append [] = log := by
  simp [LogFile.append]

theorem LogFile.append_append (log : LogFile) (first second : Bytes) :
    (log.append first).append second = log.append (first ++ second) := by
  simp [LogFile.append]

theorem LogFile.data_truncate (log : LogFile) (bound : length ≤ log.data.length) :
    (log.truncate length).data = log.data.take length := by
  have exact : length - log.data.length = 0 := by omega
  simp only [LogFile.truncate, exact, List.replicate_zero, List.append_nil]
  simp only [LogFile.data, List.take_append]

/-- Between the two worlds only the log at `path` changed, and it is `log` now. -/
structure LogNow (path : Bytes) (log : LogFile) (before after : World) : Prop where
  now : after.logAt path = some log
  files : after.files = before.files
  pins : after.pins = before.pins
  maps : after.maps = before.maps
  pid : after.pid = before.pid

theorem LogNow.here (present : world.logAt path = some log) : LogNow path log world world :=
  ⟨present, rfl, rfl, rfl, rfl⟩

theorem LogNow.trans (first : LogNow path log before middle) (second : LogNow path later middle after) :
    LogNow path later before after :=
  ⟨second.now, second.files.trans first.files, second.pins.trans first.pins,
    second.maps.trans first.maps, second.pid.trans first.pid⟩

theorem LogNow.change (present : world.logAt path = some log) (change : LogFile → LogFile) :
    LogNow path (change log) world (world.changeLog path change) where
  now := by simp [World.logAt_changeLog, present]
  files := World.changeLog_files world
  pins := World.changeLog_pins world
  maps := World.changeLog_maps world
  pid := World.changeLog_pid world

section

variable {world : World} {path : Bytes} {log : LogFile}

theorem wp_sysWrite (present : world.logAt path = some log) (chunk : Bytes) :
    wp (sysWrite path chunk)
      (fun result after => match result with
        | .moved n => n ≤ chunk.length ∧ LogNow path (log.append (chunk.take n)) world after
        | _ => after = world)
      (fun after => after = world) world := by
  refine (wp_call _).mpr ⟨rfl, fun answer => ?_⟩
  have whole : LogNow path (log.append (chunk.take chunk.length)) world
      (world.changeLog path (·.append chunk)) := by
    rw [List.take_length]
    exact .change present (·.append chunk)
  cases answer with
  | count n =>
    refine ⟨Nat.min_le_right n chunk.length, ?_⟩
    have same : chunk.take (min n chunk.length) = chunk.take n := by
      rw [← List.take_take, List.take_length]
    rw [same]
    exact .change present (·.append (chunk.take n))
  | interrupted => rfl
  | fail fault => rfl
  | ok => exact ⟨Nat.le_refl _, whole⟩
  | time now => exact ⟨Nat.le_refl _, whole⟩

/-- `bloomd_write_all` writes a prefix, and all of it when it returns 0. -/
theorem wp_writeAll_written (present : world.logAt path = some log) (buf : Bytes) :
    wp (writeAll path buf)
      (fun result after => ∃ written, written <+: buf ∧ (result = .ok () → written = buf) ∧
        LogNow path (log.append written) world after)
      (fun after => ∃ written, written <+: buf ∧ LogNow path (log.append written) world after)
      world := by
  let keep (rest : Bytes) (middle : World) : Prop :=
    ∃ written, buf = written ++ rest ∧ LogNow path (log.append written) world middle
  have start : keep buf world := ⟨[], rfl, by rw [LogFile.append_nil]; exact .here present⟩
  have crash : ∀ rest middle, keep rest middle →
      ∃ written, written <+: buf ∧ LogNow path (log.append written) world middle := by
    rintro rest middle ⟨written, split, now⟩
    exact ⟨written, ⟨rest, split.symm⟩, now⟩
  refine wp_loop keep ?_ start
  rintro rest middle ⟨written, split, now⟩
  have safe := crash rest middle ⟨written, split, now⟩
  split
  · rename_i done
    subst done
    refine (wp_pure _).mpr ⟨written, ⟨[], by simpa using split.symm⟩, fun _ => ?_, now⟩
    simpa using split.symm
  · refine wp_bind ((wp_sysWrite now.now rest).mono ?_ ?_)
    · intro result after held
      cases result with
      | interrupted =>
        obtain rfl := held
        exact (wp_pure _).mpr ⟨⟨written, split, now⟩, safe⟩
      | failed errno =>
        obtain rfl := held
        exact (wp_pure _).mpr ⟨written, ⟨rest, split.symm⟩, fun failed => (by cases failed), now⟩
      | moved n =>
        obtain ⟨bound, moved⟩ := held
        have further := now.trans moved
        rw [LogFile.append_append] at further
        have divided : buf = (written ++ rest.take n) ++ rest.drop n := by
          rw [List.append_assoc, List.take_append_drop]
          exact split
        simp only
        split
        · exact (wp_pure _).mpr ⟨_, ⟨_, divided.symm⟩, fun failed => (by cases failed), further⟩
        · exact (wp_pure _).mpr ⟨⟨_, divided, further⟩, crash _ _ ⟨_, divided, further⟩⟩
    · rintro after rfl
      exact safe

/-- One append: the digest joins the buffer, after a full buffer was written
out. When that write fails the buffer stays, whatever reached the file. -/
theorem wp_logBufferAppend (present : world.logAt path = some log) (buf : Bytes)
    (room : buf.length ≤ logBufferCap) (digest : Digest) :
    wp (logBufferAppend (some path) buf digest)
      (fun result after =>
        (result = (.ok (), buf ++ digest.val) ∧ buf.length + digestSize ≤ logBufferCap ∧
          LogNow path log world after) ∨
        (result = (.ok (), digest.val) ∧ logBufferCap < buf.length + digestSize ∧
          LogNow path (log.append buf) world after) ∨
        (∃ errno written, result = (.error errno, buf) ∧ written <+: buf ∧
          LogNow path (log.append written) world after))
      (fun after => ∃ written, written <+: buf ∧ LogNow path (log.append written) world after)
      world := by
  unfold logBufferAppend
  simp only
  split
  · omega
  · split
    · rename_i full
      refine wp_bind ((wp_writeAll_written present buf).mono ?_ fun _ held => held)
      rintro result after ⟨written, prefixed, complete, now⟩
      cases result with
      | error errno => exact (wp_pure _).mpr (Or.inr (Or.inr ⟨errno, written, rfl, prefixed, now⟩))
      | ok done =>
        obtain rfl := complete rfl
        exact (wp_pure _).mpr (Or.inr (Or.inl ⟨rfl, full, now⟩))
    · exact (wp_pure _).mpr (Or.inl ⟨rfl, by omega, .here present⟩)

theorem wp_sysFsync (present : world.logAt path = some log) :
    wp (sysFsync path)
      (fun result after => match result with
        | .ok _ => LogNow path log.synced world after
        | .error _ => LogNow path log world after)
      (fun after => LogNow path log world after) world :=
  wp_attempt (.here present) (fun _ _ => .here present) (.change present _)

/-- One flush with fsync: everything is written and durable, or an error tells
that the write stopped early or that the fsync failed. -/
theorem wp_logBufferFlush_sync (present : world.logAt path = some log) (buf : Bytes) :
    wp (logBufferFlush (some path) buf true)
      (fun result after =>
        (result = (.ok (), []) ∧ LogNow path (log.append buf).synced world after) ∨
        (∃ errno written, result = (.error errno, buf) ∧ written <+: buf ∧
          LogNow path (log.append written) world after) ∨
        (∃ errno, result = (.error errno, []) ∧ LogNow path (log.append buf) world after))
      (fun after => ∃ written, written <+: buf ∧ LogNow path (log.append written) world after)
      world := by
  refine wp_bind ((wp_writeAll_written present buf).mono ?_ fun _ held => held)
  rintro result after ⟨written, prefixed, complete, now⟩
  cases result with
  | error errno => exact (wp_pure _).mpr (Or.inr (Or.inl ⟨errno, written, rfl, prefixed, now⟩))
  | ok done =>
    obtain rfl := complete rfl
    refine wp_bind ((wp_sysFsync now.now).mono ?_ ?_)
    · intro synced last held
      cases synced with
      | ok done => exact (wp_pure _).mpr (Or.inl ⟨rfl, now.trans held⟩)
      | error errno => exact (wp_pure _).mpr (Or.inr (Or.inr ⟨errno, rfl, now.trans held⟩))
    · exact fun last held => ⟨written, prefixed, now.trans held⟩

/-- One flush without fsync -/
theorem wp_logBufferFlush_plain (present : world.logAt path = some log) (buf : Bytes) :
    wp (logBufferFlush (some path) buf false)
      (fun result after =>
        (result = (.ok (), []) ∧ LogNow path (log.append buf) world after) ∨
        (∃ errno written, result = (.error errno, buf) ∧ written <+: buf ∧
          LogNow path (log.append written) world after))
      (fun after => ∃ written, written <+: buf ∧ LogNow path (log.append written) world after)
      world := by
  refine wp_bind ((wp_writeAll_written present buf).mono ?_ fun _ held => held)
  rintro result after ⟨written, prefixed, complete, now⟩
  cases result with
  | error errno => exact (wp_pure _).mpr (Or.inr ⟨errno, written, rfl, prefixed, now⟩)
  | ok done =>
    obtain rfl := complete rfl
    exact (wp_pure _).mpr (Or.inl ⟨rfl, now⟩)

/-- Reading on collects the bytes at the position, in order. -/
theorem takeMore_spec {data got : Bytes} {want : Nat} (short : got.length < digestSize)
    (sofar : got = data.take got.length) (positive : 0 < want)
    (bound : want ≤ digestSize - got.length) :
    match takeMore got ((data.drop got.length).take want) with
    | .inl next => next.length < digestSize ∧ next = data.take next.length ∧
        got.length < next.length
    | .inr (.digest digest) => data.take digestSize = digest.val
    | .inr (.eof rest) => rest = data ∧ rest.length < digestSize
    | .inr (.failed _) => False := by
  have joined : got ++ (data.drop got.length).take want = data.take (got.length + want) := by
    rw [List.take_add, ← sofar]
  have sizes := congrArg List.length joined
  rw [List.length_take] at sizes
  unfold takeMore
  by_cases ended : (data.drop got.length).take want = []
  · rw [if_pos ended]
    refine ⟨?_, short⟩
    have nothing : data.drop got.length = [] := by
      rcases List.take_eq_nil_iff.mp ended with zero | empty
      · omega
      · exact empty
    have all : data.length ≤ got.length := List.drop_eq_nil_iff.mp nothing
    rwa [List.take_of_length_le all] at sofar
  · rw [if_neg ended]
    by_cases full : (got ++ (data.drop got.length).take want).length = digestSize
    · rw [dif_pos full]
      have enough : got.length + want = digestSize := by omega
      rw [enough] at joined
      exact joined.symm
    · rw [dif_neg full]
      have longer : 0 < ((data.drop got.length).take want).length := List.length_pos_iff.mpr ended
      rw [List.length_append] at sizes full
      refine ⟨?_, ?_, ?_⟩
      · rw [List.length_append]
        omega
      · rw [List.length_append, sizes, joined, List.take_eq_take_iff]
        omega
      · rw [List.length_append]
        omega

/-- What the reader finds at a position: a whole record, or a rest that is too
short for one. -/
theorem wp_readDigest (present : world.logAt path = some log) (position : Nat) :
    wp (readDigest path position)
      (fun result after => after = world ∧ match result with
        | .digest digest => (log.data.drop position).take digestSize = digest.val
        | .eof rest => rest = log.data.drop position ∧ rest.length < digestSize
        | .failed errno => Transient errno)
      (fun after => after = world) world := by
  refine wp_loop (fun got middle => middle = world ∧ got.length < digestSize ∧
    got = (log.data.drop position).take got.length) ?_ ⟨rfl, by decide, by simp⟩
  rintro got middle ⟨rfl, short, sofar⟩
  have reads : wp (sysRead path (position + got.length) (digestSize - got.length))
      (fun result after => after = middle ∧ match result with
        | .moved more => ∃ want, 0 < want ∧ want ≤ digestSize - got.length ∧
            more = ((log.data.drop position).drop got.length).take want
        | .interrupted => True
        | .failed errno => Transient errno)
      (fun after => after = middle) middle := by
    refine (wp_call _).mpr ⟨rfl, fun answer => ?_⟩
    have there : ((middle.logAt path).map LogFile.data).getD [] = log.data := by rw [present]; rfl
    simp only [there, ← List.drop_drop]
    cases answer with
    | interrupted => exact ⟨rfl, trivial⟩
    | fail fault => exact ⟨rfl, .fail fault, rfl⟩
    | count n => exact ⟨rfl, _, by omega, Nat.min_le_right _ _, rfl⟩
    | ok => exact ⟨rfl, _, by omega, Nat.le_refl _, rfl⟩
    | time now => exact ⟨rfl, _, by omega, Nat.le_refl _, rfl⟩
  refine wp_bind (reads.mono ?_ fun _ same => same)
  rintro result after ⟨rfl, held⟩
  cases result with
  | interrupted => exact (wp_pure _).mpr ⟨⟨rfl, short, sofar⟩, rfl⟩
  | failed errno => exact (wp_pure _).mpr ⟨rfl, held⟩
  | moved more =>
    obtain ⟨want, positive, bound, rfl⟩ := held
    have spec := takeMore_spec short sofar positive bound
    refine (wp_pure _).mpr ?_
    generalize takeMore got _ = taken at spec
    match taken, spec with
    | .inl next, spec => exact ⟨⟨rfl, spec.1, spec.2.1⟩, rfl⟩
    | .inr (.digest digest), spec => exact ⟨rfl, spec⟩
    | .inr (.eof rest), spec => exact ⟨rfl, spec⟩
    | .inr (.failed errno), spec => exact spec.elim

/-- The record at the position of the loop, and the loop's position after it -/
theorem records_next {data : Bytes} {seen later : List Digest} {digest : Digest}
    (divided : Framing.records digestSize data = seen ++ later)
    (read : (data.drop (seen.length * digestSize)).take digestSize = digest.val) :
    ∃ rest, later = digest :: rest := by
  have skipped := Framing.records_drop digestSize_pos data seen.length (by simp [divided])
  rw [divided, List.drop_left, Nat.mul_comm] at skipped
  have first := Framing.records_append_block digestSize_pos digest
    ((data.drop (seen.length * digestSize)).drop digestSize)
  rw [← read, List.take_append_drop] at first
  exact ⟨_, skipped.symm.trans first⟩

/-- At the end of the file no record is left. -/
theorem records_end {data : Bytes} {seen later : List Digest}
    (divided : Framing.records digestSize data = seen ++ later)
    (short : (data.drop (seen.length * digestSize)).length < digestSize) : later = [] := by
  have skipped := Framing.records_drop digestSize_pos data seen.length (by simp [divided])
  rw [divided, List.drop_left, Nat.mul_comm, Framing.records_short short] at skipped
  exact skipped.symm

section Replay

variable {κ : Type} {callback : Digest → κ → Sys (Bool × κ)} {context : κ}
  {post : Except Errno Nat × κ → World → Prop} {crash : World → Prop}

/-- The rule for `bloomd_log_replay`: `keep seen` holds once the callback has been
given the records `seen`. At the end all records have been given, and a torn one
behind them is cut off. -/
theorem wp_logReplay (log : LogFile) (keep : List Digest → κ → World → Prop)
    (present : ∀ seen context world, keep seen context world → world.logAt path = some log)
    (start : keep [] context world) (safe : ∀ seen context world, keep seen context world → crash world)
    (turn : ∀ seen digest later context world,
      Framing.records digestSize log.data = seen ++ digest :: later → keep seen context world →
      wp (callback digest context) (fun result after =>
        if result.1 then keep (seen ++ [digest]) result.2 after
        else post (.error .einval, result.2) after) crash world)
    (failed : ∀ errno seen context world, Transient errno → keep seen context world →
      post (.error errno, context) world)
    (done : ∀ count context world, keep (Framing.records digestSize log.data) context world →
      post (.ok count, context) world)
    (cut : ∀ count context world, keep (Framing.records digestSize log.data) context world →
      count = (Framing.records digestSize log.data).length →
      post (.ok count, context) (world.changeLog path (·.truncate (count * digestSize)))) :
    wp (logReplay path callback context) post crash world := by
  refine wp_bind (wp_attempt (safe _ _ _ start) ?_ ?_)
  · exact fun errno transient => (wp_pure _).mpr (failed errno [] context world transient start)
  · rw [present _ _ _ start]
    simp only
    let ready (current : Nat × κ) (middle : World) : Prop := ∃ seen later,
      Framing.records digestSize log.data = seen ++ later ∧ current.1 = seen.length ∧
      keep seen current.2 middle
    refine wp_loop ready ?_ (⟨[], _, rfl, rfl, start⟩ : ready (0, context) world)
    rintro ⟨count, context⟩ middle ⟨seen, later, divided, rfl, held⟩
    refine wp_bind ((wp_readDigest (present _ _ _ held) _).mono ?_ ?_)
    · rintro result after ⟨rfl, read⟩
      cases result with
      | failed errno => exact (wp_pure _).mpr (failed errno seen context after read held)
      | eof rest =>
        obtain ⟨rfl, short⟩ := read
        obtain rfl := records_end divided short
        rw [List.append_nil] at divided
        rw [← divided] at held
        simp only
        split
        · exact (wp_pure _).mpr (done _ _ _ held)
        · rw [if_pos trivial]
          refine wp_bind (wp_attempt (safe _ _ _ held) ?_ ?_)
          · exact fun errno transient => (wp_pure _).mpr (failed errno _ context after transient held)
          · exact (wp_pure _).mpr (cut _ _ _ held (by rw [divided]))
      | digest digest =>
        obtain ⟨rest, rfl⟩ := records_next divided read
        refine wp_bind ((turn seen digest rest context after divided held).mono ?_ fun _ held => held)
        rintro ⟨accepted, next⟩ last held
        cases accepted with
        | false => exact (wp_pure _).mpr (by simpa using held)
        | true =>
          have kept : keep (seen ++ [digest]) next last := by simpa using held
          refine (wp_pure _).mpr ⟨⟨seen ++ [digest], rest, ?_, ?_, kept⟩, safe _ _ _ kept⟩
          · rw [divided, List.append_assoc, List.singleton_append]
          · rw [List.length_append, List.length_singleton]
    · rintro after rfl
      exact safe _ _ _ held

/-- Without its log a filter is not replayed. -/
theorem wp_logReplay_missing (missing : world.logAt path = none) (safe : crash world)
    (failed : ∀ errno, Transient errno ∨ errno = .enoent → post (.error errno, context) world) :
    wp (logReplay path callback context) post crash world := by
  refine wp_bind (wp_attempt safe ?_ ?_)
  · exact fun errno transient => (wp_pure _).mpr (failed errno (Or.inl transient))
  · rw [missing]
    exact (wp_pure _).mpr (failed .enoent (Or.inr rfl))

end Replay

end

end Bloomd
