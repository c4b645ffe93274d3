import Bloomd.LogSemantics

/-! The functions of `log.c` on a machine without faults: they return, and with
the result their names promise. -/

namespace Bloomd

open CrashLogic Prog

section

variable {world : World} {path : Bytes} {log : LogFile}

theorem completes_sysWrite (present : world.logAt path = some log) (chunk : Bytes) (some : chunk ≠ []) :
    Completes (sysWrite path chunk)
      (fun result after => ∃ n, result = .moved n ∧ 0 < n ∧ n ≤ chunk.length ∧
        LogNow path (log.append (chunk.take n)) world after) world := by
  have positive : 0 < chunk.length := List.length_pos_iff.mpr some
  have whole : LogNow path (log.append (chunk.take chunk.length)) world
      (world.changeLog path (·.append chunk)) := by
    rw [List.take_length]
    exact .change present (·.append chunk)
  refine completes_call fun answer easy => ?_
  cases answer with
  | ok => exact ⟨_, rfl, positive, Nat.le_refl _, whole⟩
  | time now => exact ⟨_, rfl, positive, Nat.le_refl _, whole⟩
  | count n =>
    have same : chunk.take (min n chunk.length) = chunk.take n := by
      rw [← List.take_take, List.take_length]
    refine ⟨_, rfl, Nat.lt_min.mpr ⟨easy, positive⟩, Nat.min_le_right _ _, ?_⟩
    rw [same]
    exact .change present (·.append (chunk.take n))
  | fail fault => exact easy.elim
  | interrupted => exact easy.elim

theorem completes_writeAll (present : world.logAt path = some log) (buf : Bytes) :
    Completes (writeAll path buf)
      (fun result after => result = .ok () ∧ LogNow path (log.append buf) world after) world := by
  let keep (rest : Bytes) (middle : World) : Prop :=
    ∃ written, buf = written ++ rest ∧ LogNow path (log.append written) world middle
  have start : keep buf world := ⟨[], rfl, by rw [LogFile.append_nil]; exact .here present⟩
  refine completes_loop keep (fun rest _ => rest.length) ?_ ?_ start
  · intro rest middle next after unused
    split
    · simp [pure_apply]
    · simp [bind_apply, sysWrite, call]
  · rintro rest middle ⟨written, split, now⟩
    by_cases done : rest = []
    · rw [if_pos done]
      refine completes_pure _ ⟨rfl, ?_⟩
      rw [split, done, List.append_nil]
      exact now
    · rw [if_neg done]
      refine completes_bind ((completes_sysWrite now.now rest done).mono ?_)
      rintro _ after ⟨n, rfl, positive, bound, moved⟩
      have further := now.trans moved
      rw [LogFile.append_append] at further
      simp only [Nat.pos_iff_ne_zero.mp positive, ↓reduceIte]
      refine completes_pure _ ⟨⟨written ++ rest.take n, ?_, further⟩, ?_⟩
      · rw [List.append_assoc, List.take_append_drop]
        exact split
      · rw [List.length_drop]
        have length := List.length_pos_iff.mpr done
        omega

theorem completes_logBufferFlush (present : world.logAt path = some log) (buf : Bytes) (sync : Bool) :
    Completes (logBufferFlush (some path) buf sync)
      (fun result after => result = (.ok (), []) ∧
        LogNow path (if sync then (log.append buf).synced else log.append buf) world after) world := by
  refine completes_bind ((completes_writeAll present buf).mono ?_)
  rintro _ after ⟨rfl, now⟩
  cases sync with
  | false => exact completes_pure _ ⟨rfl, now⟩
  | true =>
    refine completes_bind (completes_attempt ?_)
    exact completes_pure _ ⟨rfl, now.trans (.change now.now LogFile.synced)⟩

theorem completes_logBufferAppend (present : world.logAt path = some log) (buf : Bytes)
    (room : buf.length ≤ logBufferCap) (digest : Digest) :
    Completes (logBufferAppend (some path) buf digest)
      (fun result after => ∃ written kept, result = (.ok (), kept) ∧ written ++ kept = buf ++ digest.val ∧
        LogNow path (log.append written) world after) world := by
  unfold logBufferAppend
  simp only
  split
  · omega
  · split
    · refine completes_bind ((completes_writeAll present buf).mono ?_)
      rintro _ after ⟨rfl, now⟩
      exact completes_pure _ ⟨buf, _, rfl, rfl, now⟩
    · refine completes_pure _ ⟨[], _, rfl, rfl, ?_⟩
      rw [LogFile.append_nil]
      exact .here present

theorem completes_readDigest (present : world.logAt path = some log) (position : Nat) :
    Completes (readDigest path position)
      (fun result after => after = world ∧ match result with
        | .digest digest => (log.data.drop position).take digestSize = digest.val
        | .eof rest => rest = log.data.drop position ∧ rest.length < digestSize
        | .failed _ => False) world := by
  refine completes_loop (fun got middle => middle = world ∧ got.length < digestSize ∧
    got = (log.data.drop position).take got.length) (fun got _ => digestSize - got.length) ?_ ?_
    ⟨rfl, by decide, by simp⟩
  · intro got middle next after rest
    simp [bind_apply, sysRead, call]
  · rintro got middle ⟨rfl, short, sofar⟩
    have reads : Completes (sysRead path (position + got.length) (digestSize - got.length))
        (fun result after => after = middle ∧ ∃ want, 0 < want ∧ want ≤ digestSize - got.length ∧
          result = .moved (((log.data.drop position).drop got.length).take want)) middle := by
      refine completes_call fun answer easy => ?_
      have there : ((middle.logAt path).map LogFile.data).getD [] = log.data := by rw [present]; rfl
      simp only [there, ← List.drop_drop]
      cases answer with
      | interrupted => exact easy.elim
      | fail fault => exact easy.elim
      | count n => exact ⟨rfl, _, by omega, Nat.min_le_right _ _, rfl⟩
      | ok => exact ⟨rfl, _, by omega, Nat.le_refl _, rfl⟩
      | time now => exact ⟨rfl, _, by omega, Nat.le_refl _, rfl⟩
    refine completes_bind (reads.mono ?_)
    rintro _ after ⟨rfl, want, positive, bound, rfl⟩
    have spec := takeMore_spec short sofar positive bound
    refine completes_pure _ ?_
    generalize takeMore got _ = taken at spec
    match taken, spec with
    | .inl next, spec => exact ⟨⟨rfl, spec.1, spec.2.1⟩, by have := spec.2.2; have := spec.1; omega⟩
    | .inr (.digest digest), spec => exact ⟨rfl, spec⟩
    | .inr (.eof rest), spec => exact ⟨rfl, spec⟩
    | .inr (.failed errno), spec => exact spec.elim

/-- A replay whose callback accepts every record returns their number. -/
theorem completes_logReplayImpl {κ : Type} {callback : Digest → κ → Sys (Bool × κ)} {context : κ}
    {truncatePartial : Bool} {post : Except Errno Nat × κ → World → Prop} (log : LogFile)
    (keep : List Digest → κ → World → Prop)
    (present : ∀ seen context world, keep seen context world → world.logAt path = some log)
    (start : keep [] context world)
    (turn : ∀ seen digest later context world,
      Framing.records digestSize log.data = seen ++ digest :: later → keep seen context world →
      Completes (callback digest context) (fun result after =>
        result.1 = true ∧ keep (seen ++ [digest]) result.2 after) world)
    (done : ∀ context world, keep (Framing.records digestSize log.data) context world →
      post (.ok (Framing.records digestSize log.data).length, context) world)
    (cut : ∀ context world, truncatePartial = true → keep (Framing.records digestSize log.data) context world →
      post (.ok (Framing.records digestSize log.data).length, context)
        (world.changeLog path (·.truncate ((Framing.records digestSize log.data).length * digestSize)))) :
    Completes (logReplayImpl path callback context truncatePartial) post world := by
  refine completes_bind (completes_attempt ?_)
  rw [present _ _ _ start]
  simp only
  let ready (current : Nat × κ) (middle : World) : Prop := ∃ seen later,
    Framing.records digestSize log.data = seen ++ later ∧ current.1 = seen.length ∧
    keep seen current.2 middle
  refine completes_loop ready
    (fun current _ => (Framing.records digestSize log.data).length - current.1) ?_ ?_
    (⟨[], _, rfl, rfl, start⟩ : ready (0, context) world)
  · rintro ⟨count, context⟩ middle next after rest
    have waiting : readDigest path (count * digestSize) middle [] = .crashed middle := by
      rw [readDigest, loop_eq]
      simp [bind_apply, sysRead, call]
    simp [bind_apply, waiting]
  · rintro ⟨count, context⟩ middle ⟨seen, later, divided, rfl, held⟩
    refine completes_bind ((completes_readDigest (present _ _ _ held) _).mono ?_)
    rintro result after ⟨rfl, read⟩
    cases result with
    | failed errno => exact read.elim
    | eof rest =>
      obtain ⟨rfl, short⟩ := read
      obtain rfl := records_end divided short
      rw [List.append_nil] at divided
      rw [← divided] at held ⊢
      simp only
      split
      · exact completes_pure _ (done _ _ held)
      · split
        · rename_i truncates
          refine completes_bind (completes_attempt ?_)
          exact completes_pure _ (cut _ _ truncates held)
        · exact completes_pure _ (done _ _ held)
    | digest digest =>
      obtain ⟨rest, rfl⟩ := records_next divided read
      refine completes_bind ((turn seen digest rest context after divided held).mono ?_)
      rintro ⟨accepted, next⟩ last ⟨rfl, kept⟩
      refine completes_pure _ ⟨⟨seen ++ [digest], rest, ?_, ?_, kept⟩, ?_⟩
      · rw [divided, List.append_assoc, List.singleton_append]
      · rw [List.length_append, List.length_singleton]
      · rw [divided]
        simp
        omega

end

end Bloomd
