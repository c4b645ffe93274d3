import Bloomd.ControlRequest
import Bloomd.ResponseSemantics
import Bloomd.TransportSemantics

/-! One run of `bloomctl` over a connection: whatever the transfers are, what it wrote is the
front of one request, and what it read is the whole answer to it. -/

namespace Bloomd

open CrashLogic Prog Framing

namespace Control

section Exchange

variable {wire : Wire} {stream : Bytes} {socket : Socket}

/-- Whatever its transfers are, a writer sends the front of its frame, and all of it if it
succeeds. -/
theorem wp_writeResponse (frame : Response) : wp (Transport.writeResponse frame) (fun result after => ∃ sent left,
    frame.wire = sent ++ left ∧ (result = .ok () → left = []) ∧
    after = { wire with outgoing := wire.outgoing ++ sent })
    (fun _ => True) wire := by
  let keep (vector : List Bytes) (middle : Wire) : Prop := ∃ sent, frame.wire = sent ++ vector.flatten ∧
    middle = { wire with outgoing := wire.outgoing ++ sent }
  have ready : keep (Transport.pieces frame) wire := by
    refine ⟨[], ?_, ?_⟩
    · rw [Transport.flatten_pieces, List.nil_append]
    · rw [List.append_nil]
  apply wp_loop keep _ ready
  rintro vector middle ⟨sent, split, rfl⟩
  by_cases done : vector = []
  · simp only [done, ↓reduceIte]
    apply (wp_pure _).mpr
    refine ⟨sent, [], ?_, fun _ => rfl, rfl⟩
    rw [split, done, List.flatten_nil]
  · simp only [done, ↓reduceIte]
    apply wp_bind
    apply (wp_call _).mpr
    refine ⟨trivial, ?_⟩
    intro transfer
    cases transfer with
    | again =>
      apply (wp_pure _).mpr
      exact ⟨sent, _, split, (by intro impossible; cases impossible), rfl⟩
    | interrupted => exact (wp_pure _).mpr ⟨⟨sent, split, rfl⟩, trivial⟩
    | failed errno =>
      apply (wp_pure _).mpr
      exact ⟨sent, _, split, (by intro impossible; cases impossible), rfl⟩
    | moved n =>
      simp only
      have whole : frame.wire = (sent ++ vector.flatten.take n) ++ vector.flatten.drop n := by
        rw [List.append_assoc, List.take_append_drop, split]
      split
      · apply (wp_pure _).mpr
        exact ⟨_, _, whole, (by intro impossible; cases impossible), by rw [List.append_assoc]⟩
      · apply (wp_pure _).mpr
        refine ⟨⟨sent ++ vector.flatten.take n, ?_, by simp only [List.append_assoc]⟩, trivial⟩
        have same : vector.flatten.drop (min n vector.flatten.length) = vector.flatten.drop n := by
          rcases Nat.le_total n vector.flatten.length with short | long
          · rw [Nat.min_eq_left short]
          · rw [Nat.min_eq_right long, List.drop_length, List.drop_eq_nil_of_le long]
        rw [Transport.resume_flatten, same]
        exact whole

/-- What a reader returns are the bytes that came in. -/
theorem wp_readAll (want : Nat) : wp (Transport.readAll want) (fun result after => after.outgoing = wire.outgoing ∧
    ∀ chunk, result = .ok chunk → chunk.length = want ∧ wire.incoming = chunk ++ after.incoming)
      (fun _ => True) wire := by
  let keep (got : Bytes) (middle : Wire) : Prop :=
    middle.outgoing = wire.outgoing ∧ got.length ≤ want ∧ wire.incoming = got ++ middle.incoming
  have ready : keep [] wire := ⟨rfl, Nat.zero_le _, rfl⟩
  apply wp_loop keep _ ready
  rintro got middle ⟨same, within, split⟩
  by_cases done : want ≤ got.length
  · simp only [done, ↓reduceIte]
    apply (wp_pure _).mpr
    refine ⟨same, ?_⟩
    intro chunk ok
    obtain rfl := Except.ok.inj ok
    exact ⟨by omega, split⟩
  · simp only [done, ↓reduceIte]
    apply wp_bind
    apply (wp_call _).mpr
    refine ⟨trivial, ?_⟩
    intro transfer
    cases transfer with
    | again =>
      apply (wp_pure _).mpr
      exact ⟨same, fun chunk impossible => by cases impossible⟩
    | interrupted => exact (wp_pure _).mpr ⟨⟨same, within, split⟩, trivial⟩
    | failed errno =>
      apply (wp_pure _).mpr
      exact ⟨same, fun chunk impossible => by cases impossible⟩
    | moved n =>
      simp only
      split
      · apply (wp_pure _).mpr
        exact ⟨same, fun chunk impossible => by cases impossible⟩
      · apply (wp_pure _).mpr
        refine ⟨⟨same, ?_, ?_⟩, trivial⟩
        · rw [List.length_append, List.length_take]
          omega
        · rw [List.append_assoc, List.take_append_drop, split]

/-- A frame that was read stood at the front of the stream. -/
theorem wp_readFrame : wp Transport.readFrame (fun result after => after.outgoing = wire.outgoing ∧
    ∀ header body, result = .ok (header, body) → body.length = header.bodyLen.toNat ∧
      ∃ raw, raw.length = frameHeaderSize ∧ header = .ofBytes raw ∧ wire.incoming = raw ++ (body ++ after.incoming))
    (fun _ => True) wire := by
  have refused : ∀ (errno : Errno) (middle : Wire), middle.outgoing = wire.outgoing →
      wp (pure (.error errno) : Prog Wire Transfer (Except Errno (FrameHeader × Bytes)))
        (fun result after => after.outgoing = wire.outgoing ∧
          ∀ header body, result = .ok (header, body) → body.length = header.bodyLen.toNat ∧
            ∃ raw, raw.length = frameHeaderSize ∧ header = .ofBytes raw ∧
              wire.incoming = raw ++ (body ++ after.incoming))
        (fun _ => True) middle := by
    intro errno middle same
    exact (wp_pure _).mpr ⟨same, fun header body impossible => by cases impossible⟩
  unfold Transport.readFrame
  apply wp_bind
  apply (wp_readAll frameHeaderSize).mono _ fun _ held => held
  rintro heading middle ⟨same, front⟩
  cases heading with
  | error errno => exact refused errno middle same
  | ok raw =>
    obtain ⟨size, split⟩ := front raw rfl
    simp only
    split
    · exact refused _ middle same
    · split
      · rename_i empty
        apply (wp_pure _).mpr
        refine ⟨same, ?_⟩
        intro header body ok
        cases ok
        exact ⟨by rw [empty]; rfl, raw, size, rfl, by rw [List.nil_append]; exact split⟩
      · apply wp_bind
        apply (wp_readAll _).mono _ fun _ held => held
        rintro received after ⟨still, back⟩
        cases received with
        | error errno => exact refused errno after (still.trans same)
        | ok body =>
          obtain ⟨length, rest⟩ := back body rfl
          apply (wp_pure _).mpr
          refine ⟨still.trans same, ?_⟩
          intro header content ok
          cases ok
          exact ⟨length, raw, size, rfl, by rw [← rest]; exact split⟩

/-- The front of one request holds that request or none. -/
theorem requestFrames_front {frame : Response} {left : Bytes}
    (valid : headerIsValid (Transport.outHeader frame) = .ok ())
    (fits : frame.body.length ≤ maxFrameBody) (whole : frame.wire = stream ++ left) :
    requestFrames stream <+: [(Transport.outHeader frame, frame.body)] := by
  have magic : (Transport.outHeader frame).magic.length = 4 := by
    rw [(headerIsValid_iff.mp valid).1]
    rfl
  have long : (Transport.outHeader frame).toBytes.length = frameHeaderSize := FrameHeader.length_toBytes magic
  have small : frame.body.length < 2 ^ 32 := Nat.lt_of_le_of_lt fits (by decide)
  have sized : announced (Transport.outHeader frame).toBytes = some frame.body.length := by
    rw [announced, FrameHeader.ofBytes_toBytes magic, if_pos valid]
    exact congrArg some (Nat.mod_eq_of_lt small)
  have split : (Transport.outHeader frame).toBytes ++ frame.body = stream ++ left := whole
  by_cases cut : stream.length < frameHeaderSize
  · rw [requestFrames, frames_short cut]
    exact List.nil_prefix
  · obtain ⟨read, rfl⟩ : ∃ read, stream = (Transport.outHeader frame).toBytes ++ read := by
      rcases List.append_eq_append_iff.mp split with ⟨more, same, _⟩ | ⟨more, same, _⟩
      · exact ⟨more, same⟩
      · have sizes := congrArg List.length same
        rw [List.length_append, long] at sizes
        have none : more = [] := List.eq_nil_of_length_eq_zero (by omega)
        rw [none, List.append_nil] at same
        exact ⟨[], by rw [List.append_nil, same]⟩
    rw [List.append_assoc] at split
    have rest := List.append_cancel_left split
    by_cases complete : left = []
    · rw [complete, List.append_nil] at rest
      have positive : 0 < frameHeaderSize := Nat.succ_pos 15
      have single : frames frameHeaderSize announced ((Transport.outHeader frame).toBytes ++ frame.body) =
          [((Transport.outHeader frame).toBytes, frame.body)] := by
        have first := @frames_cons UInt8 frameHeaderSize announced _ _ [] positive long sized
        rw [List.append_nil, @frames_short UInt8 frameHeaderSize announced [] positive] at first
        exact first
      simp only [requestFrames, ← rest, single, List.map_cons, List.map_nil, FrameHeader.ofBytes_toBytes magic,
        List.prefix_refl]
    · have shorter : read.length < frame.body.length := by
        have more := List.length_pos_iff.mpr complete
        rw [rest, List.length_append]
        omega
      rw [requestFrames, frames_cut long sized shorter]
      exact List.nil_prefix

/-- A frame that the client could read is the answer to the one request it had dispatched. -/
theorem answer_of_read {raw body rest : Bytes} {header : FrameHeader}
    (sent : socket.outgoing <+: socket.dispatched.flatMap fun served => served.2.wire)
    (once : socket.dispatched.length ≤ 1) (formed : ∀ served ∈ socket.dispatched, served.2.WellFormed served.1)
    (size : raw.length = frameHeaderSize) (heading : header = .ofBytes raw)
    (sized : body.length = header.bodyLen.toNat)
    (split : socket.outgoing = raw ++ (body ++ rest)) : ∃ view response, socket.dispatched = [(view, response)] ∧
      header = Transport.outHeader response ∧ body = response.body := by
  rw [split] at sent
  cases dispatched : socket.dispatched with
  | nil =>
    rw [dispatched, List.flatMap_nil] at sent
    have none := List.prefix_nil.mp sent
    have sizes := congrArg List.length none
    rw [List.length_append, size] at sizes
    exact absurd sizes (by simp [frameHeaderSize])
  | cons served others =>
    rw [dispatched, List.length_cons] at once
    have alone : others = [] := List.eq_nil_of_length_eq_zero (by omega)
    subst alone
    obtain ⟨view, response⟩ := served
    have wellFormed := formed (view, response) (dispatched ▸ List.mem_singleton_self _)
    rw [dispatched, List.flatMap_singleton] at sent
    obtain ⟨left, whole⟩ := sent
    have magic : (Transport.outHeader response).magic.length = 4 := by
      rw [Transport.outHeader, wellFormed.magic]
      rfl
    have parts : raw ++ (body ++ rest ++ left) = (Transport.outHeader response).toBytes ++ response.body := by
      rw [← List.append_assoc]
      exact whole
    obtain ⟨same, content⟩ := List.append_inj parts (size.trans (FrameHeader.length_toBytes magic).symm)
    have equal : header = Transport.outHeader response := by
      rw [heading, same, FrameHeader.ofBytes_toBytes magic]
    refine ⟨view, response, rfl, equal, ?_⟩
    have small : response.body.length < 2 ^ 32 := Nat.lt_of_le_of_lt wellFormed.bounded (by decide)
    have length : body.length = response.body.length := by
      rw [sized, equal]
      exact Nat.mod_eq_of_lt small
    rw [List.append_assoc] at content
    have cut := congrArg (List.take body.length) content
    rw [List.take_left, length, List.take_length] at cut
    exact cut

/-- What is known of a run of the client: what it wrote, and what it read if it came to an answer -/
structure Exchanged (cmd : Bytes) (arguments : List Bytes) (incoming : Bytes) (opcode : Opcode) (body : Bytes)
    (ending : Ending) (written : Bytes) : Prop where
  asks : Asks cmd arguments opcode body
  fits : body.length ≤ maxFrameBody
  front : ∃ left, (outgoing opcode.code 1 body).wire = written ++ left
  read : ∀ result, ending = .answered result → ∃ (seen : RequestView) (raw rest : Bytes),
    result = receive seen opcode ∧
    raw.length = frameHeaderSize ∧ seen.header = .ofBytes raw ∧ incoming = raw ++ (seen.body ++ rest)

theorem wp_main [Strto] (connect : Bytes → Except Errno Unit) (arguments : List Bytes) (incoming : Bytes) :
    wp (main connect arguments) (fun ending after => (after.outgoing = [] ∧ ∀ result, ending ≠ .answered result) ∨
      ∃ path cmd parameters opcode body, socketArguments arguments = (path, cmd :: parameters) ∧
        Exchanged cmd parameters incoming opcode body ending after.outgoing) (fun _ => True) ⟨incoming, []⟩ := by
  have quiet : ∀ ending : Ending, (∀ result, ending ≠ .answered result) →
      wp (pure ending : Prog Wire Transfer Ending) (fun ending after =>
        (after.outgoing = [] ∧ ∀ result, ending ≠ .answered result) ∨
        ∃ path cmd parameters opcode body, socketArguments arguments = (path, cmd :: parameters) ∧
          Exchanged cmd parameters incoming opcode body ending after.outgoing) (fun _ => True) ⟨incoming, []⟩ :=
    fun ending unanswered => (wp_pure _).mpr (Or.inl ⟨rfl, unanswered⟩)
  unfold main
  split
  · exact quiet _ fun result => Ending.noConfusion
  · rename_i path cmd parameters split
    split_ifs
    · exact quiet _ fun result => Ending.noConfusion
    · split
      · rename_i ending refused
        exact quiet _ (request_early _ _ ending refused)
      · rename_i opcode body made
        obtain ⟨asks, fits⟩ := request_asks made
        cases connect path with
        | error errno => exact quiet _ fun result => Ending.noConfusion
        | ok done =>
          apply wp_bind
          apply wp_bind
          apply (wp_writeResponse (outgoing opcode.code 1 body)).mono _ fun _ held => held
          rintro written middle ⟨sent, left, whole, complete, rfl⟩
          have exchanged : ∀ errno, Exchanged cmd parameters incoming opcode body (.failed errno) sent := by
            intro errno
            refine ⟨asks, fits, ⟨left, whole⟩, ?_⟩
            intro result impossible
            cases impossible
          cases written with
          | error errno =>
            apply (wp_pure _).mpr
            exact (wp_pure _).mpr (Or.inr ⟨path, cmd, parameters, opcode, body, split, exchanged errno⟩)
          | ok done =>
            apply wp_readFrame.mono _ fun _ held => held
            rintro received after ⟨same, front⟩
            simp only [List.nil_append] at same front
            cases received with
            | error errno =>
              apply (wp_pure _).mpr
              exact Or.inr ⟨path, cmd, parameters, opcode, body, split, same ▸ exchanged errno⟩
            | ok frame =>
              obtain ⟨header, content⟩ := frame
              obtain ⟨sized, raw, size, heading, stood⟩ := front header content rfl
              apply (wp_pure _).mpr
              refine Or.inr ⟨path, cmd, parameters, opcode, body, split, asks, fits, ⟨left, same ▸ whole⟩, ?_⟩
              intro result ended
              rw [answered, dif_pos sized] at ended
              exact ⟨⟨header, content, sized⟩, raw, _, (Ending.answered.inj ended).symm, size, heading, stood⟩

end Exchange

end Control

end Bloomd
