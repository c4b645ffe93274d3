import Bloomd.Framing.Frames
import Bloomd.Client
import Bloomd.ResponseSemantics

/-! The connection machine against the stream it serves: however the bytes are cut
into reads and writes, the requests that are dispatched are the frames of the stream,
and the bytes that are sent are the responses to them. -/

namespace Bloomd

open CrashLogic CrashLogic.Prog Framing

section Specification

/-- The length of the body after a header that the daemon accepts -/
def announced (raw : Bytes) : Option Nat :=
  if headerIsValid (.ofBytes raw) = .ok () then some (FrameHeader.ofBytes raw).bodyLen.toNat else none

/-- The requests of a stream, up to the first invalid header or the end -/
def requestFrames (stream : Bytes) : List (FrameHeader × Bytes) :=
  (frames frameHeaderSize announced stream).map fun frame => (.ofBytes frame.1, frame.2)

/-- The bytes of a response on the wire -/
def Response.wire (response : Response) : Bytes :=
  { response.header with bodyLen := response.body.length.toUInt32 }.toBytes ++ response.body

/-- A transfer that does not end the connection -/
inductive Transfer.Smooth : Transfer → Prop
  | moved (positive : 0 < n) : Smooth (.moved n)
  | again : Smooth .again
  | interrupted : Smooth .interrupted

/-- One poll round of the connection: what the rest of the daemon has come to by
then, the answers to the calls of a request, and the transfers of the socket -/
structure Round where
  daemon : Daemon
  world : World
  answers : List Answer
  transfers : List Transfer

/-- A connection on which the peer sends `stream` -/
def accepted (stream : Bytes) : Client × Socket := (.init, ⟨stream, [], []⟩)

/-- The rounds of a connection, unless the daemon crashes in one of them -/
def serveRounds [Libm] : Client × Socket → List Round → Option (Client × Socket)
  | connection, [] => some connection
  | (client, socket), round :: rounds =>
    match pollClient client socket round.daemon round.transfers round.world round.answers with
    | .crashed _ => none
    | .returned (client, socket, _) _ _ => serveRounds (client, socket) rounds

end Specification

section Transfers

variable {transfers : List Transfer}

/-- Reading moves bytes from the stream to the end of the buffer, and says whether
the buffer is full. -/
theorem readSome_moves (want : Nat) (smooth : ∀ transfer ∈ transfers, transfer.Smooth) :
    ∀ buf incoming : Bytes, buf.length ≤ want → ∃ (full : Bool) (chunk later : Bytes),
      readSome want transfers buf incoming = (.ok full, buf ++ chunk, later) ∧ incoming = chunk ++ later ∧
        (buf ++ chunk).length ≤ want ∧ (full = true ↔ want ≤ (buf ++ chunk).length) := by
  induction transfers with
  | nil =>
    intro buf incoming bound
    exact ⟨decide (want ≤ buf.length), [], incoming, by simp [readSome], rfl, by simpa using bound, by simp⟩
  | cons transfer transfers ih =>
    intro buf incoming bound
    have later := ih fun other mem => smooth other (List.mem_cons_of_mem _ mem)
    by_cases filled : want ≤ buf.length
    · exact ⟨true, [], incoming, by simp [readSome, filled], rfl, by simpa using bound, by simpa using filled⟩
    · cases smooth transfer List.mem_cons_self with
      | again =>
        exact ⟨false, [], incoming, by simp [readSome, filled], rfl, by simpa using bound, by simpa using filled⟩
      | interrupted =>
        simp only [readSome, filled, ↓reduceIte]
        exact later buf incoming bound
      | @moved n positive =>
        have some : ¬ n = 0 := by omega
        by_cases dry : incoming = []
        · exact ⟨false, [], incoming, by simp [readSome, filled, some, dry], rfl, by simpa using bound,
            by simpa using filled⟩
        · simp only [readSome, filled, ↓reduceIte, some, dry]
          generalize chosen : incoming.take (min n (want - buf.length)) = chunk
          have short : chunk.length ≤ want - buf.length := by
            rw [← chosen, List.length_take]
            omega
          have split : incoming = chunk ++ incoming.drop chunk.length := by
            rw [← chosen]
            exact (List.prefix_iff_eq_append.mp (List.take_prefix _ _)).symm
          obtain ⟨full, more, left, read, rejoined, within, ends⟩ :=
            later (buf ++ chunk) (incoming.drop chunk.length) (by rw [List.length_append]; omega)
          refine ⟨full, chunk ++ more, left, ?_, ?_, ?_, ?_⟩
          · rw [read, List.append_assoc]
          · rw [List.append_assoc, ← rejoined]
            exact split
          · rwa [← List.append_assoc]
          · rwa [← List.append_assoc]

variable {client : Client}

/-- The bytes that the client is writing -/
def Client.image (client : Client) : Bytes := client.outHeader.toBytes ++ client.response.body

/-- A write is given bytes from the front of what is left. -/
theorem Client.pending_front (headed : client.outHeader.toBytes.length = frameHeaderSize) (offset : Nat) :
    ∃ more, client.image.drop offset = client.pending offset ++ more := by
  unfold Client.pending Client.image
  split
  · rename_i inside
    refine ⟨client.response.body, ?_⟩
    rw [List.drop_append_of_le_length (by omega)]
  · rename_i outside
    refine ⟨[], ?_⟩
    rw [List.drop_append, List.drop_of_length_le (by omega), headed, List.nil_append, List.append_nil]

theorem Client.pending_pos (headed : client.outHeader.toBytes.length = frameHeaderSize) {offset : Nat}
    (unfinished : offset < frameHeaderSize + client.response.body.length) :
    0 < (client.pending offset).length := by
  unfold Client.pending
  split <;> rw [List.length_drop] <;> omega

/-- Writing moves bytes from the front of what is left to the peer. -/
theorem writeSome_moves (headed : client.outHeader.toBytes.length = frameHeaderSize)
    (smooth : ∀ transfer ∈ transfers, transfer.Smooth) :
    ∀ (offset : Nat) (outgoing : Bytes), ∃ (full : Bool) (later : Nat) (chunk : Bytes),
      writeSome client transfers offset outgoing = (.ok full, later, outgoing ++ chunk) ∧
        client.image.drop offset = chunk ++ client.image.drop later ∧
        (full = true → client.image.drop later = []) := by
  have ended : ∀ offset, frameHeaderSize + client.response.body.length ≤ offset →
      client.image.drop offset = [] := by
    intro offset done
    apply List.drop_of_length_le
    rw [Client.image, List.length_append]
    omega
  induction transfers with
  | nil =>
    intro offset outgoing
    refine ⟨decide (frameHeaderSize + client.response.body.length ≤ offset), offset, [], by simp [writeSome], rfl, ?_⟩
    intro done
    exact ended offset (of_decide_eq_true done)
  | cons transfer transfers ih =>
    intro offset outgoing
    have later := ih fun other mem => smooth other (List.mem_cons_of_mem _ mem)
    by_cases done : frameHeaderSize + client.response.body.length ≤ offset
    · exact ⟨true, offset, [], by simp [writeSome, done], rfl, fun _ => ended offset done⟩
    · cases smooth transfer List.mem_cons_self with
      | again => exact ⟨false, offset, [], by simp [writeSome, done], rfl, nofun⟩
      | interrupted =>
        simp only [writeSome, done, ↓reduceIte]
        exact later offset outgoing
      | @moved n positive =>
        simp only [writeSome, done, ↓reduceIte]
        generalize chosen : (client.pending offset).take n = chunk
        have wrote : ¬ chunk.length = 0 := by
          have some := client.pending_pos headed (Nat.lt_of_not_le done)
          rw [← chosen, List.length_take]
          omega
        have split : client.image.drop offset = chunk ++ client.image.drop (offset + chunk.length) := by
          obtain ⟨more, front⟩ := client.pending_front headed offset
          have whole : client.image.drop offset = chunk ++ ((client.pending offset).drop n ++ more) := by
            rw [front, ← chosen, ← List.append_assoc, List.take_append_drop]
          rw [← List.drop_drop, whole, List.drop_left]
        simp only [wrote, ↓reduceIte]
        obtain ⟨full, reached, more, written, left, ends⟩ := later (offset + chunk.length) (outgoing ++ chunk)
        refine ⟨full, reached, chunk ++ more, ?_, ?_, ends⟩
        · rw [written, List.append_assoc]
        · rw [split, left, List.append_assoc]

end Transfers

section Machine

/-- The bytes of a request that the client has read and not dispatched. A closed
client holds the header it refused. -/
inductive Client.Holds (client : Client) : Bytes → Prop
  | heading (state : client.state = .readHeader) (cut : client.reqHeader.length < frameHeaderSize) :
    Holds client client.reqHeader
  | receiving (state : client.state = .readBody) (raw : Bytes) (whole : raw.length = frameHeaderSize)
      (parsed : client.header = .ofBytes raw) (valid : announced raw = some client.header.bodyLen.toNat)
      (cut : client.reqBody.length < client.header.bodyLen.toNat) : Holds client (raw ++ client.reqBody)
  | answering (state : client.state = .writeResponse) : Holds client []
  | refused (state : client.state = .empty) (raw : Bytes) (whole : raw.length = frameHeaderSize)
      (invalid : announced raw = none) : Holds client raw

/-- The bytes that the client has still to write -/
inductive Client.Owes (client : Client) : Bytes → Prop
  | nothing (idle : client.state ≠ .writeResponse) : Owes client []
  | rest (state : client.state = .writeResponse) (headed : client.outHeader.toBytes.length = frameHeaderSize) :
    Owes client (client.image.drop client.writeOffset)

/-- The frames that were dispatched make up the stream with what the client holds and
what it has not read, and the responses make up what was written with what it owes. -/
structure Tracks (stream : Bytes) (client : Client) (socket : Socket) : Prop where
  received : ∃ (read : List (Bytes × Bytes)) (held : Bytes),
    socket.dispatched.map (fun served => (served.1.header, served.1.body)) =
      read.map (fun frame => (.ofBytes frame.1, frame.2)) ∧
    (∀ frame ∈ read, frame.1.length = frameHeaderSize ∧ announced frame.1 = some frame.2.length) ∧
    client.Holds held ∧ stream = read.flatMap (fun frame => frame.1 ++ frame.2) ++ (held ++ socket.incoming)
  sent : ∃ owed, client.Owes owed ∧ socket.outgoing ++ owed = socket.dispatched.flatMap fun served => served.2.wire

variable {stream : Bytes} {client : Client} {socket : Socket}

theorem accepted_tracks (stream : Bytes) : Tracks stream (accepted stream).1 (accepted stream).2 := by
  constructor
  · exact ⟨[], [], rfl, nofun, .heading rfl (Nat.succ_pos _), rfl⟩
  · exact ⟨[], .nothing nofun, rfl⟩

theorem announced_valid {raw : Bytes} (valid : headerIsValid (.ofBytes raw) = .ok ()) :
    announced raw = some (FrameHeader.ofBytes raw).bodyLen.toNat := by
  rw [announced, if_pos valid]

theorem announced_invalid {raw : Bytes} {errno : Errno} (invalid : headerIsValid (.ofBytes raw) = .error errno) :
    announced raw = none := by
  rw [announced, if_neg (by rw [invalid]; nofun)]

theorem settled_wire {opcode : UInt8} {requestId : UInt32} {response : Response}
    (settled : (Response.init opcode requestId).Settled response) :
    ({ response.header with bodyLen := response.body.length.toUInt32 } : FrameHeader).toBytes.length =
      frameHeaderSize := by
  have magic : response.header.magic = protocolMagic := by cases settled <;> rfl
  simp only [FrameHeader.toBytes, magic, storeU32, List.length_append, length_storeLe]
  rfl

/-- A whole request is dispatched once, and its response is got ready from the start. -/
theorem wp_dispatchRequest [Libm] (daemon : Daemon) {body : Bytes} (world : World)
    (sized : body.length = client.header.bodyLen.toNat) :
    wp (dispatchRequest client socket daemon body) (fun result _ => ∃ response : Response,
      ({ response.header with bodyLen := response.body.length.toUInt32 } : FrameHeader).toBytes.length =
        frameHeaderSize ∧
      result.1 = .ok false ∧ result.2.1 = Client.prepareWrite { client with response } ∧
      result.2.2.1 = { socket with
        dispatched := socket.dispatched ++ [(⟨client.header, body, sized⟩, response)] })
      (fun _ => True) world := by
  unfold dispatchRequest
  rw [dif_pos sized, Response.reset_eq]
  apply wp_bind
  apply ((returns_dispatch _ ⟨client.header, body, sized⟩ client.header.opcode
    client.header.requestId).wp world).mono
  · intro served after good
    obtain ⟨result, response, later⟩ := served
    obtain ⟨done, settled⟩ := good
    simp only at done settled
    subst done
    exact (wp_pure _).mpr ⟨response, settled_wire settled, rfl, rfl, rfl⟩
  · exact fun _ _ => trivial

/-- A request that has been read whole is dispatched next in the stream's order. -/
theorem wp_dispatchRequest_tracks [Libm] (daemon : Daemon) {raw body : Bytes} (world : World)
    {read : List (Bytes × Bytes)}
    (order : socket.dispatched.map (fun served => (served.1.header, served.1.body)) =
      read.map (fun frame => (.ofBytes frame.1, frame.2)))
    (whole : ∀ frame ∈ read, frame.1.length = frameHeaderSize ∧ announced frame.1 = some frame.2.length)
    (parsed : client.header = .ofBytes raw) (header : raw.length = frameHeaderSize)
    (valid : announced raw = some body.length) (sized : body.length = client.header.bodyLen.toNat)
    (split : stream = read.flatMap (fun frame => frame.1 ++ frame.2) ++ ((raw ++ body) ++ socket.incoming))
    (sent : socket.outgoing = socket.dispatched.flatMap fun served => served.2.wire) :
    wp (dispatchRequest client socket daemon body) (fun result _ =>
      result.1 = .ok false ∧ Tracks stream result.2.1 result.2.2.1) (fun _ => True) world := by
  apply (wp_dispatchRequest daemon world sized).mono
  · intro result after served
    obtain ⟨code, later, peer, last⟩ := result
    obtain ⟨response, headed, rfl, rfl, rfl⟩ := served
    refine ⟨rfl, ?_, ?_⟩
    · refine ⟨read ++ [(raw, body)], [], ?_, ?_, .answering rfl, ?_⟩
      · simp [order, parsed]
      · intro frame mem
        rcases List.mem_append.mp mem with old | new
        · exact whole frame old
        · obtain rfl := List.mem_singleton.mp new
          exact ⟨header, valid⟩
      · simp [split]
    · refine ⟨_, .rest rfl headed, ?_⟩
      simp [sent, Client.prepareWrite, Client.image, Response.wire]
  · exact fun _ _ => trivial

/-- The read side while the header is not complete -/
theorem wp_driveRead_heading [Libm] (daemon : Daemon) {transfers : List Transfer} (world : World)
    {read : List (Bytes × Bytes)} (smooth : ∀ transfer ∈ transfers, transfer.Smooth)
    (state : client.state = .readHeader) (cut : client.reqHeader.length < frameHeaderSize)
    (order : socket.dispatched.map (fun served => (served.1.header, served.1.body)) =
      read.map (fun frame => (.ofBytes frame.1, frame.2)))
    (whole : ∀ frame ∈ read, frame.1.length = frameHeaderSize ∧ announced frame.1 = some frame.2.length)
    (split : stream = read.flatMap (fun frame => frame.1 ++ frame.2) ++ (client.reqHeader ++ socket.incoming))
    (sent : socket.outgoing = socket.dispatched.flatMap fun served => served.2.wire) :
    wp (driveRead client socket daemon transfers) (fun result _ =>
      result.1 ≠ .ok true ∧ Tracks stream (closeFailed result).1 (closeFailed result).2.1)
      (fun _ => True) world := by
  obtain ⟨full, chunk, left, moved, incoming, within, ends⟩ :=
    readSome_moves frameHeaderSize smooth client.reqHeader socket.incoming cut.le
  have stay : stream = read.flatMap (fun frame => frame.1 ++ frame.2) ++ (client.reqHeader ++ chunk ++ left) := by
    rw [split, incoming, List.append_assoc]
  have owed : socket.outgoing ++ [] = socket.dispatched.flatMap fun served => served.2.wire := by simpa using sent
  unfold driveRead
  simp only [state, moved]
  cases full with
  | false =>
    have short : (client.reqHeader ++ chunk).length < frameHeaderSize := by
      by_contra long
      exact absurd (ends.mpr (Nat.le_of_not_lt long)) nofun
    apply (wp_pure _).mpr
    exact ⟨nofun, ⟨read, _, order, whole, .heading rfl short, stay⟩, ⟨[], .nothing nofun, owed⟩⟩
  | true =>
    have size : (client.reqHeader ++ chunk).length = frameHeaderSize := Nat.le_antisymm within (ends.mp rfl)
    generalize client.reqHeader ++ chunk = raw at *
    simp only
    split
    · rename_i errno invalid
      apply (wp_pure _).mpr
      exact ⟨nofun, ⟨read, raw, order, whole, .refused rfl raw size (announced_invalid invalid), stay⟩,
        ⟨[], .nothing nofun, owed⟩⟩
    · rename_i valid
      have announces := announced_valid valid
      split
      · rename_i none
        rw [none] at announces
        refine wp.mono (wp_dispatchRequest_tracks daemon world order whole rfl size announces
          (by simp [none]) (by simpa using stay) sent) ?_ fun _ _ => trivial
        rintro ⟨code, after, peer, last⟩ _ ⟨rfl, tracks⟩
        exact ⟨nofun, tracks⟩
      · rename_i some
        have positive : 0 < (FrameHeader.ofBytes raw).bodyLen.toNat := by
          rw [Nat.pos_iff_ne_zero]
          intro zero
          exact some (UInt32.toNat_inj.mp zero)
        rw [← List.append_nil raw] at stay
        apply (wp_pure _).mpr
        exact ⟨nofun, ⟨read, _, order, whole, .receiving rfl raw size rfl announces positive, stay⟩,
          ⟨[], .nothing nofun, owed⟩⟩

/-- The read side while the body is not complete -/
theorem wp_driveRead_receiving [Libm] (daemon : Daemon) {transfers : List Transfer} (world : World)
    {read : List (Bytes × Bytes)} {raw : Bytes} (smooth : ∀ transfer ∈ transfers, transfer.Smooth)
    (state : client.state = .readBody) (size : raw.length = frameHeaderSize) (parsed : client.header = .ofBytes raw)
    (valid : announced raw = some client.header.bodyLen.toNat)
    (cut : client.reqBody.length < client.header.bodyLen.toNat)
    (order : socket.dispatched.map (fun served => (served.1.header, served.1.body)) =
      read.map (fun frame => (.ofBytes frame.1, frame.2)))
    (whole : ∀ frame ∈ read, frame.1.length = frameHeaderSize ∧ announced frame.1 = some frame.2.length)
    (split : stream = read.flatMap (fun frame => frame.1 ++ frame.2) ++
      (raw ++ client.reqBody ++ socket.incoming))
    (sent : socket.outgoing = socket.dispatched.flatMap fun served => served.2.wire) :
    wp (driveRead client socket daemon transfers) (fun result _ =>
      result.1 ≠ .ok true ∧ Tracks stream (closeFailed result).1 (closeFailed result).2.1)
      (fun _ => True) world := by
  obtain ⟨full, chunk, left, moved, incoming, within, ends⟩ :=
    readSome_moves client.header.bodyLen.toNat smooth client.reqBody socket.incoming cut.le
  have stay : stream = read.flatMap (fun frame => frame.1 ++ frame.2) ++
      (raw ++ (client.reqBody ++ chunk) ++ left) := by
    rw [split, incoming]
    simp only [List.append_assoc]
  have owed : socket.outgoing ++ [] = socket.dispatched.flatMap fun served => served.2.wire := by simpa using sent
  unfold driveRead
  simp only [state, moved]
  cases full with
  | false =>
    have short : (client.reqBody ++ chunk).length < client.header.bodyLen.toNat := by
      by_contra long
      exact absurd (ends.mpr (Nat.le_of_not_lt long)) nofun
    apply (wp_pure _).mpr
    exact ⟨nofun, ⟨read, _, order, whole, .receiving rfl raw size parsed valid short, stay⟩,
      ⟨[], .nothing nofun, owed⟩⟩
  | true =>
    have filled : (client.reqBody ++ chunk).length = client.header.bodyLen.toNat :=
      Nat.le_antisymm within (ends.mp rfl)
    generalize client.reqBody ++ chunk = body at *
    rw [← filled] at valid
    refine wp.mono (wp_dispatchRequest_tracks daemon world order whole parsed size valid filled stay sent) ?_
      fun _ _ => trivial
    rintro ⟨code, after, peer, last⟩ _ ⟨rfl, tracks⟩
    exact ⟨nofun, tracks⟩

/-- The write side: what was owed is sent from the front, and a response that is
sent whole leaves the machine at the next header. -/
theorem driveWrite_tracks (daemon : Daemon) {transfers : List Transfer}
    (smooth : ∀ transfer ∈ transfers, transfer.Smooth) (state : client.state = .writeResponse)
    (tracks : Tracks stream client socket) :
    Tracks stream (closeFailed (driveWrite client socket daemon transfers)).1
      (closeFailed (driveWrite client socket daemon transfers)).2.1 := by
  obtain ⟨read, held, order, whole, holds, split⟩ := tracks.received
  obtain ⟨owed, owes, sent⟩ := tracks.sent
  obtain rfl : held = [] := by
    cases holds with
    | answering => rfl
    | heading other | receiving other | refused other =>
      rw [state] at other
      cases other
  cases owes with
  | nothing idle => exact absurd state idle
  | rest _ headed =>
    obtain ⟨full, later, chunk, written, left, ends⟩ :=
      writeSome_moves headed smooth client.writeOffset socket.outgoing
    rw [left, ← List.append_assoc] at sent
    unfold driveWrite
    simp only [written]
    cases full with
    | false =>
      exact ⟨⟨read, [], order, whole, .answering state, split⟩, ⟨_, .rest state headed, sent⟩⟩
    | true =>
      rw [ends rfl] at sent
      exact ⟨⟨read, [], order, whole, .heading rfl (Nat.succ_pos _), split⟩, ⟨[], .nothing nofun, sent⟩⟩

/-- A round of a client that still reads -/
theorem pollClient_reading [Libm] (daemon : Daemon) (transfers : List Transfer)
    (idle : client.state = .readHeader ∨ client.state = .readBody) :
    pollClient client socket daemon transfers = (do
      let (code, client, socket, daemon) ← driveRead client socket daemon transfers
      if code = .ok true ∧ client.state = .writeResponse then
        pure (closeFailed (driveWrite client socket daemon transfers))
      else pure (closeFailed (code, client, socket, daemon))) := by
  rcases idle with state | state <;> simp only [pollClient, state]

/-- What one poll round does -/
theorem wp_pollClient [Libm] (daemon : Daemon) {transfers : List Transfer} (world : World)
    (smooth : ∀ transfer ∈ transfers, transfer.Smooth) (tracks : Tracks stream client socket) :
    wp (pollClient client socket daemon transfers) (fun result _ => Tracks stream result.1 result.2.1)
      (fun _ => True) world := by
  obtain ⟨read, held, order, whole, holds, split⟩ := tracks.received
  obtain ⟨owed, owes, sent⟩ := tracks.sent
  have settled : client.state ≠ .writeResponse →
      socket.outgoing = socket.dispatched.flatMap fun served => served.2.wire := by
    intro idle
    cases owes with
    | nothing => simpa using sent
    | rest busy => exact absurd busy idle
  have onward : (client.state = .readHeader ∨ client.state = .readBody) →
      wp (driveRead client socket daemon transfers) (fun result _ =>
        result.1 ≠ .ok true ∧ Tracks stream (closeFailed result).1 (closeFailed result).2.1)
        (fun _ => True) world →
      wp (pollClient client socket daemon transfers) (fun result _ => Tracks stream result.1 result.2.1)
        (fun _ => True) world := by
    intro idle drives
    rw [pollClient_reading daemon transfers idle]
    apply wp_bind
    apply drives.mono
    · rintro ⟨code, later, peer, last⟩ after ⟨unfinished, tracks⟩
      simp only [if_neg fun both : code = .ok true ∧ later.state = .writeResponse => unfinished both.1]
      exact (wp_pure _).mpr tracks
    · exact fun _ _ => trivial
  cases holds with
  | heading state cut =>
    exact onward (.inl state) (wp_driveRead_heading daemon world smooth state cut order whole split
      (settled (by rw [state]; exact ClientState.noConfusion)))
  | receiving state raw size parsed valid cut =>
    exact onward (.inr state) (wp_driveRead_receiving daemon world smooth state size parsed valid cut order
      whole split (settled (by rw [state]; exact ClientState.noConfusion)))
  | answering state =>
    simp only [pollClient, state]
    exact (wp_pure _).mpr (driveWrite_tracks daemon smooth state tracks)
  | refused state =>
    simp only [pollClient, state]
    exact (wp_pure _).mpr tracks

/-- What a run of rounds does -/
theorem serveRounds_tracks [Libm] (rounds : List Round)
    (smooth : ∀ round ∈ rounds, ∀ transfer ∈ round.transfers, transfer.Smooth) :
    ∀ {client later : Client} {socket peer : Socket}, Tracks stream client socket →
      serveRounds (client, socket) rounds = some (later, peer) → Tracks stream later peer := by
  induction rounds with
  | nil =>
    intro client later socket peer tracks served
    cases served
    exact tracks
  | cons round rounds ih =>
    intro client later socket peer tracks served
    rw [serveRounds] at served
    split at served
    · cases served
    · rename_i polled
      have next := (wp_pollClient round.daemon round.world (smooth round List.mem_cons_self) tracks).returned polled
      exact ih (fun other mem => smooth other (List.mem_cons_of_mem _ mem)) next served

/-- What is held and not read yet starts no further frame once the input is used up. -/
theorem Client.Holds.ends {held : Bytes} (holds : client.Holds held)
    (consumed : client.state = .empty ∨ socket.incoming = []) :
    frames frameHeaderSize announced (held ++ socket.incoming) = [] := by
  have drained : client.state ≠ .empty → held ++ socket.incoming = held := by
    intro alive
    rcases consumed with dead | dry
    · exact absurd dead alive
    · rw [dry, List.append_nil]
  cases holds with
  | heading state cut =>
    rw [drained (by rw [state]; nofun)]
    exact frames_short cut
  | receiving state raw whole parsed valid cut =>
    rw [drained (by rw [state]; nofun)]
    exact frames_cut whole valid cut
  | answering state =>
    rw [drained (by rw [state]; nofun)]
    exact frames_short (Nat.succ_pos _)
  | refused state raw whole invalid => exact frames_refused whole invalid

end Machine

/-- However the stream is cut into reads and the responses into writes, the requests
that have been dispatched are the first frames of the stream, in order and once each,
and the bytes that were sent are the front of their responses. When the input is used
up, nothing is missing. -/
theorem serveRounds_frames [Libm] (stream : Bytes) (rounds : List Round)
    (smooth : ∀ round ∈ rounds, ∀ transfer ∈ round.transfers, transfer.Smooth) {client : Client} {socket : Socket}
    (served : serveRounds (accepted stream) rounds = some (client, socket)) :
    (socket.dispatched.map (fun served => (served.1.header, served.1.body)) <+: requestFrames stream ∧
      socket.outgoing <+: socket.dispatched.flatMap fun served => served.2.wire) ∧
    ((client.state = .empty ∨ (socket.incoming = [] ∧ client.state ≠ .writeResponse)) →
      socket.dispatched.map (fun served => (served.1.header, served.1.body)) = requestFrames stream ∧
        socket.outgoing = socket.dispatched.flatMap fun served => served.2.wire) := by
  have tracks := serveRounds_tracks rounds smooth (accepted_tracks stream) served
  obtain ⟨read, held, order, whole, holds, split⟩ := tracks.received
  obtain ⟨owed, owes, sent⟩ := tracks.sent
  have parsed : frames frameHeaderSize announced stream =
      read ++ frames frameHeaderSize announced (held ++ socket.incoming) := by
    rw [split]
    exact frames_append (Nat.succ_pos _) read whole
  have requests : requestFrames stream = socket.dispatched.map (fun served => (served.1.header, served.1.body)) ++
      (frames frameHeaderSize announced (held ++ socket.incoming)).map fun frame => (.ofBytes frame.1, frame.2) := by
    rw [requestFrames, parsed, List.map_append, order]
  refine ⟨⟨⟨_, requests.symm⟩, ⟨owed, sent⟩⟩, ?_⟩
  intro consumed
  have idle : client.state ≠ .writeResponse := by
    rcases consumed with closed | ⟨_, idle⟩
    · rw [closed]
      nofun
    · exact idle
  constructor
  · rw [requests, holds.ends (consumed.imp_right And.left), List.map_nil, List.append_nil]
  · cases owes with
    | nothing => simpa using sent
    | rest busy => exact absurd busy idle

/-- Two pipelined PINGs -/
def pingStream : Bytes := pingView.header.toBytes ++ pingView.header.toBytes

/-- Rounds that cut headers and responses into pieces -/
def choppyRounds : List Round :=
  [[.moved 5, .again], [.interrupted, .moved 40], [.moved 3], [.again], [.moved 50, .interrupted, .moved 1],
    [.moved 50], [.moved 9, .moved 1], [.moved 6], [.moved 30, .moved 30], [.moved 1]].map
    fun transfers => ⟨emptyDaemon, .empty, [], transfers⟩

theorem serveRounds_frames_pings : ∃ client socket,
    @serveRounds exactLibm (accepted pingStream) choppyRounds = some (client, socket) ∧
    socket.incoming = [] ∧ client.state = .readHeader ∧
    socket.dispatched.map (fun served => (served.1.header, served.1.body)) = requestFrames pingStream ∧
    socket.outgoing = socket.dispatched.flatMap fun served => served.2.wire := by
  have smooth : ∀ round ∈ choppyRounds, ∀ transfer ∈ round.transfers, transfer.Smooth := by
    simp only [choppyRounds, List.map_cons, List.map_nil, List.forall_mem_cons]
    repeat' constructor
    all_goals first | omega | nofun
  have run : (@serveRounds exactLibm (accepted pingStream) choppyRounds).map
      (fun connection => (connection.2.incoming, connection.1.state)) = some ([], .readHeader) := by
    decide +kernel
  obtain ⟨⟨client, socket⟩, served, facts⟩ := Option.map_eq_some_iff.mp run
  obtain ⟨dry, state⟩ := Prod.mk.inj facts
  simp only at dry state
  refine ⟨client, socket, served, dry, state, ?_⟩
  exact (@serveRounds_frames exactLibm pingStream choppyRounds smooth client socket served).2
    (.inr ⟨dry, by rw [state]; nofun⟩)

end Bloomd
