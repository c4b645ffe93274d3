import Bloomd.CrashLogic.Retry
import Bloomd.ClientSemantics
import Bloomd.Transport

/-! A frame that is written and read over a blocking socket arrives as it was sent,
whatever way the transfers are cut and however often they are interrupted. -/

namespace Bloomd

open CrashLogic Prog Framing

section Header

theorem FrameHeader.length_toBytes {header : FrameHeader} (magic : header.magic.length = 4) :
    header.toBytes.length = frameHeaderSize := by
  simp only [FrameHeader.toBytes, storeU32, List.length_append, length_storeLe, magic]
  rfl

/-- A header is read back from its 16 bytes. -/
theorem FrameHeader.ofBytes_toBytes {header : FrameHeader} (magic : header.magic.length = 4) :
    FrameHeader.ofBytes header.toBytes = header := by
  obtain ⟨name, version, opcode, flags, status, requestId, bodyLen⟩ := header
  match name, magic with
  | [first, second, third, fourth], _ =>
    have id : loadU32 (storeU32 requestId.toNat ++ storeU32 bodyLen.toNat) = requestId.toNat :=
      loadLe_take_storeLe _ requestId.toNat_lt
    have size : loadU32 (storeU32 bodyLen.toNat) = bodyLen.toNat := by
      have whole := @loadLe_take_storeLe 4 bodyLen.toNat [] bodyLen.toNat_lt
      rwa [List.append_nil] at whole
    have past : (storeU32 requestId.toNat ++ storeU32 bodyLen.toNat).drop 4 = storeU32 bodyLen.toNat :=
      List.drop_left' (length_storeLe _ _)
    simp only [FrameHeader.ofBytes, FrameHeader.toBytes, List.cons_append, List.nil_append,
      List.drop_succ_cons, List.drop_zero, past, id, size, Nat.toUInt32_eq, UInt32.ofNat_toNat]
    rfl

theorem headerIsValid_iff {header : FrameHeader} : headerIsValid header = .ok () ↔
    header.magic = protocolMagic ∧ header.version = protocolVersion ∧ header.bodyLen.toNat ≤ maxFrameBody := by
  unfold headerIsValid
  by_cases magic : header.magic = protocolMagic
  · by_cases version : header.version = protocolVersion
    · by_cases large : maxFrameBody < header.bodyLen.toNat
      · simp [magic, version, large]
      · simp [magic, version, large, Nat.le_of_not_lt large]
    · simp [magic, version]
  · simp [magic]

end Header

namespace Transport

/-- A transfer that moves at least one byte, or a signal -/
def Goes : Transfer → Prop
  | .moved n => 0 < n
  | .interrupted => True
  | _ => False

/-- Transfers in which some bytes move again after finitely many signals -/
abbrev Flow (transfers : Nat → Transfer) : Prop := Patient Goes (· ≠ .interrupted) transfers

abbrev Settles {α : Type} (prog : Prog Wire Transfer α) (post : α → Wire → Prop) (wire : Wire) : Prop :=
  Prog.Settles Goes (· ≠ .interrupted) prog post wire

theorem goes_cases {transfer : Transfer} (goes : Goes transfer) :
    (∃ n, 0 < n ∧ transfer = .moved n) ∨ transfer = .interrupted := by
  cases transfer with
  | moved n => exact Or.inl ⟨n, goes, rfl⟩
  | interrupted => exact Or.inr rfl
  | again => exact goes.elim
  | failed errno => exact goes.elim

section Write

variable {wrote left : Nat} {vector rest : List Bytes} {piece : Bytes}

/-- Passing over whole pieces leaves the same bytes to write. -/
theorem advance_flatten (wrote : Nat) (vector : List Bytes) :
    (advance wrote vector).2.flatten.drop (advance wrote vector).1 = vector.flatten.drop wrote := by
  induction vector generalizing wrote with
  | nil => rfl
  | cons piece vector ih =>
    rw [advance]
    split
    · rename_i whole
      rw [ih, List.flatten_cons, List.drop_append, List.drop_eq_nil_of_le whole, List.nil_append]
    · rfl

/-- The count that is left lies inside the piece that comes next. -/
theorem advance_inside (stops : advance wrote vector = (left, piece :: rest)) : left < piece.length := by
  induction vector generalizing wrote with
  | nil => cases stops
  | cons first vector ih =>
    rw [advance] at stops
    split at stops
    · exact ih stops
    · rename_i inside
      obtain ⟨rfl, rfl, rfl⟩ : wrote = left ∧ first = piece ∧ vector = rest := by simpa using stops
      omega

theorem advance_suffix (wrote : Nat) (vector : List Bytes) : (advance wrote vector).2 <:+ vector := by
  induction vector generalizing wrote with
  | nil => exact List.suffix_rfl
  | cons piece vector ih =>
    rw [advance]
    split
    · exact (ih _).trans (List.suffix_cons piece vector)
    · exact List.suffix_rfl

theorem resume_flatten (wrote : Nat) (vector : List Bytes) :
    (resume wrote vector).flatten = vector.flatten.drop wrote := by
  have same := advance_flatten wrote vector
  rw [resume]
  match stops : advance wrote vector with
  | (left, []) =>
    rw [stops] at same
    simpa using same
  | (0, piece :: rest) =>
    rw [stops] at same
    exact same
  | (left + 1, piece :: rest) =>
    have inside := advance_inside stops
    rw [stops, List.flatten_cons, List.drop_append_of_le_length (by omega)] at same
    exact same

/-- No piece is empty, so that a `writev` has something to move. -/
def Filled (vector : List Bytes) : Prop := ∀ piece ∈ vector, piece ≠ []

theorem Filled.flatten_pos (filled : Filled vector) (some : vector ≠ []) : 0 < vector.flatten.length := by
  cases vector with
  | nil => exact absurd rfl some
  | cons piece vector =>
    have more := List.length_pos_iff.mpr (filled piece List.mem_cons_self)
    rw [List.flatten_cons, List.length_append]
    omega

theorem Filled.resume (filled : Filled vector) (wrote : Nat) : Filled (resume wrote vector) := by
  have suffix := advance_suffix wrote vector
  have behind : Filled (advance wrote vector).2 := fun piece member => filled piece (suffix.subset member)
  rw [Transport.resume]
  match stops : advance wrote vector with
  | (left, []) => nofun
  | (0, piece :: rest) =>
    rw [stops] at behind
    exact behind
  | (left + 1, piece :: rest) =>
    have inside := advance_inside stops
    rw [stops] at behind
    intro other member
    rcases List.mem_cons.mp member with rfl | member
    · rw [← List.length_pos_iff, List.length_drop]
      omega
    · exact behind other (List.mem_cons_of_mem _ member)

theorem flatten_pieces (response : Response) : (pieces response).flatten = response.wire := by
  rw [pieces]
  split
  · rename_i empty
    rw [Response.wire, List.length_eq_zero_iff.mp empty]
    rfl
  · rw [Response.wire]
    simp

theorem filled_pieces {response : Response} (magic : response.header.magic.length = 4) : Filled (pieces response) := by
  have size : ({ response.header with bodyLen := response.body.length.toUInt32 } : FrameHeader).toBytes.length =
      frameHeaderSize := FrameHeader.length_toBytes magic
  have header : ({ response.header with bodyLen := response.body.length.toUInt32 } : FrameHeader).toBytes ≠ [] := by
    rw [← List.length_pos_iff, size]
    decide
  intro piece member
  rw [pieces] at member
  split at member
  · obtain rfl := List.mem_singleton.mp member
    exact header
  · rename_i some
    rcases List.mem_cons.mp member with rfl | member
    · exact header
    · obtain rfl := List.mem_singleton.mp member
      exact fun empty => some (by rw [empty]; rfl)

/-- A written frame is sent once and whole. The loop keeps the bytes that are still
in the vector. -/
theorem settles_writeResponse {response : Response} (magic : response.header.magic.length = 4) (wire : Wire) :
    Settles (writeResponse response)
      (fun result after => result = .ok () ∧
        after = { wire with outgoing := wire.outgoing ++ response.wire }) wire := by
  let keep (vector : List Bytes) (middle : Wire) : Prop :=
    Filled vector ∧ ∃ sent, response.wire = sent ++ vector.flatten ∧
      middle = { wire with outgoing := wire.outgoing ++ sent }
  have start : keep (pieces response) wire := by
    refine ⟨filled_pieces magic, [], (flatten_pieces response).symm, ?_⟩
    rw [List.append_nil]
  apply settles_retry keep (fun vector => vector.flatten.length) _ start
  rintro vector middle ⟨filled, sent, split, rfl⟩
  by_cases done : vector = []
  · left
    refine ⟨.ok (), ⟨rfl, ?_⟩, fun answers => ?_⟩
    · rw [split, done, List.flatten_nil, List.append_nil]
    · simp only [done, ↓reduceIte]
      rfl
  · right
    intro transfer goes
    have more := filled.flatten_pos done
    rcases goes_cases goes with ⟨n, positive, rfl⟩ | rfl
    · have some : min n vector.flatten.length ≠ 0 := by omega
      refine ⟨.inl (resume (min n vector.flatten.length) vector),
        { wire with outgoing := (wire.outgoing ++ sent) ++ vector.flatten.take n }, fun answers => ?_,
        ⟨filled.resume _, sent ++ vector.flatten.take n, ?_, ?_⟩, ?_⟩
      · simp only [done, ↓reduceIte]
        rw [bind_apply, sysWritev, call]
        simp only [some, ↓reduceIte]
        rfl
      · have same : vector.flatten.drop (min n vector.flatten.length) = vector.flatten.drop n := by
          rcases Nat.le_total n vector.flatten.length with short | long
          · rw [Nat.min_eq_left short]
          · rw [Nat.min_eq_right long, List.drop_length, List.drop_eq_nil_of_le long]
        rw [resume_flatten, same, List.append_assoc, List.take_append_drop]
        exact split
      · rw [List.append_assoc]
      · simp only [resume_flatten, List.length_drop]
        omega
    · refine ⟨.inl vector, _, fun answers => ?_, ⟨filled, sent, split, rfl⟩, le_rfl, fun easy => absurd rfl easy⟩
      simp only [done, ↓reduceIte]
      rfl

end Write

section Read

variable {rest : Bytes} {wire : Wire}

/-- The bytes that were asked for are read, and none after them. -/
theorem settles_readAll {chunk : Bytes} (holds : wire.incoming = chunk ++ rest) :
    Settles (readAll chunk.length)
      (fun result after => result = .ok chunk ∧ after = { wire with incoming := rest }) wire := by
  let keep (got : Bytes) (middle : Wire) : Prop :=
    ∃ left, chunk = got ++ left ∧ middle = { wire with incoming := left ++ rest }
  have start : keep [] wire := ⟨chunk, rfl, by rw [← holds]⟩
  apply settles_retry keep (fun got => chunk.length - got.length) _ start
  rintro got middle ⟨left, split, rfl⟩
  have sizes : chunk.length = got.length + left.length := by rw [split, List.length_append]
  by_cases done : left = []
  · left
    refine ⟨.ok got, ⟨?_, ?_⟩, fun answers => ?_⟩
    · rw [split, done, List.append_nil]
    · rw [done, List.nil_append]
    · have full : chunk.length ≤ got.length := by rw [sizes, done, List.length_nil, Nat.add_zero]
      simp only [full, ↓reduceIte]
      rfl
  · right
    intro transfer goes
    have more := List.length_pos_iff.mpr done
    have short : ¬ chunk.length ≤ got.length := by omega
    rcases goes_cases goes with ⟨n, positive, rfl⟩ | rfl
    · have inside : min n (chunk.length - got.length) ≤ left.length := by omega
      have taken : (left ++ rest).take (min n (chunk.length - got.length)) =
          left.take (min n (chunk.length - got.length)) := List.take_append_of_le_length inside
      have some : left.take (min n (chunk.length - got.length)) ≠ [] := by
        rw [← List.length_pos_iff, List.length_take_of_le inside]
        omega
      refine ⟨.inl (got ++ left.take (min n (chunk.length - got.length))),
        { wire with incoming := left.drop (min n (chunk.length - got.length)) ++ rest }, fun answers => ?_,
        ⟨left.drop (min n (chunk.length - got.length)), ?_, rfl⟩, ?_⟩
      · simp only [short, ↓reduceIte]
        rw [bind_apply, sysRead, call]
        simp only [taken, some, ↓reduceIte, List.drop_append_of_le_length inside]
        rfl
      · rw [List.append_assoc, List.take_append_drop]
        exact split
      · simp only [List.length_append, List.length_take_of_le inside]
        omega
    · refine ⟨.inl got, _, fun answers => ?_, ⟨left, split, rfl⟩, le_rfl, fun easy => absurd rfl easy⟩
      simp only [short, ↓reduceIte]
      rfl

/-- A frame of a header and a body is read back, and no byte after it. -/
theorem settles_readFrame {header : FrameHeader} {body : Bytes} (valid : headerIsValid header = .ok ())
    (sized : header.bodyLen.toNat = body.length) (holds : wire.incoming = header.toBytes ++ body ++ rest) :
    Settles readFrame
      (fun result after => result = .ok (header, body) ∧ after = { wire with incoming := rest }) wire := by
  have magic : header.magic.length = 4 := by
    rw [(headerIsValid_iff.mp valid).1]
    rfl
  rw [List.append_assoc] at holds
  rw [readFrame, ← FrameHeader.length_toBytes magic]
  apply settles_bind
  apply (settles_readAll holds).mono
  rintro _ middle ⟨rfl, rfl⟩
  simp only [FrameHeader.ofBytes_toBytes magic, valid]
  by_cases empty : header.bodyLen = 0
  · have nothing : body = [] := by
      rw [empty] at sized
      exact List.length_eq_zero_iff.mp sized.symm
    simp only [empty, ↓reduceIte, nothing, List.nil_append]
    exact settles_pure _ ⟨rfl, rfl⟩
  · simp only [empty, ↓reduceIte, sized]
    apply settles_bind
    apply (settles_readAll rfl).mono
    rintro _ after ⟨rfl, rfl⟩
    exact settles_pure _ ⟨rfl, rfl⟩

end Read

/-- The header of a frame on the wire -/
def outHeader (response : Response) : FrameHeader :=
  { response.header with bodyLen := response.body.length.toUInt32 }

/-- Over transfers of any positive sizes and with signals between them, a frame is
sent as its 16 header bytes and its body, each byte once, and is read back from any
stream that starts with these bytes. Both calls return, and nothing after the frame
is read. -/
theorem frame_round_trip {response : Response} (magic : response.header.magic = protocolMagic)
    (version : response.header.version = protocolVersion) (fits : response.body.length ≤ maxFrameBody) :
    (outHeader response).toBytes.length = 16 ∧ (outHeader response).bodyLen.toNat = response.body.length ∧
    (∀ wire, Settles (writeResponse response) (fun result after => result = .ok () ∧
      after = { wire with outgoing := wire.outgoing ++ ((outHeader response).toBytes ++ response.body) }) wire) ∧
    ∀ wire rest, wire.incoming = (outHeader response).toBytes ++ response.body ++ rest →
      Settles readFrame (fun result after => result = .ok (outHeader response, response.body) ∧
        after = { wire with incoming := rest }) wire := by
  have four : response.header.magic.length = 4 := by
    rw [magic]
    rfl
  have sized : (outHeader response).bodyLen.toNat = response.body.length := by
    have small : response.body.length < 2 ^ 32 := Nat.lt_of_le_of_lt fits (by decide)
    exact Nat.mod_eq_of_lt small
  refine ⟨FrameHeader.length_toBytes four, sized, settles_writeResponse four, fun wire rest holds => ?_⟩
  exact settles_readFrame (headerIsValid_iff.mpr ⟨magic, version, sized ▸ fits⟩) sized holds

/-- Every second transfer is interrupted, and the others move five bytes. -/
def fiveAtATime (index : Nat) : Transfer := if index % 2 = 0 then .interrupted else .moved 5

theorem frame_round_trip_five : Flow fiveAtATime ∧ ∃ used after,
    (∀ rest, writeResponse ⟨(Response.init 1 7).header, [1, 2, 3]⟩ ⟨[], []⟩ (supplied fiveAtATime used ++ rest) =
      .returned (.ok ()) after rest) ∧
    after.outgoing = [66, 76, 77, 49, 1, 1, 1, 0, 7, 0, 0, 0, 3, 0, 0, 0, 1, 2, 3] := by
  have flow : Flow fiveAtATime := by
    constructor
    · intro index
      unfold fiveAtATime
      split
      · trivial
      · exact Nat.succ_pos 4
    · intro used
      by_cases even : used % 2 = 0
      · exact ⟨1, by simp [fiveAtATime, Nat.add_mod, even]⟩
      · exact ⟨0, by simp [fiveAtATime, even]⟩
  obtain ⟨_, _, writes, _⟩ := @frame_round_trip ⟨(Response.init 1 7).header, [1, 2, 3]⟩ rfl rfl (by decide)
  obtain ⟨used, _, after, ⟨rfl, rfl⟩, run⟩ := (writes ⟨[], []⟩).run fiveAtATime flow
  exact ⟨flow, used, _, run, by decide +kernel⟩

end Transport

end Bloomd
