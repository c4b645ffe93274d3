import Bloomd.AccessSafety
import Bloomd.AnswerSemantics
import Bloomd.ControlAccess
import Bloomd.TransportSemantics

/-! Whatever bytes a server sends, the client reads none outside the body, and it
exits with 0 on the bodies that its command expects and on no others. -/

namespace Bloomd

open Framing

/-- The bodies that a command expects -/
def Opcode.Shaped (body : Bytes) : Opcode → Prop
  | .ping | .create | .drop => True
  | .add | .check => body.length = 1
  | .madd | .mcheck => ∃ results : Bytes, results.length < 2 ^ 16 ∧ body = storeU16 results.length ++ results
  | .info => ∃ front name backend digest pinPath : Bytes, front.length = 72 ∧
    loadU16 front = name.length ∧ loadU16 (front.drop 2) = backend.length ∧
    loadU16 (front.drop 4) = digest.length ∧ loadU32 (front.drop 64) = pinPath.length ∧
    body = front ++ name ++ backend ++ digest ++ pinPath
  | .list => ∃ names : List Bytes, names.length < 2 ^ 32 ∧ (∀ name ∈ names, name.length < 2 ^ 16) ∧
    body = storeU32 names.length ++ entriesBody names
  | .stats => body.length = 100

section Reads

variable {view : RequestView} {place left precision : Nat}

theorem loadU16At_inside (inside : place + 2 ≤ view.body.length) :
    loadU16At view place = some (loadU16 (view.body.drop place)) := by
  rw [loadU16At, fetch_byte inside]
  simp only [Option.bind_eq_bind, Option.bind_some, loadU16, List.take_take, Nat.min_self]

theorem loadU32At_inside (inside : place + 4 ≤ view.body.length) :
    loadU32At view place = some (loadU32 (view.body.drop place)) := by
  rw [loadU32At, fetch_byte inside]
  simp only [Option.bind_eq_bind, Option.bind_some, loadU32, List.take_take, Nat.min_self]

theorem loadU64At_inside (inside : place + 8 ≤ view.body.length) :
    loadU64At view place = some (loadU64 (view.body.drop place)) := by
  rw [loadU64At, fetch_byte inside]
  simp only [Option.bind_eq_bind, Option.bind_some, loadU64, List.take_take, Nat.min_self]

theorem loadDoubleAt_inside (inside : place + 8 ≤ view.body.length) :
    loadDoubleAt view place = some (loadDouble (view.body.drop place)) := by
  rw [loadDoubleAt, fetch_byte inside]
  simp only [Option.bind_eq_bind, Option.bind_some, loadDouble, List.take_take, Nat.min_self]

theorem byte_inside (inside : place < view.body.length) :
    ∃ byte, view.byte place = some byte ∧ view.body.drop place = byte :: view.body.drop (place + 1) :=
  ⟨_, List.getElem?_eq_getElem inside, List.drop_eq_getElem_cons inside⟩

/-- The part of a text before its first NUL -/
def untilNul (text : Bytes) : Bytes := text.takeWhile (· ≠ 0)

theorem printLoop_inside (inside : place + left ≤ view.body.length) :
    printLoop view left place = some (untilNul ((view.body.drop place).take left)) := by
  induction left generalizing place with
  | zero => rfl
  | succ left ih =>
    obtain ⟨byte, found, rest⟩ := @byte_inside view place (by omega)
    have later := @ih (place + 1) (by omega)
    rw [printLoop, found, rest]
    by_cases zero : byte = 0
    · simp [zero, untilNul]
    · simp [zero, later, untilNul]

theorem printText_inside (fits : view.body.length ≤ maxFrameBody) (inside : place + precision ≤ view.body.length) :
    printText view place precision = some (untilNul ((view.body.drop place).take precision)) := by
  have small : maxFrameBody < 2 ^ 31 := by decide
  rw [printText, if_pos (by omega), printLoop_inside inside]

theorem printError_total (fits : view.body.length ≤ maxFrameBody) : ∃ complaint, printError view = some complaint := by
  rw [printError, ← view.sized]
  split
  · exact ⟨_, rfl⟩
  · rename_i long
    have code := @loadU32At_inside view 0 (by omega)
    have length := @loadU32At_inside view 4 (by omega)
    have small : loadU32 (view.body.drop 4) < 2 ^ 32 := loadLe_take_lt (view.body.drop 4) 4
    have total := @addWide_small 64 8 (loadU32 (view.body.drop 4)) (by omega)
    simp only [code, length, total, Option.bind_eq_bind, Option.bind_some]
    split
    · exact ⟨_, rfl⟩
    · rename_i inside
      have message := @printText_inside view 8 _ fits (Nat.le_of_not_lt inside)
      rw [message]
      exact ⟨_, rfl⟩

end Reads

/-- The client comes to an end, and its exit code is 0 when `shaped` holds and 1 when
it does not. -/
def Exits (outcome : Option (Except Complaint Printed)) (shaped : Prop) : Prop :=
  ∃ result, outcome = some result ∧ (exitCode result = 0 ↔ shaped)

theorem exits_refused {complaint : Complaint} {shaped : Prop} (unshaped : ¬ shaped) :
    Exits (some (.error complaint)) shaped :=
  ⟨_, rfl, ⟨fun zero => absurd zero Nat.one_ne_zero, fun held => absurd held unshaped⟩⟩

theorem exits_printed {printed : Printed} {shaped : Prop} (held : shaped) : Exits (some (.ok printed)) shaped :=
  ⟨_, rfl, ⟨fun _ => held, fun _ => rfl⟩⟩

section Answers

variable {view : RequestView}

theorem exits_expectBodyLen {expected : Nat} {what : String} {next : Option (Except Complaint Printed)}
    {printed : Printed} (goes : view.body.length = expected → next = some (.ok printed)) :
    Exits (expectBodyLen view expected what next) (view.body.length = expected) := by
  rw [expectBodyLen, ← view.sized]
  by_cases same : view.body.length = expected
  · rw [if_neg (not_not.mpr same), goes same]
    exact exits_printed same
  · rw [if_pos same]
    exact exits_refused same

theorem exits_single : Exits
    (expectBodyLen view 1 "add/check" do
      let result ← view.byte 0
      some (.ok (.values [result]))) (view.body.length = 1) := by
  cases body : view.body with
  | nil =>
    rw [expectBodyLen, ← view.sized, body]
    exact exits_refused (by decide)
  | cons first rest =>
    rw [← body]
    apply exits_expectBodyLen
    intro _
    rw [RequestView.byte, body]
    rfl

theorem printResults_inside {vals left index : Nat} (inside : vals + index + left ≤ view.body.length)
    (narrow : index + left < 2 ^ 16) :
    printResults view vals left index = some ((view.body.drop (vals + index)).take left) := by
  induction left generalizing index with
  | zero => rfl
  | succ left ih =>
    obtain ⟨byte, found, rest⟩ := @byte_inside view (vals + index) (by omega)
    have later := @ih (index + 1) (by omega) (by omega)
    have next := @addWide_small 16 index 1 (by omega)
    rw [printResults, found, next, rest]
    simp only [Option.bind_eq_bind, Option.bind_some, later, List.take_succ_cons]
    rfl

theorem exits_receiveBatch : Exits (receiveBatch view) (Opcode.Shaped view.body .madd) := by
  rw [receiveBatch, ← view.sized]
  split
  · rename_i short
    apply exits_refused
    rintro ⟨results, -, same⟩
    rw [same, List.length_append, length_storeU16] at short
    omega
  · rename_i long
    have count := @loadU16At_inside view 0 (by omega)
    have small : loadU16 (view.body.drop 0) < 2 ^ 16 := loadLe_take_lt (view.body.drop 0) 2
    have total := @addWide_small 32 2 (loadU16 (view.body.drop 0)) (by omega)
    simp only [count, total, Option.bind_eq_bind, Option.bind_some]
    split
    · rename_i other
      apply exits_refused
      rintro ⟨results, few, same⟩
      apply other
      rw [List.drop_zero, same, loadU16_storeU16 _ few, List.length_append, length_storeU16]
    · rename_i sized
      rw [not_not] at sized
      rw [printResults_inside (by omega) (by omega)]
      apply exits_printed
      have rest : (view.body.drop 2).length = loadU16 view.body := by
        rw [List.length_drop, sized, List.drop_zero]
        omega
      refine ⟨view.body.drop 2, rest ▸ small, ?_⟩
      rw [rest]
      have whole := @storeU16_at view.body 0 (by omega)
      exact whole.symm

/-- The prefix of an INFO body says how long its four texts are. -/
theorem shaped_info_iff {body : Bytes} (long : 72 ≤ body.length) : Opcode.Shaped body .info ↔
    72 + loadU16 body + loadU16 (body.drop 2) + loadU16 (body.drop 4) + loadU32 (body.drop 64) = body.length := by
  constructor
  · rintro ⟨front, name, backend, digest, pinPath, size, nameLen, backendLen, digestLen, pinLen, same⟩
    have field : ∀ skip width, skip + width ≤ 72 → (body.drop skip).take width = (front.drop skip).take width := by
      intro skip width inside
      rw [same]
      simp only [List.append_assoc]
      rw [List.drop_append_of_le_length (by omega), List.take_append_of_le_length (by rw [List.length_drop]; omega)]
    have first : body.take 2 = front.take 2 := field 0 2 (by omega)
    simp only [loadU16, loadU32] at nameLen backendLen digestLen pinLen ⊢
    rw [first, field 2 2 (by omega), field 4 2 (by omega), field 64 4 (by omega), nameLen, backendLen, digestLen,
      pinLen, same]
    simp only [List.length_append, size]
  · intro total
    have size : (body.take 72).length = 72 := List.length_take_of_le long
    have field : ∀ skip width, skip + width ≤ 72 →
        ((body.take 72).drop skip).take width = (body.drop skip).take width := by
      intro skip width inside
      rw [List.drop_take, List.take_take, Nat.min_eq_left (by omega)]
    have nameLen : loadU16 (body.take 72) = loadU16 body := congrArg loadLe (field 0 2 (by omega))
    have backendLen : loadU16 ((body.take 72).drop 2) = loadU16 (body.drop 2) := congrArg loadLe (field 2 2 (by omega))
    have digestLen : loadU16 ((body.take 72).drop 4) = loadU16 (body.drop 4) := congrArg loadLe (field 4 2 (by omega))
    have pinLen : loadU32 ((body.take 72).drop 64) = loadU32 (body.drop 64) := congrArg loadLe (field 64 4 (by omega))
    let name := (body.drop 72).take (loadU16 body)
    let afterName := (body.drop 72).drop (loadU16 body)
    let afterBackend := afterName.drop (loadU16 (body.drop 2))
    refine ⟨body.take 72, name, afterName.take (loadU16 (body.drop 2)), afterBackend.take (loadU16 (body.drop 4)),
      afterBackend.drop (loadU16 (body.drop 4)), size, ?_, ?_, ?_, ?_, ?_⟩
    · rw [nameLen]
      simp only [name, List.length_take, List.length_drop]
      exact (Nat.min_eq_left (by omega)).symm
    · rw [backendLen]
      simp only [afterName, List.length_take, List.length_drop]
      exact (Nat.min_eq_left (by omega)).symm
    · rw [digestLen]
      simp only [afterName, afterBackend, List.length_take, List.length_drop]
      exact (Nat.min_eq_left (by omega)).symm
    · rw [pinLen]
      simp only [afterName, afterBackend, List.length_drop]
      omega
    · simp only [name, afterName, afterBackend, List.append_assoc, List.take_append_drop]

theorem exits_receiveInfo (fits : view.body.length ≤ maxFrameBody) :
    Exits (receiveInfo view) (Opcode.Shaped view.body .info) := by
  rw [receiveInfo, ← view.sized]
  split
  · rename_i short
    apply exits_refused
    rintro ⟨front, name, backend, digest, pinPath, size, -, -, -, -, same⟩
    rw [same] at short
    simp only [List.length_append] at short
    omega
  · rename_i long
    have nameLen : loadU16 view.body < 2 ^ 16 := loadLe_take_lt view.body 2
    have backendLen : loadU16 (view.body.drop 2) < 2 ^ 16 := loadLe_take_lt (view.body.drop 2) 2
    have digestLen : loadU16 (view.body.drop 4) < 2 ^ 16 := loadLe_take_lt (view.body.drop 4) 2
    have pinLen : loadU32 (view.body.drop 64) < 2 ^ 32 := loadLe_take_lt (view.body.drop 64) 4
    have named := @addWide_small 64 72 (loadU16 view.body) (by omega)
    have backed := @addWide_small 64 (72 + loadU16 view.body) (loadU16 (view.body.drop 2)) (by omega)
    have digested := @addWide_small 64 (72 + loadU16 view.body + loadU16 (view.body.drop 2))
      (loadU16 (view.body.drop 4)) (by omega)
    have total := @addWide_small 64 (72 + loadU16 view.body + loadU16 (view.body.drop 2) + loadU16 (view.body.drop 4))
      (loadU32 (view.body.drop 64)) (by omega)
    rw [@loadU16At_inside view 0 (by omega), @loadU16At_inside view 2 (by omega), @loadU16At_inside view 4 (by omega),
      @loadU64At_inside view 8 (by omega), @loadDoubleAt_inside view 16 (by omega),
        @loadU32At_inside view 24 (by omega),
      @loadU32At_inside view 28 (by omega), @loadU64At_inside view 32 (by omega), @loadU64At_inside view 40 (by omega),
      @loadU64At_inside view 48 (by omega), @loadU64At_inside view 56 (by omega), @loadU32At_inside view 64 (by omega),
      @loadU32At_inside view 68 (by omega)]
    simp only [Option.bind_eq_bind, Option.bind_some, List.drop_zero, named, backed, digested, total]
    split
    · rename_i other
      apply exits_refused
      rw [shaped_info_iff (Nat.le_of_not_lt long)]
      exact other
    · rename_i sized
      rw [not_not] at sized
      rw [printText_inside fits (by omega), printText_inside fits (by omega), printText_inside fits (by omega),
        printText_inside fits (by omega)]
      apply exits_printed
      rw [shaped_info_iff (Nat.le_of_not_lt long)]
      exact sized

/-- The loop over the entries of a LIST answer reads inside the body, and goes on for
as long as the entries do. -/
theorem receiveNames_total (fits : view.body.length ≤ maxFrameBody) (left : Nat) : ∀ {off : Nat},
    off ≤ view.body.length → ∃ result, receiveNames view left off = some result ∧
      match result with
      | .ok (_, last) => ∃ names, decodeNames view.body left off = some (names, last)
      | .error _ => decodeNames view.body left off = none := by
  have wide : maxFrameBody + 2 ^ 17 < 2 ^ 64 := by decide
  induction left with
  | zero => exact fun _ => ⟨_, rfl, [], rfl⟩
  | succ left ih =>
    intro off inside
    have past := @addWide_small 64 off 2 (by omega)
    rw [receiveNames, past, ← view.sized]
    simp only [Option.bind_eq_bind, Option.bind_some, decodeNames]
    by_cases header : view.body.length < off + 2
    · simp only [header, ↓reduceIte]
      exact ⟨_, rfl, trivial⟩
    · have small : loadU16 (view.body.drop off) < 2 ^ 16 := loadLe_take_lt (view.body.drop off) 2
      have last := @addWide_small 64 (off + 2) (loadU16 (view.body.drop off)) (by omega)
      simp only [header, ↓reduceIte, @loadU16At_inside view off (by omega), last, Option.bind_some]
      by_cases entry : view.body.length < off + 2 + loadU16 (view.body.drop off)
      · simp only [entry, ↓reduceIte]
        exact ⟨_, rfl, trivial⟩
      · simp only [entry, ↓reduceIte, printText_inside fits (Nat.le_of_not_lt entry), Option.bind_some]
        obtain ⟨result, received, decoded⟩ := ih (Nat.le_of_not_lt entry)
        rw [received]
        cases result with
        | error complaint =>
          simp only at decoded
          exact ⟨_, rfl, by rw [decoded]⟩
        | ok received =>
          obtain ⟨names, found⟩ := decoded
          exact ⟨_, rfl, _, by rw [found]⟩

/-- The entries that were decoded are those that stand in the body. -/
theorem decodeNames_entries {body : Bytes} {names : List Bytes} {left off last : Nat}
    (decoded : decodeNames body left off = some (names, last)) (inside : off ≤ body.length) :
    names.length = left ∧ last ≤ body.length ∧ (∀ name ∈ names, name.length < 2 ^ 16) ∧
      body.drop off = entriesBody names ++ body.drop last := by
  induction left generalizing off names with
  | zero =>
    cases decoded
    exact ⟨rfl, inside, nofun, rfl⟩
  | succ left ih =>
    simp only [decodeNames] at decoded
    split_ifs at decoded with header entry
    have small : loadU16 (body.drop off) < 2 ^ 16 := loadLe_take_lt (body.drop off) 2
    cases rest : decodeNames body left (off + 2 + loadU16 (body.drop off)) with
    | none =>
      rw [rest] at decoded
      cases decoded
    | some found =>
      obtain ⟨more, final⟩ := found
      rw [rest] at decoded
      cases decoded
      obtain ⟨count, bound, short, content⟩ := ih rest (Nat.le_of_not_lt entry)
      have size : ((body.drop (off + 2)).take (loadU16 (body.drop off))).length = loadU16 (body.drop off) := by
        rw [List.length_take, List.length_drop]
        omega
      refine ⟨congrArg (· + 1) count, bound, ?_, ?_⟩
      · intro name member
        rcases List.mem_cons.mp member with rfl | member
        · rw [size]
          exact small
        · exact short name member
      · have text : (body.drop (off + 2)).take (loadU16 (body.drop off)) ++
            body.drop (off + 2 + loadU16 (body.drop off)) = body.drop (off + 2) := by
          have later : body.drop (off + 2 + loadU16 (body.drop off)) =
              (body.drop (off + 2)).drop (loadU16 (body.drop off)) := List.drop_drop.symm
          rw [later, List.take_append_drop]
        rw [entriesBody_cons, size, List.append_assoc, List.append_assoc, ← content, text,
          storeU16_at (Nat.le_of_not_lt header)]

theorem shaped_list_iff {body : Bytes} : Opcode.Shaped body .list ↔ ∃ names, decodeList body = some names := by
  constructor
  · rintro ⟨names, few, short, rfl⟩
    exact ⟨names, decodeList_entriesBody short few⟩
  · rintro ⟨names, decoded⟩
    unfold decodeList at decoded
    split_ifs at decoded with header
    cases found : decodeNames body (loadU32 body) 4 with
    | none =>
      rw [found] at decoded
      cases decoded
    | some pair =>
      obtain ⟨listed, off⟩ := pair
      rw [found] at decoded
      simp only at decoded
      split_ifs at decoded with ends
      cases decoded
      rw [not_not] at ends
      obtain ⟨count, -, short, content⟩ := decodeNames_entries found (Nat.le_of_not_lt header)
      refine ⟨names, ?_, short, ?_⟩
      · rw [count]
        exact loadLe_take_lt body 4
      · have whole := @storeU32_at body 0 (Nat.le_of_not_lt header)
        rw [count]
        rw [ends, List.drop_length, List.append_nil] at content
        rw [← content]
        exact whole.symm

theorem exits_receiveList (fits : view.body.length ≤ maxFrameBody) :
    Exits (receiveList view) (Opcode.Shaped view.body .list) := by
  rw [receiveList, ← view.sized, shaped_list_iff, decodeList]
  by_cases header : view.body.length < 4
  · simp only [header, ↓reduceIte]
    apply exits_refused
    nofun
  · obtain ⟨result, received, decoded⟩ := receiveNames_total fits (loadU32 view.body) (Nat.le_of_not_lt header)
    simp only [header, ↓reduceIte, @loadU32At_inside view 0 (by omega), Option.bind_eq_bind, Option.bind_some,
      List.drop_zero, received]
    cases result with
    | error complaint =>
      simp only at decoded
      rw [decoded]
      apply exits_refused
      nofun
    | ok found =>
      obtain ⟨names, last⟩ := found
      obtain ⟨listed, same⟩ := decoded
      rw [same]
      by_cases ends : last = view.body.length
      · simp only [ends, ne_eq, not_true_eq_false, ↓reduceIte]
        exact exits_printed ⟨listed, rfl⟩
      · simp only [ends, ne_eq, not_false_eq_true, ↓reduceIte]
        apply exits_refused
        nofun

theorem exits_receiveStats : Exits (receiveStats view) (Opcode.Shaped view.body .stats) := by
  apply exits_expectBodyLen
  intro size
  rw [@loadU64At_inside view 0 (by omega), @loadU64At_inside view 8 (by omega), @loadU64At_inside view 16 (by omega),
    @loadU64At_inside view 24 (by omega), @loadU64At_inside view 32 (by omega), @loadU64At_inside view 40 (by omega),
    @loadU64At_inside view 48 (by omega), @loadU64At_inside view 56 (by omega), @loadU64At_inside view 64 (by omega),
    @loadU32At_inside view 72 (by omega), @loadU32At_inside view 76 (by omega), @loadU32At_inside view 80 (by omega),
    @loadU64At_inside view 84 (by omega), @loadU64At_inside view 92 (by omega)]
  rfl

/-- On every response whose header was accepted the client comes to an end without an
access outside the body. It exits with 1 on a status other than OK, and on an OK
status it exits with 0 on the bodies that its command expects and on no others. -/
theorem receive_survives (valid : headerIsValid view.header = .ok ()) (opcode : Opcode) :
    ∃ result, receive view opcode = some result ∧
      (view.header.status ≠ Status.ok.code → exitCode result = 1) ∧
      (view.header.status = Status.ok.code → (exitCode result = 0 ↔ opcode.Shaped view.body)) := by
  have fits : view.body.length ≤ maxFrameBody := by
    rw [view.sized]
    exact (headerIsValid_iff.mp valid).2.2
  by_cases fine : view.header.status = Status.ok.code
  · have answered : Exits (receive view opcode) (opcode.Shaped view.body) := by
      have line := @printText_inside view 0 view.header.bodyLen.toNat fits (by rw [view.sized]; omega)
      rw [receive.eq_def, if_neg (not_not.mpr fine)]
      cases opcode with
      | ping =>
        simp only [line]
        exact exits_printed trivial
      | create => exact exits_printed trivial
      | drop => exact exits_printed trivial
      | madd => exact exits_receiveBatch
      | mcheck => exact exits_receiveBatch
      | info => exact exits_receiveInfo fits
      | list => exact exits_receiveList fits
      | stats => exact exits_receiveStats
      | add => exact exits_single
      | check => exact exits_single
    obtain ⟨result, received, code⟩ := answered
    exact ⟨result, received, fun other => absurd fine other, fun _ => code⟩
  · obtain ⟨complaint, printed⟩ := printError_total fits
    refine ⟨.error complaint, ?_, fun _ => rfl, fun same => absurd same fine⟩
    rw [receive.eq_def, if_pos fine, printed]
    rfl

/-- An OK answer to a LIST that announces two entries and holds one -/
def shortList : RequestView where
  header := ⟨protocolMagic, protocolVersion, 8, 1, 0, 1, 7⟩
  body := [2, 0, 0, 0, 1, 0, 120]
  sized := rfl

theorem receive_survives_shortList :
    receive shortList .list = some (.error .truncatedEntryHeader) ∧ ¬ Opcode.Shaped shortList.body .list := by
  have run : receive shortList .list = some (.error .truncatedEntryHeader) := by decide +kernel
  obtain ⟨result, received, -, exits⟩ := @receive_survives shortList (by decide) .list
  obtain rfl := Option.some.inj (received.symm.trans run)
  refine ⟨run, fun shaped => ?_⟩
  exact absurd ((exits rfl).mpr shaped) Nat.one_ne_zero

end Answers

end Bloomd
