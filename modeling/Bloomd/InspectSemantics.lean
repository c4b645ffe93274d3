import Bloomd.Inspect
import Bloomd.LoadCompletion

/-! The report of `bloominspect` against what the loader does with the same disk, on a
machine whose calls succeed. -/

namespace Bloomd

open CrashLogic Prog

/-- What became of a metadata entry in its turn of the load loop -/
inductive Verdict where
  | passedOver
  | rebuilt (replayed : Nat)
  | refused
  | stale
  | loaded
  | failed
  deriving DecidableEq, Repr

/-- The verdict on what the loader found. A rebuilt map holds one digest for each
record that was replayed into it. -/
def Seen.verdict (seen : Seen) (world : World) (result : Except Failure Unit) : Verdict :=
  match seen with
  | .ignored | .unusable => .passedOver
  | .unplaced _ => .failed
  | .opened .stale => .stale
  | .opened (.failed failure) => if failure.errno = .euclean then .refused else .failed
  | .opened (.map _ map true) => .rebuilt (world.contents map).length
  | .opened (.map _ _ false) => if result = .ok () then .loaded else .failed

/-- The verdicts that a line allows -/
def Finding.Allows : Finding → Verdict → Prop
  | .invalidMeta _, verdict => verdict = .passedOver
  | .rebuildable _ count, verdict => verdict = .rebuilt count
  | .unsafeRebuild _ _, verdict => verdict = .refused
  | .staleMeta _, verdict => verdict = .stale
  | .ok _ _, verdict => verdict = .loaded
  | .missingLog _, verdict => verdict = .loaded
  | .badLog _ _, verdict => verdict = .loaded ∨ verdict = .failed
  | .badPin _ _, verdict => verdict = .loaded ∨ verdict = .failed

section

variable {env : Env} {config : Config} {world : World} {entry name : Bytes} {finding : Finding} {verdict : Verdict}

/-- A read of a metadata file fails, or yields the record that the file holds. -/
theorem metaReadFile_cases (env : Env) (path : Bytes) (world : World) :
    (∃ errno, Completes (metaReadFile env path) (fun result after => result = .error errno ∧ after = world) world) ∨
      (env.reads path = .ok ∧ ∃ stored record, world.fileAt path = some (some stored) ∧
        stored.readBack = some record ∧ Completes (metaReadFile env path)
          (fun result after => result = .ok { record with metaPath := path, logPath := [] } ∧
            after = world) world) := by
  have fails : ∀ errno, (∀ answer, metaReadFile env path world [answer] = .returned (.error errno) world []) →
      Completes (metaReadFile env path) (fun result after => result = .error errno ∧ after = world) world := by
    intro errno failed
    refine completes_call fun answer _ => ?_
    obtain ⟨same, stays, -⟩ := Stop.returned.inj (failed answer)
    exact ⟨same, stays⟩
  cases readable : env.reads path with
  | openFails fault => exact Or.inl ⟨fault.errno, fails _ fun _ => by simp [metaReadFile, call, readable]⟩
  | readFails =>
    cases present : world.fileAt path with
    | none => exact Or.inl ⟨.enoent, fails _ fun _ => by simp [metaReadFile, call, readable, present]⟩
    | some file => exact Or.inl ⟨.einval, fails _ fun _ => by simp [metaReadFile, call, readable, present]⟩
  | ok =>
    cases present : world.fileAt path with
    | none => exact Or.inl ⟨.enoent, fails _ fun _ => by simp [metaReadFile, call, readable, present]⟩
    | some file =>
      cases file with
      | none => exact Or.inl ⟨.einval, fails _ fun _ => by simp [metaReadFile, call, readable, present]⟩
      | some stored =>
        cases decoded : stored.readBack with
        | none => exact Or.inl ⟨.einval, fails _ fun _ => by simp [metaReadFile, call, readable, present, decoded]⟩
        | some record =>
          refine Or.inr ⟨rfl, stored, record, rfl, decoded, completes_call fun answer _ => ?_⟩
          simp [readable, present, decoded]

/-- An entry either stops before pin and log are looked at, in both programs, or is
the file of an accepted record. -/
theorem unusable_or_accepted (suffixed : hasSuffix entry (bytes ".meta") = true) :
    (∃ path, Completes (inspectEntry env config entry)
        (fun result after => result = (some (.invalidMeta path), none) ∧ after = world) world ∧
      Completes (lookEntry env config entry)
        (fun seen after => (seen = .ignored ∨ seen = .unusable) ∧ after = world) world) ∨
      ∃ name record, entry = metaLeaf name ∧ env.reads (config.metaPathOf name) = .ok ∧
        Accepted config name record world := by
  unfold inspectEntry lookEntry
  simp only [inspectHasSuffix, suffixed, Bool.not_true, Bool.false_eq_true, ↓reduceIte]
  by_cases long : pathMax ≤ (joined config.metaRoot entry []).length
  · left
    simp only [long, ↓reduceIte]
    exact ⟨_, completes_pure _ ⟨rfl, rfl⟩, completes_pure _ ⟨Or.inl rfl, rfl⟩⟩
  · simp only [long, ↓reduceIte, inspectEntryName]
    cases named : metaEntryName entry with
    | error errno => exact Or.inl ⟨_, completes_pure _ ⟨rfl, rfl⟩, completes_pure _ ⟨Or.inl rfl, rfl⟩⟩
    | ok name =>
      obtain ⟨rfl, valid⟩ := metaEntryName_ok named
      rw [show joined config.metaRoot (metaLeaf name) [] =
        config.metaPathOf name from joined_metaLeaf config name] at long ⊢
      rcases metaReadFile_cases env (config.metaPathOf name) world with ⟨errno, reads⟩ |
        ⟨readable, stored, record, present, decoded, reads⟩
      · refine Or.inl ⟨config.metaPathOf name, completes_bind (reads.mono ?_), completes_bind (reads.mono ?_)⟩
        · rintro _ _ ⟨rfl, rfl⟩
          exact completes_pure _ ⟨rfl, rfl⟩
        · rintro _ _ ⟨rfl, rfl⟩
          exact completes_pure _ ⟨Or.inr rfl, rfl⟩
      · by_cases passes : record.name = name ∧ pathUnderRoot record.pinPath config.pinRoot = true ∧
            pathHasName record.pinPath record.name = true
        · obtain ⟨same, under, pinned⟩ := passes
          exact Or.inr ⟨name, record, rfl, readable, valid, Nat.not_le.mp long, ⟨stored, present, decoded⟩,
            same, under,
            same ▸ pinned⟩
        · refine Or.inl ⟨config.metaPathOf name, completes_bind (reads.mono ?_), completes_bind (reads.mono ?_)⟩
          · rintro _ _ ⟨rfl, rfl⟩
            simp only
            rw [if_pos]
            · exact completes_pure _ ⟨rfl, rfl⟩
            · by_contra meets
              simp only [not_or, ne_eq, Decidable.not_not, Bool.not_eq_true', Bool.not_eq_false] at meets
              exact passes ⟨meets.1.symm, meets.2⟩
          · rintro _ _ ⟨rfl, rfl⟩
            simp only
            rw [if_pos]
            · exact completes_pure _ ⟨Or.inr rfl, rfl⟩
            · by_contra meets
              simp only [not_or, ne_eq, Decidable.not_not, Bool.not_eq_true', Bool.not_eq_false] at meets
              exact passes meets

end

section Accepted

variable {env : Env} {config : Config} {world : World} {name : Bytes} {record : MetaRecord}

theorem completes_metaReadFile_accepted (accepted : Accepted config name record world)
    (readable : env.reads (config.metaPathOf name) = .ok) :
    Completes (metaReadFile env (config.metaPathOf name)) (fun result after =>
      result = .ok { record with metaPath := config.metaPathOf name, logPath := [] } ∧ after = world) world := by
  obtain ⟨stored, present, decoded⟩ := accepted.decoded
  refine completes_call fun answer _ => ?_
  simp [readable, present, decoded]

/-- The inspector passes an accepted record on to the checks of log and pin. -/
theorem completes_inspectEntry (accepted : Accepted config name record world)
    (readable : env.reads (config.metaPathOf name) = .ok) {post : Option Finding × Option Bytes → World → Prop}
    (long : pathMax ≤ (config.logPathOf name).length → post (some (.invalidMeta (config.metaPathOf name)), none) world)
    (short : (config.logPathOf name).length < pathMax →
      Completes (inspectRecord (config.loadedMeta name record))
        (fun result after => post (some result.1, result.2) after) world) :
    Completes (inspectEntry env config (metaLeaf name)) post world := by
  have path : joined config.metaRoot (metaLeaf name) [] = config.metaPathOf name := joined_metaLeaf config name
  unfold inspectEntry
  simp only [inspectHasSuffix, hasSuffix_metaLeaf, path, inspectEntryName, metaEntryName_metaLeaf accepted.valid,
    Nat.not_le.mpr accepted.fits, Bool.not_true, Bool.false_eq_true, ↓reduceIte]
  apply completes_bind
  apply (completes_metaReadFile_accepted accepted readable).mono
  rintro _ _ ⟨rfl, rfl⟩
  have passes : ¬ (name ≠ record.name ∨ (!inspectPathUnderRoot record.pinPath config.pinRoot) = true ∨
      (!inspectPathHasName record.pinPath record.name) = true) := by
    rw [accepted.named, show inspectPathUnderRoot record.pinPath config.pinRoot = true from accepted.under,
      show inspectPathHasName record.pinPath name = true from accepted.pinned]
    simp
  simp only
  rw [if_neg passes, accepted.named]
  by_cases fits : pathMax ≤ (config.logPathOf name).length
  · rw [show buildLogPath config.metaRoot name = .error .enametoolong from if_pos fits]
    exact completes_pure _ (long fits)
  · rw [show buildLogPath config.metaRoot name = .ok (config.logPathOf name) from if_neg fits]
    apply completes_bind
    apply (short (Nat.not_le.mp fits)).mono
    rintro ⟨finding, loaded⟩ after held
    exact completes_pure _ held

/-- The loader looks for the map of an accepted record. -/
theorem completes_lookEntry (accepted : Accepted config name record world)
    (readable : env.reads (config.metaPathOf name) = .ok) {post : Seen → World → Prop}
    (long : pathMax ≤ (config.logPathOf name).length → ∀ failure, post (.unplaced failure) world)
    (short : (config.logPathOf name).length < pathMax →
      Completes (openOrRebuild config (config.loadedMeta name record))
        (fun opened after => post (.opened opened) after) world) :
    Completes (lookEntry env config (metaLeaf name)) post world := by
  have path : joined config.metaRoot (metaLeaf name) [] = config.metaPathOf name := joined_metaLeaf config name
  unfold lookEntry
  simp only [hasSuffix_metaLeaf, path, metaEntryName_metaLeaf accepted.valid, Nat.not_le.mpr accepted.fits,
    Bool.not_true, Bool.false_eq_true, ↓reduceIte]
  apply completes_bind
  apply (completes_metaReadFile_accepted accepted readable).mono
  rintro _ _ ⟨rfl, rfl⟩
  have passes : ¬ (record.name ≠ name ∨ (!pathUnderRoot record.pinPath config.pinRoot) = true ∨
      (!pathHasName record.pinPath record.name) = true) := by
    rw [accepted.named, accepted.under, accepted.pinned]
    simp
  simp only
  rw [if_neg passes, accepted.named]
  by_cases fits : pathMax ≤ (config.logPathOf name).length
  · rw [show buildLogPath config.metaRoot name = .error .enametoolong from if_pos fits]
    exact completes_pure _ (long fits _)
  · rw [show buildLogPath config.metaRoot name = .ok (config.logPathOf name) from if_neg fits]
    apply completes_bind
    apply (short (Nat.not_le.mp fits)).mono
    intro opened after held
    exact completes_pure _ held

/-- The count that a replay of this log returns -/
def replayCount : Option LogFile → Except Errno Nat
  | none => .error .enoent
  | some log => .ok (Framing.records digestSize log.data).length

theorem completes_logReplayReadonly (path : Bytes) : Completes (logReplayReadonly path inspectLogNoop ())
    (fun result after => result.1 = replayCount (world.logAt path) ∧ after = world) world := by
  cases present : world.logAt path with
  | none =>
    refine completes_bind (completes_attempt ?_)
    rw [present]
    exact completes_pure _ ⟨rfl, rfl⟩
  | some log =>
    refine completes_logReplayImpl log (fun _ _ middle => middle = world) ?_ rfl ?_ ?_ ?_
    · rintro _ _ _ rfl
      exact present
    · rintro _ _ _ _ _ _ rfl
      exact completes_pure _ ⟨rfl, rfl⟩
    · rintro _ _ rfl
      exact ⟨rfl, rfl⟩
    · nofun

theorem completes_inspectValidatePinMatchesMeta {metadata : FilterMeta} {map : Nat} :
    Completes (inspectValidatePinMatchesMeta metadata map)
      (fun result after => after = world ∧ (result = true ↔ Matched metadata.toMetaRecord map world)) world := by
  apply completes_bind
  apply completes_bpfGetMapInfo.mono
  rintro result after ⟨rfl, known⟩
  cases result with
  | error failure =>
    apply completes_pure
    refine ⟨rfl, nofun, ?_⟩
    rintro ⟨kernel, found, _⟩
    exact nomatch (known kernel.info).mpr ⟨kernel, found, rfl⟩
  | ok info =>
    obtain ⟨kernel, found, rfl⟩ := (known info).mp rfl
    apply completes_pure
    refine ⟨rfl, ?_⟩
    simp only [Bool.and_eq_true, beq_iff_eq]
    constructor
    · rintro ⟨⟨⟨⟨type, keySize⟩, valueSize⟩, maxEntries⟩, mapExtra⟩
      exact ⟨kernel, found, type, keySize, valueSize, maxEntries, mapExtra⟩
    · rintro ⟨other, there, matching⟩
      obtain rfl := Option.some.inj (there.symm.trans found)
      exact ⟨⟨⟨⟨matching.type, matching.keySize⟩, matching.valueSize⟩, matching.maxEntries⟩, matching.mapExtra⟩

/-- What the inspector finds for a record whose pin is there -/
theorem completes_inspectRecord_pinned {metadata : FilterMeta} {map : Nat}
    (there : world.pinAt metadata.pinPath = some map) :
    Completes (inspectRecord metadata) (fun result after => after = world ∧
      result.2 = (if metadata.hasData then some metadata.name else none) ∧
      ∃ matched, (matched = true ↔ Matched metadata.toMetaRecord map world) ∧ result.1 =
        if matched then
          if metadata.hasData then pinnedDurable metadata (replayCount (world.logAt metadata.logPath))
          else .ok metadata 0
        else .badPin metadata "metadata_mismatch") world := by
  apply completes_bind
  apply (completes_logReplayReadonly metadata.logPath).mono
  rintro ⟨_, _⟩ _ ⟨rfl, rfl⟩
  apply completes_bind
  apply completes_attempt
  rw [there]
  apply completes_bind
  apply completes_inspectValidatePinMatchesMeta.mono
  rintro matched _ ⟨rfl, agrees⟩
  cases data : metadata.hasData with
  | false => exact completes_pure _ ⟨rfl, rfl, matched, agrees, rfl⟩
  | true => exact completes_pure _ ⟨rfl, rfl, matched, agrees, rfl⟩

/-- What the inspector finds for a record whose pin is missing -/
theorem completes_inspectRecord_unpinned {metadata : FilterMeta} (free : world.pinAt metadata.pinPath = none) :
    Completes (inspectRecord metadata) (fun result after => after = world ∧
      result = (if metadata.hasData then unpinnedDurable metadata .enoent (replayCount (world.logAt metadata.logPath))
        else unpinnedEmpty metadata .enoent (replayCount (world.logAt metadata.logPath)), none)) world := by
  apply completes_bind
  apply (completes_logReplayReadonly metadata.logPath).mono
  rintro ⟨_, _⟩ _ ⟨rfl, rfl⟩
  apply completes_bind
  apply completes_attempt
  rw [free]
  cases data : metadata.hasData with
  | false => exact completes_pure _ ⟨rfl, rfl⟩
  | true => exact completes_pure _ ⟨rfl, rfl⟩

/-- The paths are assigned unless one of them is too long. -/
theorem Accepted.unique {other : MetaRecord} (accepted : Accepted config name record world)
    (again : Accepted config name other world) : record = other := by
  obtain ⟨stored, present, decoded⟩ := accepted.decoded
  obtain ⟨stored', present', decoded'⟩ := again.decoded
  obtain rfl := Option.some.inj (Option.some.inj (present.symm.trans present'))
  exact Option.some.inj (decoded.symm.trans decoded')

/-- The reader lets only these values pass. -/
theorem Accepted.ranges (accepted : Accepted config name record world) :
    record.capacity ≠ 0 ∧ record.hashes ≤ 15 ∧ record.valueSize = digestSize := by
  obtain ⟨stored, _, decoded⟩ := accepted.decoded
  have passes := readBack_isValid decoded
  simp only [MetaRecord.isValid, Bool.and_eq_true, bne_iff_ne, decide_eq_true_eq, beq_iff_eq] at passes
  obtain ⟨⟨⟨⟨⟨_, valueSize⟩, capacity⟩, _⟩, hashes⟩, _⟩ := passes
  exact ⟨capacity, hashes, valueSize⟩

section Entry

variable (accepted : Accepted config name record world) (readable : env.reads (config.metaPathOf name) = .ok)
  (placed : (config.logPathOf name).length < pathMax)

include accepted readable placed

end Entry

end Accepted

end Bloomd
