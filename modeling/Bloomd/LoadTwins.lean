import Bloomd.LoadPreparation

/-! Two startups that find the same for one name. Their turns for that name go the same
way on the same answers, whatever else is on disk and whatever numbers the maps have. -/

namespace Bloomd

open CrashLogic Prog

/-- Two answers that differ at most in what the clock shows, in the same number of digits -/
inductive Answer.Alike : Answer → Answer → Prop where
  | same (answer : Answer) : Alike answer answer
  | times (now later : Nat) (digits : (natText now).length = (natText later).length) : Alike (.time now) (.time later)

instance : Std.Refl Answer.Alike where
  refl := .same

theorem Answer.Alike.refusal {answer answer' : Answer} (alike : answer.Alike answer') :
    answer.refusal = answer'.refusal := by
  cases alike with
  | same => rfl
  | times now later digits => rfl

theorem Answer.Alike.digits {answer answer' : Answer} (alike : answer.Alike answer') :
    (natText answer.clock).length = (natText answer'.clock).length := by
  cases alike with
  | same => rfl
  | times now later digits => exact digits

/-- The map behind a pin -/
def World.pinned (world : World) (loc : Loc) : Option KernelMap := (world.pins.lookup loc).bind (world.maps[·]?)

/-- Every pin leads to a map. -/
def World.Sound (world : World) : Prop := ∀ loc map, world.pins.lookup loc = some map → map < world.maps.length

/-- Two worlds show the same for a name; the maps behind the pins may have other numbers. -/
structure Twin (name : Bytes) (left right : World) : Prop where
  files : ∀ loc, loc.leaf = metaLeaf name → left.files.lookup loc = right.files.lookup loc
  logs : ∀ loc, loc.leaf = logLeaf name → left.logs.lookup loc = right.logs.lookup loc
  pins : ∀ loc, loc.leaf = name → left.pinned loc = right.pinned loc

/-- How a turn leaves the world: no map is changed, and every pin leads to a map. -/
structure Widened (before after : World) : Prop where
  maps : before.maps <+: after.maps
  sound : after.Sound

/-- One map under two numbers -/
def SameMap (left right : World) (map map' : Nat) : Prop :=
  ∃ kernel, left.maps[map]? = some kernel ∧ right.maps[map']? = some kernel

section Calls

variable {name path : Bytes} {state state' begun begun' : World} {α α' : Type}

theorem simulates_attempt {effect : World → Except Errno α × World} {effect' : World → Except Errno α' × World}
    {post : Except Errno α → Except Errno α' → World → World → Prop}
    (refused : ∀ errno, post (.error errno) (.error errno) state state')
    (done : post (effect state).1 (effect' state').1 (effect state).2 (effect' state').2) :
    Simulates Answer.Alike (attempt effect) (attempt effect') post state state' := by
  apply simulates_call
  intro answer answer' alike
  rw [← alike.refusal]
  cases answer.refusal with
  | some errno => exact refused errno
  | none => exact done

theorem World.Sound.pinned (sound : state.Sound) {loc : Loc} {map : Nat} (there : state.pins.lookup loc = some map) :
    ∃ kernel, state.maps[map]? = some kernel ∧ state.pinned loc = some kernel := by
  have bound := sound loc map there
  refine ⟨state.maps[map], List.getElem?_eq_getElem bound, ?_⟩
  rw [World.pinned, there, Option.bind_some, List.getElem?_eq_getElem bound]

/-- The pins of a name are found or missing in both worlds. -/
theorem Twin.found (twin : Twin name state state') (sound : state.Sound) (sound' : state'.Sound) {loc : Loc}
    (leaf : loc.leaf = name) : (state.pins.lookup loc = none ∧ state'.pins.lookup loc = none) ∨
      ∃ map map', state.pins.lookup loc = some map ∧ state'.pins.lookup loc = some map' ∧
        SameMap state state' map map' := by
  have same := twin.pins loc leaf
  cases left : state.pins.lookup loc with
  | none =>
    cases right : state'.pins.lookup loc with
    | none => exact Or.inl ⟨rfl, rfl⟩
    | some map' =>
      obtain ⟨kernel, _, pinned⟩ := sound'.pinned right
      rw [pinned, World.pinned, left] at same
      cases same
  | some map =>
    obtain ⟨kernel, there, pinned⟩ := sound.pinned left
    rw [pinned] at same
    cases right : state'.pins.lookup loc with
    | none =>
      rw [World.pinned, right] at same
      cases same
    | some map' =>
      obtain ⟨other, there', pinned'⟩ := sound'.pinned right
      rw [pinned'] at same
      obtain rfl := Option.some.inj same
      exact Or.inr ⟨map, map', rfl, rfl, kernel, there, there'⟩

theorem simulates_metaReadFile {env env' : Env} (reads : env'.reads = env.reads)
    (files : state.fileAt path = state'.fileAt path) :
    Simulates Answer.Alike (metaReadFile env path) (metaReadFile env' path)
      (fun result result' after after' => result = result' ∧ after = state ∧ after' = state') state state' := by
  apply simulates_call
  intro answer answer' _
  simp only [reads, files]
  cases env.reads path with
  | openFails fault => exact ⟨rfl, rfl, rfl⟩
  | readFails => cases state'.fileAt path <;> exact ⟨rfl, rfl, rfl⟩
  | ok =>
    cases state'.fileAt path with
    | none => exact ⟨rfl, rfl, rfl⟩
    | some file =>
      cases file with
      | none => exact ⟨rfl, rfl, rfl⟩
      | some record =>
        simp only
        cases record.readBack <;> exact ⟨rfl, rfl, rfl⟩

/-- The two results of a search for a pin -/
inductive FoundPin (left right : World) : Except Errno Nat → Except Errno Nat → Prop where
  | found (map map' : Nat) (same : SameMap left right map map') : FoundPin left right (.ok map) (.ok map')
  | missing (errno : Errno) : FoundPin left right (.error errno) (.error errno)

theorem simulates_bpfOpenPinned (twin : Twin name state state') (sound : state.Sound) (sound' : state'.Sound)
    (leaf : (resolve path).leaf = name) :
    Simulates Answer.Alike (bpfOpenPinned path) (bpfOpenPinned path)
      (fun result result' after after' => FoundPin state state' result result' ∧ after = state ∧ after' = state')
      state state' := by
  apply simulates_attempt
  · exact fun errno => ⟨.missing errno, rfl, rfl⟩
  · rcases twin.found sound sound' leaf with ⟨left, right⟩ | ⟨map, map', left, right, same⟩
    · simp only [World.pinAt, left, right, and_true]
      exact .missing _
    · simp only [World.pinAt, left, right, and_true]
      exact .found map map' same

/-- The two results of the creation of a map -/
inductive MadeMap (left right : World) (kernel : KernelMap) :
    Except Failure Nat → Except Failure Nat → World → World → Prop where
  | made : MadeMap left right kernel (.ok left.maps.length) (.ok right.maps.length) (left.addMap kernel)
      (right.addMap kernel)
  | refused (failure : Failure) : MadeMap left right kernel (.error failure) (.error failure) left right

theorem simulates_bpfCreateMap (capacity hashes : Nat) :
    Simulates Answer.Alike (bpfCreateMap capacity hashes) (bpfCreateMap capacity hashes)
      (MadeMap state state' ⟨createdMapInfo capacity hashes, []⟩) state state' := by
  unfold bpfCreateMap
  split
  · exact simulates_pure (.refused _)
  · split
    · exact simulates_pure (.refused _)
    · apply simulates_bind
      apply simulates_attempt
      · exact fun errno => simulates_pure (.refused _)
      · exact simulates_pure .made

theorem simulates_sysRead (logs : state.logAt path = state'.logAt path) (position want : Nat) :
    Simulates Answer.Alike (sysRead path position want) (sysRead path position want)
      (fun result result' after after' => result = result' ∧ after = state ∧ after' = state') state state' := by
  apply simulates_call
  intro answer answer' alike
  rw [logs]
  cases alike with
  | same =>
    cases answer with
    | ok => exact ⟨rfl, rfl, rfl⟩
    | fail fault => exact ⟨rfl, rfl, rfl⟩
    | interrupted => exact ⟨rfl, rfl, rfl⟩
    | count n => exact ⟨rfl, rfl, rfl⟩
    | time now => exact ⟨rfl, rfl, rfl⟩
  | times now later digits => exact ⟨rfl, rfl, rfl⟩

theorem simulates_readDigest (logs : state.logAt path = state'.logAt path) (position : Nat) :
    Simulates Answer.Alike (readDigest path position) (readDigest path position)
      (fun result result' after after' => result = result' ∧ after = state ∧ after' = state') state state' := by
  apply simulates_loop fun got got' middle middle' => got = got' ∧ middle = state ∧ middle' = state'
  · rintro got _ middle middle' ⟨rfl, rfl, rfl⟩
    apply simulates_bind
    apply (simulates_sysRead logs _ _).mono
    rintro moved _ after after' ⟨rfl, rfl, rfl⟩
    cases moved with
    | interrupted => exact simulates_pure (.inl ⟨rfl, rfl, rfl⟩)
    | failed errno => exact simulates_pure (.inr ⟨rfl, rfl, rfl⟩)
    | moved more =>
      apply simulates_pure
      cases takeMore got more with
      | inl got => exact .inl ⟨rfl, rfl, rfl⟩
      | inr result => exact .inr ⟨rfl, rfl, rfl⟩
  · exact ⟨rfl, rfl, rfl⟩

/-- Two replays of one log, with callbacks that keep `rel` -/
theorem simulates_logReplay {κ : Type} {callback callback' : Digest → κ → Sys (Bool × κ)} {context : κ}
    {rel : World → World → Prop} (logs : ∀ {left right}, rel left right → left.logAt path = right.logAt path)
    (truncates : ∀ {left right} length, rel left right →
      rel (left.changeLog path (·.truncate length)) (right.changeLog path (·.truncate length)))
    (calls : ∀ {left right} digest context, rel left right → Simulates Answer.Alike (callback digest context)
      (callback' digest context) (fun result result' after after' => result = result' ∧ rel after after') left right)
    (held : rel state state') :
    Simulates Answer.Alike (logReplay path callback context) (logReplay path callback' context)
      (fun result result' after after' => result = result' ∧ rel after after') state state' := by
  apply simulates_bind
  apply simulates_attempt
  · exact fun errno => simulates_pure ⟨rfl, held⟩
  · rw [logs held]
    cases state'.logAt path with
    | none => exact simulates_pure ⟨rfl, held⟩
    | some log =>
      apply simulates_loop fun current current' left right => current = current' ∧ rel left right
      · rintro ⟨count, context⟩ _ left right ⟨rfl, held⟩
        apply simulates_bind
        apply (simulates_readDigest (logs held) _).mono
        rintro read _ after after' ⟨rfl, rfl, rfl⟩
        cases read with
        | failed errno => exact simulates_pure (.inr ⟨rfl, held⟩)
        | eof rest =>
          simp only
          split
          · exact simulates_pure (.inr ⟨rfl, held⟩)
          · simp only [↓reduceIte]
            apply simulates_bind
            apply simulates_attempt
            · exact fun errno => simulates_pure (.inr ⟨rfl, held⟩)
            · exact simulates_pure (.inr ⟨rfl, truncates _ held⟩)
        | digest digest =>
          apply simulates_bind
          apply (calls digest context held).mono
          rintro ⟨accepted, later⟩ _ last last' ⟨rfl, kept⟩
          cases accepted with
          | true => exact simulates_pure (.inl ⟨rfl, kept⟩)
          | false => exact simulates_pure (.inr ⟨rfl, kept⟩)
      · exact ⟨rfl, held⟩

end Calls

/-- Two worlds that show the same for a name, each reached without a change to a metadata
file or to a map that was there -/
structure Paired (name : Bytes) (begun begun' left right : World) : Prop where
  twin : Twin name left right
  widened : Widened begun left
  widened' : Widened begun' right
  files : left.files = begun.files
  files' : right.files = begun'.files

section Rebuild

variable {name path : Bytes} {config : Config} {begun begun' left right : World}

theorem Paired.start (twin : Twin name begun begun') (sound : begun.Sound) (sound' : begun'.Sound) :
    Paired name begun begun' begun begun' :=
  ⟨twin, ⟨List.prefix_refl _, sound⟩, ⟨List.prefix_refl _, sound'⟩, rfl, rfl⟩

theorem pinned_widened {world later : World} {loc : Loc} (sound : world.Sound)
    (pins : later.pins.lookup loc = world.pins.lookup loc) (maps : world.maps <+: later.maps) :
    later.pinned loc = world.pinned loc := by
  rw [World.pinned, World.pinned, pins]
  cases there : world.pins.lookup loc with
  | none => rfl
  | some map =>
    obtain ⟨more, grown⟩ := maps
    rw [Option.bind_some, Option.bind_some, ← grown]
    exact List.getElem?_append_left (sound loc map there)

/-- Two worlds in the course of a replay into the map that was created last -/
structure Replaying (name : Bytes) (begun begun' left right : World) : Prop where
  logs : ∀ loc, loc.leaf = logLeaf name → left.logs.lookup loc = right.logs.lookup loc
  pins : left.pins = begun.pins
  pins' : right.pins = begun'.pins
  maps : ∃ kernel, left.maps = begun.maps ++ [kernel] ∧ right.maps = begun'.maps ++ [kernel]
  files : left.files = begun.files
  files' : right.files = begun'.files

theorem Replaying.start (twin : Twin name begun begun') (kernel : KernelMap) :
    Replaying name begun begun' (begun.addMap kernel) (begun'.addMap kernel) :=
  ⟨twin.logs, rfl, rfl, ⟨kernel, rfl, rfl⟩, rfl, rfl⟩

theorem Replaying.truncate (replaying : Replaying name begun begun' left right)
    (leaf : (resolve path).leaf = logLeaf name)
    (length : Nat) : Replaying name begun begun' (left.changeLog path (·.truncate length))
      (right.changeLog path (·.truncate length)) := by
  have same : left.logAt path = right.logAt path := replaying.logs _ leaf
  constructor
  · intro loc own
    unfold World.changeLog
    rw [same]
    cases right.logAt path with
    | none => exact replaying.logs loc own
    | some log =>
      by_cases here : loc = resolve path
      · rw [here]
        simp
      · simp only [World.setLog_logs]
        rw [AList.lookup_insert_ne here, AList.lookup_insert_ne here]
        exact replaying.logs loc own
  · rw [World.changeLog_pins]
    exact replaying.pins
  · rw [World.changeLog_pins]
    exact replaying.pins'
  · rw [World.changeLog_maps, World.changeLog_maps]
    exact replaying.maps
  · rw [World.changeLog_files]
    exact replaying.files
  · rw [World.changeLog_files]
    exact replaying.files'

theorem Replaying.addDigest (replaying : Replaying name begun begun' left right) (digest : Digest) :
    Replaying name begun begun' (left.addDigest begun.maps.length digest)
      (right.addDigest begun'.maps.length digest) := by
  obtain ⟨kernel, maps, maps'⟩ := replaying.maps
  refine ⟨replaying.logs, replaying.pins, replaying.pins', ?_, replaying.files, replaying.files'⟩
  refine ⟨{ kernel with contents := kernel.contents ++ [digest] }, ?_, ?_⟩
  · rw [World.addDigest_maps, maps, modify_appended]
  · rw [World.addDigest_maps, maps', modify_appended]

theorem Replaying.paired (replaying : Replaying name begun begun' left right) (twin : Twin name begun begun')
    (sound : begun.Sound) (sound' : begun'.Sound) : Paired name begun begun' left right := by
  obtain ⟨kernel, maps, maps'⟩ := replaying.maps
  have prefixed : begun.maps <+: left.maps := maps ▸ List.prefix_append _ _
  have prefixed' : begun'.maps <+: right.maps := maps' ▸ List.prefix_append _ _
  refine ⟨⟨?_, replaying.logs, ?_⟩, ⟨prefixed, ?_⟩, ⟨prefixed', ?_⟩, replaying.files, replaying.files'⟩
  · intro loc leaf
    rw [replaying.files, replaying.files']
    exact twin.files loc leaf
  · intro loc leaf
    rw [pinned_widened sound (by rw [replaying.pins]) prefixed,
      pinned_widened sound' (by rw [replaying.pins']) prefixed']
    exact twin.pins loc leaf
  · intro loc map there
    rw [replaying.pins] at there
    exact lt_of_lt_of_le (sound loc map there) prefixed.length_le
  · intro loc map there
    rw [replaying.pins'] at there
    exact lt_of_lt_of_le (sound' loc map there) prefixed'.length_le

theorem World.Sound.setPin {world : World} {map : Nat} (sound : world.Sound) (bound : map < world.maps.length) :
    (world.setPin path map).Sound := by
  intro loc other there
  by_cases here : loc = resolve path
  · rw [World.setPin_pins, here, AList.lookup_insert] at there
    obtain rfl := Option.some.inj there
    exact bound
  · rw [World.setPin_pins, AList.lookup_insert_ne here] at there
    exact sound loc other there

/-- Pinning the new map keeps the two worlds alike. -/
theorem Replaying.pin (replaying : Replaying name begun begun' left right) (twin : Twin name begun begun')
    (sound : begun.Sound) (sound' : begun'.Sound) (path : Bytes) :
    Paired name begun begun' (left.setPin path begun.maps.length) (right.setPin path begun'.maps.length) ∧
      SameMap (left.setPin path begun.maps.length) (right.setPin path begun'.maps.length) begun.maps.length
        begun'.maps.length := by
  have before := replaying.paired twin sound sound'
  obtain ⟨kernel, maps, maps'⟩ := replaying.maps
  have last : left.maps[begun.maps.length]? = some kernel := by simp [maps]
  have last' : right.maps[begun'.maps.length]? = some kernel := by simp [maps']
  refine ⟨⟨⟨before.twin.files, before.twin.logs, ?_⟩, ⟨before.widened.maps, ?_⟩, ⟨before.widened'.maps, ?_⟩,
    before.files, before.files'⟩, kernel, last, last'⟩
  · intro loc leaf
    by_cases here : loc = resolve path
    · subst here
      simp only [World.pinned, World.setPin_pins, World.setPin_maps, AList.lookup_insert, Option.bind_some,
        last, last']
    · have pins := before.twin.pins loc leaf
      simp only [World.pinned, World.setPin_pins, World.setPin_maps, AList.lookup_insert_ne here] at pins ⊢
      exact pins
  · exact before.widened.sound.setPin (by simp [maps])
  · exact before.widened'.sound.setPin (by simp [maps'])

/-- The two results of a rebuild -/
inductive RebuiltMap (left right : World) :
    Except Failure (FilterMeta × Nat) → Except Failure (FilterMeta × Nat) → Prop where
  | rebuilt (record : FilterMeta) (map map' : Nat) (same : SameMap left right map map') :
      RebuiltMap left right (.ok (record, map)) (.ok (record, map'))
  | failed (failure : Failure) : RebuiltMap left right (.error failure) (.error failure)

theorem simulates_replayDigest (digest : Digest) (context : Except Failure Unit)
    (replaying : Replaying name begun begun' left right) :
    Simulates Answer.Alike (replayDigest begun.maps.length digest context)
      (replayDigest begun'.maps.length digest context)
      (fun result result' after after' => result = result' ∧ Replaying name begun begun' after after') left right := by
  apply simulates_bind
  apply simulates_bind
  apply simulates_attempt
  · exact fun errno => simulates_pure (simulates_pure ⟨rfl, replaying⟩)
  · exact simulates_pure (simulates_pure ⟨rfl, replaying.addDigest digest⟩)

theorem simulates_rebuildFromLog {record : FilterMeta} (valid : nameIsValid name = true) (named : record.name = name)
    (twin : Twin name begun begun') (sound : begun.Sound) (sound' : begun'.Sound) :
    Simulates Answer.Alike (rebuildFromLog config record) (rebuildFromLog config record)
      (fun result result' after after' => RebuiltMap after after' result result' ∧
        Paired name begun begun' after after')
      begun begun' := by
  unfold rebuildFromLog
  split
  · exact simulates_pure ⟨.failed _, .start twin sound sound'⟩
  · rename_i placed assigned
    obtain ⟨-, -, -, rfl⟩ := assignFilterPaths_ok assigned
    apply simulates_bind
    apply (simulates_bpfCreateMap _ _).mono
    intro created created' left right outcome
    cases outcome with
    | refused failure => exact simulates_pure ⟨.failed _, .start twin sound sound'⟩
    | made =>
      have logLeaf : (resolve (config.logPathOf record.name)).leaf = logLeaf name := by
        rw [named]
        exact leaf_logPathOf config valid
      apply simulates_bind
      apply (simulates_logReplay (fun held => held.logs _ logLeaf) (fun length held => held.truncate logLeaf length)
        (fun digest context held => simulates_replayDigest digest context held) (Replaying.start twin _)).mono
      rintro ⟨replayed, context⟩ _ after after' ⟨rfl, replaying⟩
      cases replayed with
      | error errno => exact simulates_pure ⟨.failed _, replaying.paired twin sound sound'⟩
      | ok count =>
        have leaf : (resolve (config.pinPathOf record.name)).leaf = name := by
          rw [named]
          exact leaf_pinPathOf config valid
        apply simulates_bind
        apply simulates_bind
        apply simulates_attempt
        · exact fun errno => simulates_pure (simulates_pure ⟨.failed _, replaying.paired twin sound sound'⟩)
        · simp only [World.pinAt, replaying.pins, replaying.pins']
          rcases twin.found sound sound' leaf with ⟨free, free'⟩ | ⟨map, map', taken, taken', _⟩
          · simp only [free, free']
            obtain ⟨paired, same⟩ := replaying.pin twin sound sound' (config.pinPathOf record.name)
            exact simulates_pure (simulates_pure ⟨.rebuilt _ _ _ same, paired⟩)
          · simp only [taken, taken']
            exact simulates_pure (simulates_pure ⟨.failed _, replaying.paired twin sound sound'⟩)

end Rebuild

/-- What two turns have in hand after they looked for the pin -/
inductive OpenedAlike (left right : World) : Opened → Opened → Prop where
  | map (record : FilterMeta) (map map' : Nat) (unpinOnError : Bool) (same : SameMap left right map map') :
      OpenedAlike left right (.map record map unpinOnError) (.map record map' unpinOnError)
  | stale : OpenedAlike left right .stale .stale
  | failed (failure : Failure) : OpenedAlike left right (.failed failure) (.failed failure)

/-- A metadata file was renamed, with the time behind its name. -/
def SetAside (path : Bytes) (before after : World) (now : Nat) : Prop :=
  ∃ file, before.fileAt path = some file ∧
    after.files = ((before.dropFile path).setFile (path ++ bytes ".stale." ++ natText now) file).files

/-- What two turns have ready for one name, and the worlds they leave -/
inductive Prepares (name path : Bytes) (begun begun' : World) : Ready → Ready → World → World → Prop where
  | nothing : Prepares name path begun begun' .nothing .nothing begun begun'
  | failed (failure failure' : Failure) (left right : World) :
      Prepares name path begun begun' (.failed failure) (.failed failure') left right
  | unmoved {left right : World} (paired : Paired name begun begun' left right) :
      Prepares name path begun begun' .aside .aside left right
  | moved {left right : World} (twin : Twin name left right) (widened : Widened begun left)
      (widened' : Widened begun' right) (now now' : Nat) (aside : SetAside path begun left now)
        (aside' : SetAside path begun' right now') :
      Prepares name path begun begun' .aside .aside left right
  | filter {left right : World} (record : FilterMeta) (filter filter' : Filter) (unpinOnError : Bool)
      (named : filter.name = name)
      (metadata : filter'.metadata = filter.metadata)
      (incomplete : filter'.logHistoryIncomplete = filter.logHistoryIncomplete)
      (same : SameMap left right filter.mapFd filter'.mapFd) (paired : Paired name begun begun' left right) :
      Prepares name path begun begun' (.filter record filter unpinOnError)
        (.filter record filter' unpinOnError) left right

section Turns

variable {name path : Bytes} {config : Config} {begun begun' left right : World} {record : FilterMeta}

theorem simulates_openOrRebuild (valid : nameIsValid name = true) (named : record.name = name)
    (leaf : (resolve record.pinPath).leaf = name) (twin : Twin name begun begun') (sound : begun.Sound)
    (sound' : begun'.Sound) :
    Simulates Answer.Alike (openOrRebuild config record) (openOrRebuild config record)
      (fun opened opened' after after' => OpenedAlike after after' opened opened' ∧
        Paired name begun begun' after after')
      begun begun' := by
  have start := Paired.start twin sound sound'
  apply simulates_bind
  apply (simulates_bpfOpenPinned twin sound sound' leaf).mono
  rintro result result' after after' ⟨outcome, rfl, rfl⟩
  cases outcome with
  | found map map' same => exact simulates_pure ⟨.map _ _ _ _ same, start⟩
  | missing errno =>
    simp only
    split
    · split
      · apply simulates_bind
        apply (simulates_bpfCreateMap _ _).mono
        intro created created' left right outcome
        cases outcome with
        | refused failure => exact simulates_pure ⟨.failed _, start⟩
        | made =>
          have paired :=
            (Replaying.start twin ⟨createdMapInfo record.capacity record.hashes, []⟩).paired twin sound sound'
          refine simulates_pure ⟨.map _ _ _ _ ⟨⟨createdMapInfo record.capacity record.hashes, []⟩, ?_, ?_⟩, paired⟩
          · simp
          · simp
      · split
        · exact simulates_pure ⟨.failed _, start⟩
        · apply simulates_bind
          apply (simulates_rebuildFromLog valid named twin sound sound').mono
          rintro rebuilt rebuilt' left right ⟨outcome, paired⟩
          cases outcome with
          | rebuilt record map map' same => exact simulates_pure ⟨.map _ _ _ _ same, paired⟩
          | failed failure =>
            simp only
            split
            · exact simulates_pure ⟨.stale, paired⟩
            · exact simulates_pure ⟨.failed _, paired⟩
    · exact simulates_pure ⟨.failed _, start⟩

theorem simulates_cleanupEntry (leaf : (resolve record.pinPath).leaf = name)
    (paired : Paired name begun begun' left right)
    (unpinOnError : Bool) : Simulates Answer.Alike (cleanupEntry record unpinOnError)
      (cleanupEntry record unpinOnError) (fun _ _ _ _ => True) left right := by
  unfold cleanupEntry
  split
  · have unlinks : Simulates Answer.Alike (sysUnlinkPin record.pinPath) (sysUnlinkPin record.pinPath)
        (fun result result' _ _ => result = .ok () ∧ result' = .ok () ∨
          ∃ errno errno', result = .error errno ∧ result' = .error errno') left right := by
      apply simulates_attempt
      · exact fun errno => Or.inr ⟨errno, errno, rfl, rfl⟩
      · rcases paired.twin.found paired.widened.sound paired.widened'.sound leaf with ⟨free, free'⟩ |
          ⟨_, _, taken, taken', _⟩
        · simp only [World.pinAt, free, free']
          exact Or.inr ⟨_, _, rfl, rfl⟩
        · simp [World.pinAt, taken, taken']
    apply simulates_bind
    apply simulates_bind
    apply simulates_bind
    apply unlinks.mono
    rintro result result' after after' (⟨rfl, rfl⟩ | ⟨errno, errno', rfl, rfl⟩)
    · exact simulates_pure (simulates_pure (simulates_pure trivial))
    · apply simulates_pure
      split
      · split
        · exact simulates_pure (simulates_pure trivial)
        · exact simulates_pure (simulates_pure trivial)
      · split
        · exact simulates_pure (simulates_pure trivial)
        · exact simulates_pure (simulates_pure trivial)
  · exact simulates_pure trivial

theorem simulates_validateOpenPinnedMap {map map' : Nat} (same : SameMap left right map map') :
    Simulates Answer.Alike (validateOpenPinnedMap record map) (validateOpenPinnedMap record map')
      (fun result result' after after' => result = result' ∧ after = left ∧ after' = right) left right := by
  obtain ⟨kernel, there, there'⟩ := same
  apply simulates_bind
  apply simulates_bind
  apply simulates_attempt
  · exact fun errno => simulates_pure (simulates_pure ⟨rfl, rfl, rfl⟩)
  · simp only [there, there']
    apply simulates_pure
    simp only
    split
    · exact simulates_pure ⟨rfl, rfl, rfl⟩
    · exact simulates_pure ⟨rfl, rfl, rfl⟩

/-- A log that is missing is created in both worlds. -/
theorem Paired.openLog (paired : Paired name begun begun' left right) :
    Paired name begun begun' (left.setLog path .empty) (right.setLog path .empty) := by
  refine ⟨⟨paired.twin.files, ?_, paired.twin.pins⟩, ⟨paired.widened.maps, paired.widened.sound⟩,
    ⟨paired.widened'.maps, paired.widened'.sound⟩, paired.files, paired.files'⟩
  intro loc own
  by_cases here : loc = resolve path
  · subst here
    simp
  · simp only [World.setLog_logs, AList.lookup_insert_ne here]
    exact paired.twin.logs loc own

theorem simulates_prepareFilter {map map' : Nat} (named : record.name = name)
    (leaf : (resolve record.pinPath).leaf = name)
    (logged : (resolve record.logPath).leaf = logLeaf name) (same : SameMap left right map map')
    (paired : Paired name begun begun' left right) (unpinOnError : Bool) :
    Simulates Answer.Alike (prepareFilter record map unpinOnError) (prepareFilter record map' unpinOnError)
      (Prepares name path begun begun') left right := by
  have fails : ∀ (failure : Failure) {left right : World}, Paired name begun begun' left right →
      Simulates Answer.Alike (do cleanupEntry record unpinOnError; pure (Ready.failed failure))
        (do cleanupEntry record unpinOnError; pure (Ready.failed failure))
          (Prepares name path begun begun') left right := by
    intro failure left right paired
    apply simulates_bind
    apply (simulates_cleanupEntry leaf paired unpinOnError).mono
    exact fun _ _ after after' _ => simulates_pure (.failed failure failure after after')
  apply simulates_bind
  apply (simulates_validateOpenPinnedMap same).mono
  rintro checked _ left right ⟨rfl, rfl, rfl⟩
  cases checked with
  | error failure => exact fails failure paired
  | ok done =>
    unfold openLoadedLog
    cases data : record.hasData with
    | false =>
      have closed : (loadedFilter record map).metadata.hasData = false := data
      have closed' : (loadedFilter record map').metadata.hasData = false := data
      simp only [closed, closed', Bool.false_eq_true, ↓reduceIte, pure_bind]
      exact simulates_pure (.filter _ _ _ _ named rfl rfl same paired)
    | true =>
      have durable : (loadedFilter record map).metadata.hasData = true := data
      have durable' : (loadedFilter record map').metadata.hasData = true := data
      simp only [durable, durable', ↓reduceIte]
      have opens : Simulates Answer.Alike (logOpen record.logPath false) (logOpen record.logPath false)
          (fun result result' after after' => result = result' ∧ Paired name begun begun' after after' ∧
            SameMap after after' map map') left right := by
        apply simulates_attempt
        · exact fun errno => ⟨rfl, paired, same⟩
        · have logs : left.logAt record.logPath = right.logAt record.logPath := paired.twin.logs _ logged
          rw [logs]
          cases right.logAt record.logPath with
          | some log => exact ⟨rfl, paired, same⟩
          | none => exact ⟨rfl, paired.openLog, same⟩
      unfold openFilterLog
      simp only [bind_assoc]
      apply simulates_bind
      apply opens.mono
      rintro result _ after after' ⟨rfl, paired, same⟩
      cases result with
      | error errno =>
        simp only [pure_bind]
        exact fails _ paired
      | ok fd =>
        simp only [bind_assoc, pure_bind]
        apply simulates_bind
        apply simulates_call
        intro answer answer' _
        exact simulates_pure (.filter _ _ _ _ named rfl rfl same paired)

theorem staleLoc_ne (valid : nameIsValid name = true) (now : Nat) {loc : Loc} {other : Bytes}
    (leaf : loc.leaf = metaLeaf other) : loc ≠ resolve (config.metaPathOf name ++ bytes ".stale." ++ natText now) := by
  rintro rfl
  rw [leaf_copy config valid _ (by decide)] at leaf
  exact copy_ne_metaLeaf _ _ _ leaf

/-- The files of a name are alike after both were renamed. -/
theorem Twin.setAside (valid : nameIsValid name = true) (twin : Twin name left right) (now now' : Nat)
    (file : Option MetaRecord) :
    Twin name
      ((left.dropFile (config.metaPathOf name)).setFile (config.metaPathOf name ++ bytes ".stale." ++
        natText now) file)
      ((right.dropFile (config.metaPathOf name)).setFile (config.metaPathOf name ++ bytes ".stale." ++
        natText now') file) := by
  refine ⟨?_, twin.logs, twin.pins⟩
  intro loc leaf
  rw [World.setFile_files, World.setFile_files, AList.lookup_insert_ne (staleLoc_ne valid now leaf),
    AList.lookup_insert_ne (staleLoc_ne valid now' leaf), World.dropFile_files, World.dropFile_files]
  by_cases here : loc = resolve (config.metaPathOf name)
  · rw [here, AList.lookup_erase, AList.lookup_erase]
  · rw [AList.lookup_erase_ne here, AList.lookup_erase_ne here]
    exact twin.files loc leaf

theorem simulates_metaRecoverStale (valid : nameIsValid name = true) (paired : Paired name begun begun' left right) :
    Simulates Answer.Alike (do let _ ← metaRecoverStale (config.metaPathOf name); pure Ready.aside)
      (do let _ ← metaRecoverStale (config.metaPathOf name); pure Ready.aside)
      (Prepares name (config.metaPathOf name) begun begun') left right := by
  apply simulates_bind
  apply simulates_bind
  apply simulates_call
  intro answer answer' alike
  have digits := alike.digits
  have long : pathMax ≤ (config.metaPathOf name ++ bytes ".stale." ++ natText answer.clock).length ↔
      pathMax ≤ (config.metaPathOf name ++ bytes ".stale." ++ natText answer'.clock).length := by
    simp only [List.length_append, digits]
  simp only [← long]
  split
  · exact simulates_pure (simulates_pure (.unmoved paired))
  · apply simulates_attempt
    · exact fun errno => simulates_pure (.unmoved paired)
    · have same : left.fileAt (config.metaPathOf name) = right.fileAt (config.metaPathOf name) :=
        paired.twin.files _ (leaf_metaPathOf config valid)
      have first : begun.fileAt (config.metaPathOf name) = left.fileAt (config.metaPathOf name) := by
        rw [World.fileAt, World.fileAt, paired.files]
      have first' : begun'.fileAt (config.metaPathOf name) = right.fileAt (config.metaPathOf name) := by
        rw [World.fileAt, World.fileAt, paired.files']
      rw [same]
      cases present : right.fileAt (config.metaPathOf name) with
      | none => exact simulates_pure (.unmoved paired)
      | some file =>
        apply simulates_pure
        refine .moved (paired.twin.setAside valid _ _ file) ⟨paired.widened.maps, paired.widened.sound⟩
          ⟨paired.widened'.maps, paired.widened'.sound⟩ answer.clock answer'.clock ⟨file, ?_, ?_⟩ ⟨file, ?_, ?_⟩
        · rw [first, same, present]
        · simp only [World.setFile_files, World.dropFile_files, paired.files]
        · rw [first', present]
        · simp only [World.setFile_files, World.dropFile_files, paired.files']

/-- The turns of one entry in two startups that read alike -/
theorem simulates_prepareEntry {env env' : Env} (reads : env'.reads = env.reads) (valid : nameIsValid name = true)
    (twin : Twin name begun begun') (sound : begun.Sound) (sound' : begun'.Sound) :
    Simulates Answer.Alike (prepareEntry env config (metaLeaf name)) (prepareEntry env' config (metaLeaf name))
      (Prepares name (config.metaPathOf name) begun begun') begun begun' := by
  have start := Paired.start twin sound sound'
  have path : joined config.metaRoot (metaLeaf name) [] = config.metaPathOf name := joined_metaLeaf config name
  have asides : ∀ {left right : World}, Paired name begun begun' left right →
      Simulates Answer.Alike (do let _ ← metaRecoverStale (config.metaPathOf name); pure Ready.aside)
        (do let _ ← metaRecoverStale (config.metaPathOf name); pure Ready.aside)
        (Prepares name (config.metaPathOf name) begun begun') left right :=
    fun paired => simulates_metaRecoverStale valid paired
  unfold prepareEntry lookEntry
  simp only [path, metaEntryName_metaLeaf valid]
  split
  · exact simulates_bind (simulates_pure (simulates_pure .nothing))
  · split
    · exact simulates_bind (simulates_pure (simulates_pure .nothing))
    · unfold lookRecord
      rw [bind_assoc, bind_assoc]
      apply simulates_bind
      apply ((simulates_metaReadFile reads (twin.files _ (leaf_metaPathOf config valid))).covered
        (wp_metaReadFile env _ begun)).mono
      rintro read _ _ _ ⟨⟨rfl, rfl, rfl⟩, -, recorded⟩
      cases read with
      | error errno =>
        simp only [pure_bind]
        exact asides start
      | ok record =>
        simp only
        split
        · simp only [pure_bind]
          exact asides start
        · rename_i accepted
          simp only [not_or, ne_eq, Decidable.not_not, Bool.not_eq_true', Bool.not_eq_false] at accepted
          obtain ⟨named, -, pinned⟩ := accepted
          split
          · rename_i errno _
            simp only [pure_bind]
            exact simulates_pure (.failed _ _ _ _)
          · rename_i logPath built
            obtain rfl : logPath = config.logPathOf name := by
              rw [(joinPath_ok built).2, named]
              rfl
            obtain ⟨stored, decoded, -, -, rfl⟩ := recorded record rfl
            have placed :
                Placed config { decoded with metaPath := config.metaPathOf name, logPath := config.logPathOf name } :=
              placed_of_read valid named pinned
            have leaf : (resolve decoded.pinPath).leaf = name := placed.pin.trans named
            simp only [bind_assoc, pure_bind]
            apply simulates_bind
            have opens := @simulates_openOrRebuild name config _ _
              { decoded with metaPath := config.metaPathOf name, logPath := config.logPathOf name } valid named leaf
              twin sound sound'
            apply (opens.covered (staysWithin_openOrRebuild placed _)).mono
            rintro opened opened' left right ⟨⟨outcome, paired⟩, fits, -⟩
            cases outcome with
            | stale => exact asides paired
            | failed failure => exact simulates_pure (.failed _ _ _ _)
            | map record map map' unpinOnError same =>
              obtain ⟨placed, same'⟩ := fits
              have named : record.name = name := same'.trans named
              apply simulates_prepareFilter named (placed.pin.trans named) _ same paired unpinOnError
              rw [placed.log, named]
              exact leaf_logPathOf config valid

end Turns

end Bloomd
