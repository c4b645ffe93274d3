import Bloomd.Access
import Bloomd.ServerCounters

/-! No request makes a handler read or write out of range: with every access checked the
handlers do what they do without the checks. -/

namespace Bloomd

open CrashLogic Framing

section Names

variable {stored name : Bytes}

theorem length_nameBuffer (short : stored.length ≤ maxNameLen) : (nameBuffer stored).length = maxNameLen + 1 := by
  rw [nameBuffer, List.length_append, List.length_replicate]
  omega

theorem nameByte_buffer {index : Nat} (small : index ≤ maxNameLen) :
    nameByte stored index = (nameBuffer stored)[index]? :=
  if_pos small

theorem nameByte_inside {index : Nat} (short : stored.length ≤ maxNameLen) (inside : index < stored.length) :
    nameByte stored index = stored[index]? := by
  rw [nameByte_buffer (by omega), nameBuffer, List.getElem?_append_left inside]

theorem nameByte_end (short : stored.length ≤ maxNameLen) : nameByte stored stored.length = some 0 := by
  rw [nameByte_buffer short, nameBuffer, List.getElem?_append_right (le_refl _), Nat.sub_self,
    List.getElem?_replicate, if_pos (by omega)]

theorem nameStrlen_valid (valid : nameIsValid stored = true) (left : Nat) : ∀ {index : Nat},
    index ≤ stored.length → index + left = maxNameLen + 1 → nameStrlen stored left index = some stored.length := by
  have short := length_of_valid valid
  induction left with
  | zero =>
    intro index inside ends
    omega
  | succ left ih =>
    intro index inside ends
    rcases Nat.lt_or_eq_of_le inside with before | last
    · obtain ⟨ch, found⟩ : ∃ ch, stored[index]? = some ch := ⟨_, List.getElem?_eq_getElem before⟩
      have nonzero : ch ≠ 0 := by
        rintro rfl
        exact not_mem_of_valid valid (by decide) (List.mem_of_getElem? found)
      have read : nameByte stored index = some ch := by rw [nameByte_inside short before, found]
      simp only [nameStrlen, read, Option.bind_eq_bind, Option.bind_some, nonzero, ↓reduceIte]
      exact ih before (by omega)
    · have read : nameByte stored index = some 0 := by rw [last, nameByte_end short]
      simp only [nameStrlen, read, Option.bind_eq_bind, Option.bind_some, ↓reduceIte]
      rw [last]

theorem nameText_valid (valid : nameIsValid stored = true) : nameText stored = some stored := by
  have length := nameStrlen_valid valid (maxNameLen + 1) (Nat.zero_le stored.length) (Nat.zero_add _)
  have content : fetch (nameByte stored) 0 stored.length = some stored := by
    apply fetch_content
    intro index inside
    rw [Nat.zero_add, nameByte_inside (length_of_valid valid) inside]
  simp only [nameText, length, Option.bind_eq_bind, Option.bind_some, content]

theorem printedFilter_valid {filter : Filter} (valid : nameIsValid filter.name = true) :
    printedFilter filter = some filter := by
  simp only [printedFilter, nameText_valid valid, Option.bind_eq_bind, Option.bind_some]

/-- The test of a stored name against a name that can be read -/
theorem checkedNameMatches_eq {read : Nat → Option UInt8} {src : Nat} (short : stored.length ≤ maxNameLen)
    (bounded : name.length ≤ maxNameLen) (reads : fetch read src name.length = some name) :
    checkedNameMatches stored read src name.length = some (nameMatches stored name) := by
  have size := length_nameBuffer short
  have front : fetch (nameByte stored) 0 name.length = some ((nameBuffer stored).take name.length) := by
    have length : ((nameBuffer stored).take name.length).length = name.length := by
      rw [List.length_take]
      omega
    have found : fetch (nameByte stored) 0 ((nameBuffer stored).take name.length).length =
        some ((nameBuffer stored).take name.length) := by
      apply fetch_content
      intro index small
      rw [length] at small
      rw [Nat.zero_add, nameByte_buffer (by omega), List.getElem?_take_of_lt small]
    rw [length] at found
    exact found
  obtain ⟨ch, found⟩ : ∃ ch, (nameBuffer stored)[name.length]? = some ch := ⟨_, List.getElem?_eq_getElem (by omega)⟩
  have read : nameByte stored name.length = some ch := by rw [nameByte_buffer bounded, found]
  simp only [checkedNameMatches, read, Option.bind_eq_bind, Option.bind_some, front, reads, nameMatches, found]
  by_cases ended : ch = 0
  · simp [ended]
  · simp [ended]

theorem checkedScan_eq {read : Nat → Option UInt8} {src : Nat} (bounded : name.length ≤ maxNameLen)
    (reads : fetch read src name.length = some name) (items : List Filter) : ∀ (index : Nat),
    (∀ filter ∈ items, nameIsValid filter.name = true) → checkedScan read src name.length items index =
      some ((items.findIdx? fun filter => nameMatches filter.name name).map (· + index)) := by
  induction items with
  | nil => exact fun _ _ => rfl
  | cons filter rest ih =>
    intro index valid
    have tested := checkedNameMatches_eq (length_of_valid (valid filter List.mem_cons_self)) bounded reads
    have later := ih (index + 1) fun other member => valid other (List.mem_cons_of_mem _ member)
    simp only [checkedScan, tested, Option.bind_eq_bind, Option.bind_some, later, List.findIdx?_cons]
    by_cases same : nameMatches filter.name name = true
    · simp [same]
    · simp only [same, Bool.false_eq_true, ↓reduceIte, Option.map_map]
      congr 2
      funext found
      simp only [Function.comp_apply]
      omega

theorem checkedCached_eq {read : Nat → Option UInt8} {src : Nat} {set : FilterSet} (bounded : name.length ≤ maxNameLen)
    (reads : fetch read src name.length = some name) (valid : ∀ filter ∈ set.items, nameIsValid filter.name = true) :
    checkedCached set read src name.length = some (set.lastIndex.any fun last => set.matchesAt name last) := by
  unfold checkedCached
  split
  · rename_i filter there
    obtain ⟨last, cached, there⟩ := Option.bind_eq_some_iff.mp there
    rw [checkedNameMatches_eq (length_of_valid (valid filter (List.mem_of_getElem? there))) bounded reads, cached]
    simp only [Option.any_some, FilterSet.matchesAt]
    rw [there]
  · rename_i missing
    cases cached : set.lastIndex with
    | none => rfl
    | some last =>
      rw [cached, Option.bind_some] at missing
      simp only [Option.any_some, FilterSet.matchesAt]
      rw [missing]

theorem checkedFindN_eq {read : Nat → Option UInt8} {src : Nat} {set : FilterSet} (bounded : name.length ≤ maxNameLen)
    (reads : fetch read src name.length = some name) (valid : ∀ filter ∈ set.items, nameIsValid filter.name = true) :
    checkedFindN set read src name.length = some (set.findN name) := by
  have scanned : checkedScan read src name.length set.items 0 =
      some (set.items.findIdx? fun filter => nameMatches filter.name name) := by
    rw [checkedScan_eq bounded reads set.items 0 valid]
    simp only [Nat.add_zero, Option.map_id']
  simp only [checkedFindN, checkedCached_eq bounded reads valid, scanned, Option.bind_eq_bind, Option.bind_some,
    FilterSet.findN, FilterSet.findN.scan]
  generalize (set.items.findIdx? fun filter => nameMatches filter.name name) = found
  cases set.lastIndex with
  | none => cases found <;> rfl
  | some last =>
    simp only [Option.any_some]
    by_cases same : set.matchesAt name last = true
    · rw [if_pos same, if_pos same]
    · rw [if_neg same, if_neg same]
      cases found <;> rfl

theorem checkedFind_eq {set : FilterSet} (named : nameIsValid name = true)
    (valid : ∀ filter ∈ set.items, nameIsValid filter.name = true) : checkedFind set name = some (set.findN name) := by
  have short := length_of_valid named
  have length := nameStrlen_valid named (maxNameLen + 1) (Nat.zero_le name.length) (Nat.zero_add _)
  have content : fetch (nameByte name) 0 name.length = some name := by
    apply fetch_content
    intro index inside
    rw [Nat.zero_add, nameByte_inside short inside]
  simp only [checkedFind, length, Option.bind_eq_bind, Option.bind_some]
  exact checkedFindN_eq short content valid

end Names

section Parsers

variable {view : RequestView}

theorem RequestView.small (view : RequestView) : view.body.length < 2 ^ 32 := by
  rw [view.sized]
  exact view.header.bodyLen.toNat_lt

theorem fetch_byte {off count : Nat} (inside : off + count ≤ view.body.length) :
    fetch view.byte off count = some ((view.body.drop off).take count) := fetch_inside inside

/-- A field of a header that was copied out of a body -/
theorem take_drop_header (body : Bytes) {size off width : Nat} (inside : off + width ≤ size) :
    ((body.take size).drop off).take width = (body.drop off).take width := by
  rw [List.drop_take, List.take_take, Nat.min_eq_left (by omega)]

theorem loadU16_lt (src : Bytes) : loadU16 src < 2 ^ 16 := by
  have small := loadLe_lt (src.take 2)
  have short : (src.take 2).length ≤ 2 := List.length_take_le _ _
  have bound : 256 ^ (src.take 2).length ≤ 256 ^ 2 := Nat.pow_le_pow_right (by omega) short
  exact Nat.lt_of_lt_of_le small bound

theorem loadU32_lt (src : Bytes) : loadU32 src < 2 ^ 32 := by
  have small := loadLe_lt (src.take 4)
  have short : (src.take 4).length ≤ 4 := List.length_take_le _ _
  have bound : 256 ^ (src.take 4).length ≤ 256 ^ 4 := Nat.pow_le_pow_right (by omega) short
  exact Nat.lt_of_lt_of_le small bound

theorem nameViewLoop_eq {src : Nat} (left : Nat) : ∀ {index : Nat}, src + index + left ≤ view.body.length →
    index + left < 2 ^ 16 → nameViewLoop view src left index =
      some (((view.body.drop (src + index)).take left).all nameChar) := by
  have small := view.small
  induction left with
  | zero =>
    intro index _ _
    simp [nameViewLoop]
  | succ left ih =>
    intro index inside narrow
    have before : src + index < view.body.length := by omega
    have place : addWide 64 src index = some (src + index) := addWide_small (by omega)
    have next : addWide 16 index 1 = some (index + 1) := addWide_small (by omega)
    have byte : view.byte (src + index) = some (view.body[src + index]) := List.getElem?_eq_getElem before
    have later := @ih (index + 1) (by omega) (by omega)
    rw [← Nat.add_assoc] at later
    rw [List.drop_eq_getElem_cons before, List.take_succ_cons, List.all_cons]
    simp only [nameViewLoop, place, byte, next, later, Option.bind_eq_bind, Option.bind_some]
    by_cases plain : nameChar view.body[src + index] = true
    · simp [plain]
    · simp [plain]

theorem nameViewIsValid_eq {src length : Nat} (inside : src + length ≤ view.body.length) :
    nameViewIsValid view src length = some (nameIsValid ((view.body.drop src).take length)) := by
  have size : ((view.body.drop src).take length).length = length := by
    rw [List.length_take, List.length_drop]
    omega
  unfold nameViewIsValid nameIsValid
  rw [size]
  by_cases fits : length = 0 ∨ maxNameLen < length
  · rw [if_pos fits]
    rcases fits with rfl | long
    · simp
    · simp [Nat.not_le.mpr long]
  · rw [if_neg fits]
    have bounds : length ≠ 0 ∧ length ≤ maxNameLen := by omega
    rw [nameViewLoop_eq length inside (by simp only [maxNameLen] at bounds; omega)]
    simp [bounds]

theorem parseNameCopy_eq {src length : Nat} (inside : src + length ≤ view.body.length) :
    parseNameCopy view src length = some (if nameIsValid ((view.body.drop src).take length) then
      .ok ((view.body.drop src).take length) else .error .einval) := by
  simp only [parseNameCopy, nameViewIsValid_eq inside, Option.bind_eq_bind, Option.bind_some]
  by_cases valid : nameIsValid ((view.body.drop src).take length) = true
  · have short := length_of_valid valid
    rw [List.length_take, List.length_drop, Nat.min_eq_left (by omega)] at short
    have room : length < (List.replicate (maxNameLen + 1) (0 : UInt8)).length := by
      rw [List.length_replicate]
      omega
    simp only [valid, fetch_byte inside, store_inside room, Bool.not_true, Bool.false_eq_true, ↓reduceIte,
      Option.bind_some]
  · simp [valid]

theorem checkedParseCreate_eq (view : RequestView) : checkedParseCreate view = some (parseCreate view.body) := by
  unfold checkedParseCreate parseCreate
  rw [← view.sized]
  by_cases short : view.body.length < 24
  · rw [if_pos short, if_pos short]
  · rw [if_neg short, if_neg short]
    have header : fetch view.byte 0 24 = some (view.body.take 24) := fetch_byte (by omega)
    have nameLen : loadU16 ((view.body.take 24).drop 20) = loadU16 (view.body.drop 20) :=
      congrArg loadLe (take_drop_header _ (by omega))
    have reserved : loadU16 ((view.body.take 24).drop 22) = loadU16 (view.body.drop 22) :=
      congrArg loadLe (take_drop_header _ (by omega))
    have hashes : loadU32 ((view.body.take 24).drop 16) = loadU32 (view.body.drop 16) :=
      congrArg loadLe (take_drop_header _ (by omega))
    have rate : loadDouble ((view.body.take 24).drop 8) = loadDouble (view.body.drop 8) :=
      congrArg (fun raw => (loadLe raw).toUInt64) (take_drop_header _ (by omega))
    have capacity : loadU64 (view.body.take 24) = loadU64 view.body :=
      congrArg loadLe (@take_drop_header view.body 24 0 8 (by omega))
    have narrow := loadU16_lt (view.body.drop 20)
    have total : addWide 64 24 (loadU16 (view.body.drop 20)) = some (24 + loadU16 (view.body.drop 20)) :=
      addWide_small (by omega)
    simp only [header, nameLen, reserved, hashes, rate, capacity, total, Option.bind_eq_bind, Option.bind_some]
    by_cases whole : 24 + loadU16 (view.body.drop 20) ≠ view.body.length
    · rw [if_pos whole, if_pos whole]
    · rw [if_neg whole, if_neg whole]
      by_cases zero : loadU16 (view.body.drop 22) ≠ 0
      · rw [if_pos zero, if_pos zero]
      · rw [if_neg zero, if_neg zero, parseNameCopy_eq (by omega)]
        by_cases valid : nameIsValid ((view.body.drop 24).take (loadU16 (view.body.drop 20))) = true
        · simp [valid]
        · simp [valid]

/-- The three requests with a header of eight bytes copy it out of the body first. -/
theorem copied_header (long : 8 ≤ view.body.length) : ∃ header, fetch view.byte 0 8 = some header ∧
    loadU16 header = loadU16 view.body ∧ loadU16 (header.drop 2) = loadU16 (view.body.drop 2) ∧
    loadU32 (header.drop 4) = loadU32 (view.body.drop 4) := by
  refine ⟨view.body.take 8, fetch_byte long, ?_, ?_, ?_⟩
  · exact congrArg loadLe (@take_drop_header view.body 8 0 2 (by omega))
  · exact congrArg loadLe (take_drop_header _ (by omega))
  · exact congrArg loadLe (take_drop_header _ (by omega))

/-- A name in the request, and where it is -/
structure Names (view : RequestView) (src length : Nat) (name : Bytes) : Prop where
  sized : length = name.length
  valid : nameIsValid name = true
  read : fetch view.byte src length = some name

theorem names_of_valid {src length : Nat} (inside : src + length ≤ view.body.length)
    (valid : nameIsValid ((view.body.drop src).take length) = true) :
    Names view src length ((view.body.drop src).take length) := by
  refine ⟨?_, valid, fetch_byte inside⟩
  rw [List.length_take, List.length_drop]
  omega

/-- Both parsers of an INFO or DROP refuse the body with the same reply, or find the name. -/
theorem checkedParseNameRequest_cases (operation : String) (view : RequestView) :
    (∃ reply, checkedParseNameRequest operation view = some (.error reply) ∧
      parseNameRequest operation view.body = .error reply) ∨
    ∃ src length name, checkedParseNameRequest operation view = some (.ok (src, length)) ∧
      parseNameRequest operation view.body = .ok name ∧ Names view src length name := by
  unfold checkedParseNameRequest parseNameRequest
  rw [← view.sized]
  by_cases short : view.body.length < 8
  · rw [if_pos short, if_pos short]
    exact .inl ⟨_, rfl, rfl⟩
  · rw [if_neg short, if_neg short]
    obtain ⟨header, copied, nameLen, first, second⟩ := copied_header (Nat.not_lt.mp short)
    have narrow := loadU16_lt view.body
    have total : addWide 64 8 (loadU16 view.body) = some (8 + loadU16 view.body) := addWide_small (by omega)
    simp only [copied, nameLen, first, second, total, Option.bind_eq_bind, Option.bind_some]
    by_cases whole : 8 + loadU16 view.body ≠ view.body.length
    · rw [if_pos whole, if_pos whole]
      exact .inl ⟨_, rfl, rfl⟩
    · rw [if_neg whole, if_neg whole]
      by_cases zero : loadU16 (view.body.drop 2) ≠ 0 ∨ loadU32 (view.body.drop 4) ≠ 0
      · rw [if_pos zero, if_pos zero]
        exact .inl ⟨_, rfl, rfl⟩
      · have inside : 8 + loadU16 view.body ≤ view.body.length := by omega
        rw [if_neg zero, if_neg zero, nameViewIsValid_eq inside]
        by_cases valid : nameIsValid ((view.body.drop 8).take (loadU16 view.body)) = true
        · right
          refine ⟨8, loadU16 view.body, (view.body.drop 8).take (loadU16 view.body), ?_, ?_,
            names_of_valid inside valid⟩
          · simp [valid]
          · simp [valid]
        · left
          refine ⟨.error .name .parse "invalid name", ?_, ?_⟩
          · simp [valid]
          · simp [valid]

/-- What the pointers of a parsed body stand for -/
structure Located.Spans (located : Located) (view : RequestView) (name rest : Bytes) : Prop where
  names : Names view located.name located.nameLen name
  inside : located.rest + located.restLen ≤ view.body.length
  content : (view.body.drop located.rest).take located.restLen = rest

theorem Located.Spans.length {located : Located} {name rest : Bytes} (spans : located.Spans view name rest) :
    rest.length = located.restLen := by
  have inside := spans.inside
  rw [← spans.content, List.length_take, List.length_drop]
  omega

theorem checkedParseNamePayload_cases (view : RequestView) :
    (∃ errno, checkedParseNamePayload view = some (.error errno) ∧ parseNamePayload view.body = .error errno) ∨
    ∃ located name payload, checkedParseNamePayload view = some (.ok located) ∧
      parseNamePayload view.body = .ok (name, payload) ∧ located.Spans view name payload := by
  unfold checkedParseNamePayload parseNamePayload
  rw [← view.sized]
  by_cases short : view.body.length < 8
  · rw [if_pos short, if_pos short]
    exact .inl ⟨_, rfl, rfl⟩
  · rw [if_neg short, if_neg short]
    obtain ⟨header, copied, nameLen, first, second⟩ := copied_header (Nat.not_lt.mp short)
    have narrow := loadU16_lt view.body
    have wide := loadU32_lt (view.body.drop 4)
    have named : addWide 64 8 (loadU16 view.body) = some (8 + loadU16 view.body) := addWide_small (by omega)
    have total : addWide 64 (8 + loadU16 view.body) (loadU32 (view.body.drop 4)) =
        some (8 + loadU16 view.body + loadU32 (view.body.drop 4)) := addWide_small (by omega)
    simp only [copied, nameLen, first, second, named, total, Option.bind_eq_bind, Option.bind_some]
    by_cases whole : 8 + loadU16 view.body + loadU32 (view.body.drop 4) ≠ view.body.length
    · rw [if_pos whole, if_pos whole]
      exact .inl ⟨_, rfl, rfl⟩
    · rw [if_neg whole, if_neg whole]
      by_cases zero : loadU16 (view.body.drop 2) ≠ 0
      · rw [if_pos zero, if_pos zero]
        exact .inl ⟨_, rfl, rfl⟩
      · have inside : 8 + loadU16 view.body ≤ view.body.length := by omega
        rw [if_neg zero, if_neg zero, nameViewIsValid_eq inside]
        by_cases valid : nameIsValid ((view.body.drop 8).take (loadU16 view.body)) = true
        · right
          refine ⟨⟨8, loadU16 view.body, 8 + loadU16 view.body, loadU32 (view.body.drop 4)⟩,
            (view.body.drop 8).take (loadU16 view.body), view.body.drop (8 + loadU16 view.body), ?_, ?_,
            ⟨names_of_valid inside valid, ?_, ?_⟩⟩
          · simp [valid]
          · simp [valid]
          · simp only
            omega
          · apply List.take_of_length_le
            simp only [List.length_drop]
            omega
        · left
          refine ⟨.einval, ?_, ?_⟩
          · simp [valid]
          · simp [valid]

theorem checkedParseBatch_cases (view : RequestView) :
    (∃ errno, checkedParseBatch view = some (.error errno) ∧ parseBatch view.body = .error errno) ∨
    ∃ located batch, checkedParseBatch view = some (.ok (batch.itemCount, located)) ∧
      parseBatch view.body = .ok batch ∧
      located.Spans view batch.name batch.items ∧ batch.itemCount ≤ maxBatchItems := by
  unfold checkedParseBatch parseBatch
  rw [← view.sized]
  by_cases short : view.body.length < 8
  · rw [if_pos short, if_pos short]
    exact .inl ⟨_, rfl, rfl⟩
  rw [if_neg short, if_neg short]
  obtain ⟨header, copied, nameLen, first, second⟩ := copied_header (Nat.not_lt.mp short)
  have narrow := loadU16_lt view.body
  have named : addWide 64 8 (loadU16 view.body) = some (8 + loadU16 view.body) := addWide_small (by omega)
  simp only [copied, nameLen, first, second, named, Option.bind_eq_bind, Option.bind_some]
  by_cases none : loadU16 (view.body.drop 2) = 0
  · rw [if_pos none, if_pos none]
    exact .inl ⟨_, rfl, rfl⟩
  rw [if_neg none, if_neg none]
  by_cases many : maxBatchItems < loadU16 (view.body.drop 2)
  · rw [if_pos many, if_pos many]
    exact .inl ⟨_, rfl, rfl⟩
  rw [if_neg many, if_neg many]
  by_cases zero : loadU32 (view.body.drop 4) ≠ 0
  · rw [if_pos zero, if_pos zero]
    exact .inl ⟨_, rfl, rfl⟩
  rw [if_neg zero, if_neg zero]
  by_cases cut : view.body.length < 8 + loadU16 view.body
  · rw [if_pos cut, if_pos cut]
    exact .inl ⟨_, rfl, rfl⟩
  have inside : 8 + loadU16 view.body ≤ view.body.length := by omega
  have unnamed : subWide view.body.length 8 = some (view.body.length - 8) := subWide_le (by omega)
  have itemsLen : subWide (view.body.length - 8) (loadU16 view.body) =
      some (view.body.length - 8 - loadU16 view.body) := subWide_le (by omega)
  rw [if_neg cut, if_neg cut, nameViewIsValid_eq inside]
  by_cases valid : nameIsValid ((view.body.drop 8).take (loadU16 view.body)) = true
  · right
    refine ⟨⟨8, loadU16 view.body, 8 + loadU16 view.body, view.body.length - 8 - loadU16 view.body⟩,
      ⟨(view.body.drop 8).take (loadU16 view.body), loadU16 (view.body.drop 2),
        view.body.drop (8 + loadU16 view.body)⟩,
      ?_, ?_, ⟨names_of_valid inside valid, ?_, ?_⟩, Nat.not_lt.mp many⟩
    · simp [valid, unnamed, itemsLen]
    · simp [valid]
    · simp only
      omega
    · apply List.take_of_length_le
      simp only [List.length_drop]
      omega
  · left
    refine ⟨.einval, ?_, ?_⟩
    · simp [valid]
    · simp [valid]

end Parsers

section Payloads

variable {view : RequestView}

theorem load64Le_take (data : Bytes) : load64Le (data.take 8) = load64Le data := by
  simp [load64Le, List.range_succ]

theorem checkedAbsorbWords_eq (words : Nat) : ∀ {data length : Nat} (lanes : SipState × SipState),
    data + length ≤ view.body.length → 8 * words ≤ length →
    checkedAbsorbWords view words data lanes = some (data + 8 * words,
      (absorbWords words ((view.body.drop data).take length) lanes).2) ∧
    (absorbWords words ((view.body.drop data).take length) lanes).1 =
      (view.body.drop (data + 8 * words)).take (length - 8 * words) := by
  have small := view.small
  induction words with
  | zero =>
    intro data length lanes _ _
    exact ⟨rfl, rfl⟩
  | succ words ih =>
    intro data length lanes inside room
    obtain ⟨a, b⟩ := lanes
    have word : fetch view.byte data 8 = some ((view.body.drop data).take 8) := fetch_byte (by omega)
    have next : addWide 64 data 8 = some (data + 8) := addWide_small (by omega)
    have same : load64Le ((view.body.drop data).take 8) = load64Le ((view.body.drop data).take length) := by
      have cut : (view.body.drop data).take 8 = ((view.body.drop data).take length).take 8 := by
        rw [List.take_take, Nat.min_eq_left (by omega)]
      rw [cut, load64Le_take]
    have rest : ((view.body.drop data).take length).drop 8 = (view.body.drop (data + 8)).take (length - 8) := by
      rw [List.drop_take, List.drop_drop]
    have later := @ih (data + 8) (length - 8) (sipAbsorb a (load64Le ((view.body.drop data).take length)),
      sipAbsorb b (load64Le ((view.body.drop data).take length))) (by omega) (by omega)
    have reach : data + 8 + 8 * words = data + 8 * (words + 1) := by omega
    have left : length - 8 - 8 * words = length - 8 * (words + 1) := by omega
    rw [reach, left] at later
    simp only [checkedAbsorbWords, absorbWords, word, next, same, rest, Option.bind_eq_bind, Option.bind_some]
    exact later

theorem checkedDigestPayload_eq {data length : Nat} (inside : data + length ≤ view.body.length) :
    checkedDigestPayload view data length = some (digestPayload ((view.body.drop data).take length)) := by
  have size : ((view.body.drop data).take length).length = length := by
    rw [List.length_take, List.length_drop]
    omega
  obtain ⟨absorbed, rest⟩ := @checkedAbsorbWords_eq view (length / 8) data length
    (sipInit 0x0706050403020100 0x0f0e0d0c0b0a0908, sipInit 0x1716151413121110 0x1f1e1d1c1b1a1918) inside (by omega)
  have left : length - 8 * (length / 8) = length % 8 := by omega
  have tail : fetch view.byte (data + 8 * (length / 8)) (length % 8) =
      some ((view.body.drop (data + 8 * (length / 8))).take (length % 8)) := fetch_byte (by omega)
  rw [left] at rest
  simp only [checkedDigestPayload, absorbed, tail, Option.bind_eq_bind, Option.bind_some, digestPayload,
    siphash128Dual,
    size, rest]

/-- The items that a batch has from an offset on -/
theorem checkedReadPayload_cases {located : Located} {name items : Bytes}
    (spans : located.Spans view name items) {off : Nat} (bounded : off ≤ items.length) :
    (∃ errno, checkedReadPayload view (located.rest + off) (items.length - off) = some (.error errno) ∧
      readPayload (items.drop off) = .error errno) ∨
    ∃ src length consumed, checkedReadPayload view (located.rest + off) (items.length - off) =
        some (.ok (src, length, consumed)) ∧ src + length ≤ view.body.length ∧ off + consumed ≤ items.length ∧
      readPayload (items.drop off) = .ok ((view.body.drop src).take length, consumed) := by
  have small := view.small
  have inside := spans.inside
  have length := spans.length
  have there : items.drop off = (view.body.drop (located.rest + off)).take (items.length - off) := by
    rw [← spans.content, List.drop_take, List.drop_drop, List.length_take, List.length_drop]
    congr 1
    omega
  have size : (items.drop off).length = items.length - off := List.length_drop
  unfold checkedReadPayload readPayload
  rw [size]
  by_cases short : items.length - off < 4
  · rw [if_pos short, if_pos short]
    exact .inl ⟨_, rfl, rfl⟩
  · rw [if_neg short, if_neg short]
    have raw : fetch view.byte (located.rest + off) 4 = some ((items.drop off).take 4) := by
      rw [fetch_byte (by omega), there, List.take_take, Nat.min_eq_left (by omega)]
    have field : loadU32 ((items.drop off).take 4) = loadU32 (items.drop off) := by
      rw [loadU32, loadU32, List.take_take, Nat.min_self]
    have wide := loadU32_lt (items.drop off)
    have total : addWide 64 4 (loadU32 (items.drop off)) = some (4 + loadU32 (items.drop off)) :=
      addWide_small (by omega)
    have place : addWide 64 (located.rest + off) 4 = some (located.rest + off + 4) := addWide_small (by omega)
    simp only [raw, field, total, place, Option.bind_eq_bind, Option.bind_some]
    by_cases large : maxFrameBody < loadU32 (items.drop off)
    · rw [if_pos large, if_pos large]
      exact .inl ⟨_, rfl, rfl⟩
    · rw [if_neg large, if_neg large]
      by_cases cut : items.length - off < 4 + loadU32 (items.drop off)
      · rw [if_pos cut, if_pos cut]
        exact .inl ⟨_, rfl, rfl⟩
      · rw [if_neg cut, if_neg cut]
        right
        refine ⟨_, _, _, rfl, by omega, by omega, ?_⟩
        have payload : ((items.drop off).drop 4).take (loadU32 (items.drop off)) =
            (view.body.drop (located.rest + off + 4)).take (loadU32 (items.drop off)) := by
          generalize loadU32 (items.drop off) = count at cut ⊢
          rw [there, List.drop_take, List.drop_drop, List.take_take, Nat.min_eq_left (by omega)]
        rw [payload]

theorem checkedScanItems_eq {located : Located} {name items : Bytes} (spans : located.Spans view name items)
    (left : Nat) : ∀ {index scan : Nat}, scan ≤ items.length → index + left < 2 ^ 16 →
      checkedScanItems view located.rest located.restLen left index scan = some (scanItems items left scan) := by
  have small := view.small
  have inside := spans.inside
  have length := spans.length
  induction left with
  | zero => exact fun _ _ => rfl
  | succ left ih =>
    intro index scan bounded narrow
    have place : addWide 64 located.rest scan = some (located.rest + scan) := addWide_small (by omega)
    have remains : subWide located.restLen scan = some (items.length - scan) := by
      rw [subWide_le (by omega), length]
    have turn : addWide 16 index 1 = some (index + 1) := addWide_small (by omega)
    simp only [checkedScanItems, scanItems, place, remains, turn, Option.bind_eq_bind, Option.bind_some]
    obtain ⟨errno, checked, plain⟩ | ⟨src, size, consumed, checked, -, reach, plain⟩ :=
      checkedReadPayload_cases spans bounded
    · simp only [checked, plain, Option.bind_some]
    · have next : addWide 64 scan consumed = some (scan + consumed) := addWide_small (by omega)
      simp only [checked, plain, next, Option.bind_some]
      exact ih reach (by omega)

end Payloads

section Handlers

variable {daemon : Daemon} {view : RequestView}

/-- Every filter has a valid name. -/
def Daemon.Named (daemon : Daemon) : Prop := ∀ filter ∈ daemon.set.items, nameIsValid filter.name = true

theorem Names.findN {src length : Nat} {name : Bytes} (names : Names view src length name) (named : daemon.Named) :
    checkedFindN daemon.set view.byte src length = some (daemon.set.findN name) := by
  obtain ⟨rfl, valid, read⟩ := names
  exact checkedFindN_eq (length_of_valid valid) read named

theorem safe_withFilter {src length : Nat} {name : Bytes} (names : Names view src length name) (named : daemon.Named)
    {checked : Filter → Guarded (Reply × Filter)} {work : Filter → Sys (Reply × Filter)}
    (safe : ∀ filter, nameIsValid filter.name = true → Safe (checked filter) (work filter)) :
    Safe (checkedWithFilter daemon view src length checked) (withFilter daemon name work) := by
  have items := @FilterSet.findN_items daemon.set name
  unfold checkedWithFilter withFilter
  rw [names.findN named, access_bind]
  generalize daemon.set.findN name = looked at items ⊢
  obtain ⟨found, set⟩ := looked
  simp only at items ⊢
  cases found with
  | none => exact safe_pure _
  | some index =>
    cases there : set.items[index]? with
    | none =>
      simp only [there]
      exact safe_pure _
    | some filter =>
      simp only [there]
      have member : filter ∈ daemon.set.items := items ▸ List.mem_of_getElem? there
      apply (safe filter (named filter member)).bind
      intro served
      exact safe_pure _

theorem safe_createBody [Libm] (named : daemon.Named) (view : RequestView) :
    Safe (checkedCreateBody daemon view) (handleCreateBody daemon view.body) := by
  unfold checkedCreateBody handleCreateBody
  rw [checkedParseCreate_eq, access_bind]
  cases parsed : parseCreate view.body with
  | error reply => exact safe_pure _
  | ok request =>
    have valid : nameIsValid request.name = true := by
      unfold parseCreate at parsed
      split_ifs at parsed with short whole zero invalid
      cases parsed
      simpa using invalid
    obtain ⟨name, capacity, errorRate, hashes⟩ := request
    simp only [checkedCreate, handleCreate, valid, Bool.not_true, Bool.false_eq_true, ↓reduceIte]
    split
    · exact safe_pure _
    · rw [checkedFind_eq valid named, access_bind]
      generalize daemon.set.findN name = looked
      obtain ⟨found, set⟩ := looked
      simp only
      split
      · exact safe_pure _
      · rw [nameText_valid valid, access_bind]
        cases assignFilterPaths daemon.config (newFilterMeta ⟨name, capacity, errorRate, hashes⟩) with
        | error errno => exact safe_pure _
        | ok metadata => ?_
        simp only
        generalize takeEmptyMap { daemon with set } metadata.capacity metadata.hashes metadata.valueSize = taken
        obtain ⟨map, later⟩ := taken
        simp only
        cases map with
        | some map => exact safe_lift _
        | none =>
          apply (safe_lift _).bind
          intro created
          cases created with
          | error failure =>
            simp only
            split
            · exact safe_pure _
            · exact safe_pure _
          | ok map => exact safe_lift _

theorem safe_addCheckBody (named : daemon.Named) (view : RequestView) (isAdd : Bool) :
    Safe (checkedAddCheckBody daemon view isAdd) (handleAddCheckBody daemon view.body isAdd) := by
  unfold checkedAddCheckBody handleAddCheckBody
  obtain ⟨errno, checked, plain⟩ | ⟨located, name, payload, checked, plain, spans⟩ :=
    checkedParseNamePayload_cases view
  · rw [checked, plain, access_bind]
    exact safe_pure _
  · rw [checked, plain, access_bind]
    simp only [handleAddCheck, spans.names.valid, Bool.not_true, Bool.false_eq_true, ↓reduceIte]
    apply safe_withFilter spans.names named
    intro filter valid
    rw [checkedDigestPayload_eq spans.inside, spans.content, access_bind]
    cases isAdd with
    | true =>
      simp only [↓reduceIte, printedFilter_valid valid, access_bind]
      exact safe_lift _
    | false => exact safe_lift _

theorem safe_batchItem (mode : LogSyncMode) (isAdd marked anyAdded : Bool) (payload : Bytes) (filter : Filter) :
    Safe (checkedBatchItem mode isAdd marked anyAdded (digestPayload payload) filter)
      (batchItem mode isAdd marked anyAdded payload filter) := by
  unfold checkedBatchItem batchItem
  cases isAdd with
  | true =>
    apply (safe_lift _).bind
    rintro ⟨added, later⟩
    cases added with
    | error reply => exact safe_pure _
    | ok done => exact safe_pure _
  | false =>
    apply (safe_lift _).bind
    intro checked
    cases checked with
    | error failure => exact safe_pure _
    | ok present => exact safe_pure _

/-- The result vector after the turns from `index` on have written their values -/
def placed (results : Bytes) (index : Nat) : Except Reply (Nat × Bytes) × Filter → Except Reply (Nat × Bytes) × Filter
  | (.error reply, filter) => (.error reply, filter)
  | (.ok (off, values), filter) =>
    (.ok (off, results.take index ++ (values ++ results.drop (index + values.length))), filter)

theorem placed_set {results : Bytes} {index : Nat} (inside : index < results.length) (value : UInt8) (off : Nat)
    (values : Bytes) (filter : Filter) :
    placed (results.set index value) (index + 1) (.ok (off, values), filter) =
      placed results index (.ok (off, value :: values), filter) := by
  have front : (results.set index value).take (index + 1) = results.take index ++ [value] := by
    rw [List.take_succ_eq_append_getElem (by simpa using inside), List.take_set_of_le (le_refl _),
      List.getElem_set_self]
  have back : (results.set index value).drop (index + 1 + values.length) =
      results.drop (index + (value :: values).length) := by
    rw [List.drop_set_of_lt (by omega), List.length_cons]
    congr 1
    omega
  simp only [placed, front, back, List.append_assoc, List.cons_append, List.nil_append]

theorem safe_batchItems {located : Located} {name items : Bytes} (spans : located.Spans view name items)
    (mode : LogSyncMode) (isAdd marked : Bool) (left : Nat) :
    ∀ {index off : Nat} (anyAdded : Bool) (results : Bytes) (filter : Filter), off ≤ items.length →
      index + left ≤ results.length → index + left < 2 ^ 16 →
      Safe
        (checkedBatchItems mode isAdd marked view located.rest located.restLen left index off anyAdded results filter)
        (placed results index <$> batchItems mode isAdd marked items left off anyAdded filter) := by
  have small := view.small
  have inside := spans.inside
  have length := spans.length
  induction left with
  | zero =>
    intro index off anyAdded results filter _ _ _
    simp only [checkedBatchItems, batchItems, map_pure, placed, List.length_nil, Nat.add_zero, List.nil_append,
      List.take_append_drop]
    exact safe_pure _
  | succ left ih =>
    intro index off anyAdded results filter bounded room narrow
    have place : addWide 64 located.rest off = some (located.rest + off) := addWide_small (by omega)
    have remains : subWide located.restLen off = some (items.length - off) := by
      rw [subWide_le (by omega), length]
    have turn : addWide 16 index 1 = some (index + 1) := addWide_small (by omega)
    simp only [checkedBatchItems, batchItems, place, remains, turn, access_bind]
    obtain ⟨errno, checked, plain⟩ | ⟨src, size, consumed, checked, within, reach, plain⟩ :=
      checkedReadPayload_cases spans bounded
    · simp only [checked, plain, access_bind, map_pure]
      exact safe_pure _
    · have next : addWide 64 off consumed = some (off + consumed) := addWide_small (by omega)
      simp only [checked, plain, next, checkedDigestPayload_eq within, access_bind, map_bind]
      apply (safe_batchItem mode isAdd marked anyAdded _ filter).bind
      rintro ⟨item, later⟩
      cases item with
      | error reply =>
        simp only [map_pure]
        exact safe_pure _
      | ok present =>
        have stored : store results index (if present then 1 else 0) =
            some (results.set index (if present then 1 else 0)) := store_inside (by omega)
        simp only [stored, access_bind, map_bind]
        have rest := @ih (index + 1) (off + consumed) (isAdd || anyAdded)
          (results.set index (if present then 1 else 0)) later reach (by rw [List.length_set]; omega) (by omega)
        rw [map_eq_pure_bind] at rest
        refine Eq.mpr (congrArg (Safe _) (bind_congr ?_)) rest
        rintro ⟨_ | ⟨reached, values⟩, last⟩
        · rfl
        · rw [placed_set (by omega)]
          rfl

theorem safe_prepareBatch {located : Located} {batch : BatchRequest}
    (spans : located.Spans view batch.name batch.items)
    (few : batch.itemCount ≤ maxBatchItems) (isAdd : Bool) (mode : LogSyncMode) {filter : Filter}
    (valid : nameIsValid filter.name = true) :
    Safe (checkedPrepareBatch filter view batch.itemCount located isAdd mode)
      (prepareBatch filter batch isAdd mode) := by
  unfold checkedPrepareBatch prepareBatch
  cases isAdd with
  | false => exact safe_pure _
  | true =>
    have narrow : 0 + batch.itemCount < 2 ^ 16 := by
      simp only [maxBatchItems] at few
      omega
    simp only [↓reduceIte, checkedScanItems_eq spans batch.itemCount (Nat.zero_le _) narrow, access_bind, spans.length]
    cases scanItems batch.items batch.itemCount 0 with
    | error errno => exact safe_pure _
    | ok scan =>
      simp only
      split
      · exact safe_pure _
      · rw [printedFilter_valid valid, access_bind]
        exact safe_lift _

theorem safe_handleItems {located : Located} {batch : BatchRequest} (spans : located.Spans view batch.name batch.items)
    (few : batch.itemCount ≤ maxBatchItems) (isAdd : Bool) (mode : LogSyncMode) {results : Bytes}
    (sized : results.length = maxBatchItems) {filter : Filter} (valid : nameIsValid filter.name = true) :
    Safe (checkedHandleItems filter view batch.itemCount located isAdd mode results)
      (handleItems filter batch isAdd mode) := by
  unfold checkedHandleItems handleItems
  apply (safe_prepareBatch spans few isAdd mode valid).bind
  rintro ⟨prepared, later⟩
  cases prepared with
  | error reply => exact safe_pure _
  | ok marked =>
    have narrow : 0 + batch.itemCount < 2 ^ 16 := by
      simp only [maxBatchItems] at few
      omega
    have room : 0 + batch.itemCount ≤ results.length := by omega
    apply (safe_batchItems spans mode isAdd marked batch.itemCount false results later
      (Nat.zero_le _) room narrow).bind_through
      (returns_batchItems mode isAdd marked batch.items batch.itemCount 0 false later).yields
    rintro ⟨done, last⟩ counted
    cases done with
    | error reply => exact safe_pure _
    | ok reached =>
      obtain ⟨off, values⟩ := reached
      have sent : fetch (fun index => (values ++ results.drop (0 + values.length))[index]?) 0 batch.itemCount =
          some values := by
        have count : values.length = batch.itemCount := counted
        rw [fetch_inside (by rw [List.length_append]; omega), ← count, List.drop_zero, List.take_left]
      simp only [placed, spans.length, List.take_zero, List.nil_append, sent, access_bind]
      split
      · exact safe_pure _
      · split
        · exact safe_pure _
        · exact safe_pure _

theorem safe_batchBody (named : daemon.Named) (view : RequestView) (isAdd : Bool) {results : Bytes}
    (sized : results.length = maxBatchItems) :
    Safe (checkedBatchBody daemon view isAdd results) (handleBatchBody daemon view.body isAdd) := by
  unfold checkedBatchBody handleBatchBody
  obtain ⟨errno, checked, plain⟩ | ⟨located, batch, checked, plain, spans, few⟩ := checkedParseBatch_cases view
  · rw [checked, plain, access_bind]
    simp only
    split
    · exact safe_pure _
    · exact safe_pure _
  · rw [checked, plain, access_bind]
    apply safe_withFilter spans.names named
    intro filter valid
    exact safe_handleItems spans few isAdd _ sized valid

theorem safe_removeN {set : FilterSet} {src length : Nat} {name : Bytes} (names : Names view src length name)
    (named : ∀ filter ∈ set.items, nameIsValid filter.name = true) :
    Safe (checkedRemoveN set view src length) (filterSetRemoveN set name) := by
  obtain ⟨rfl, valid, read⟩ := names
  have scanned : checkedScan view.byte src name.length set.items 0 =
      some (set.items.findIdx? fun filter => nameMatches filter.name name) := by
    rw [checkedScan_eq (length_of_valid valid) read set.items 0 named]
    simp only [Nat.add_zero, Option.map_id']
  unfold checkedRemoveN filterSetRemoveN
  rw [scanned, access_bind]
  cases set.items.findIdx? fun filter => nameMatches filter.name name with
  | none => exact safe_pure _
  | some index =>
    simp only
    cases set.items[index]? with
    | none => exact safe_pure _
    | some filter =>
      apply (safe_lift _).bind
      intro flushed
      exact safe_pure _

theorem safe_dropBody (named : daemon.Named) (view : RequestView) :
    Safe (checkedDropBody daemon view) (handleDropBody daemon view.body) := by
  unfold checkedDropBody handleDropBody
  obtain ⟨reply, checked, plain⟩ | ⟨src, length, name, checked, plain, names⟩ :=
    checkedParseNameRequest_cases "DROP" view
  · rw [checked, plain, access_bind]
    exact safe_pure _
  · have items := @FilterSet.findN_items daemon.set name
    rw [checked, plain, access_bind]
    simp only [handleDrop, names.valid, names.findN named, access_bind, Bool.not_true, Bool.false_eq_true, ↓reduceIte]
    generalize daemon.set.findN name = looked at items ⊢
    obtain ⟨found, set⟩ := looked
    simp only at items ⊢
    cases found with
    | none => exact safe_pure _
    | some index =>
      simp only
      cases set.items[index]? with
      | none => exact safe_pure _
      | some filter =>
        apply (safe_lift _).bind
        intro removed
        cases removed with
        | error reply => exact safe_pure _
        | ok done =>
          have stillNamed : ∀ filter ∈ set.items, nameIsValid filter.name = true := by
            rw [items]
            exact named
          apply (safe_removeN names stillNamed).bind
          intro taken
          exact safe_pure _

theorem checkedInfo_eq (named : daemon.Named) (view : RequestView) (response : Response) :
    checkedInfo daemon view response = some (handleInfo daemon view.body response) := by
  unfold checkedInfo handleInfo
  obtain ⟨reply, checked, plain⟩ | ⟨src, length, name, checked, plain, names⟩ :=
    checkedParseNameRequest_cases "INFO" view
  · rw [checked, plain]
    rfl
  · have items := @FilterSet.findN_items daemon.set name
    rw [checked, plain]
    simp only [names.findN named, Option.bind_eq_bind, Option.bind_some]
    generalize daemon.set.findN name = looked at items ⊢
    obtain ⟨found, set⟩ := looked
    simp only at items ⊢
    cases there : found.bind fun index => set.items[index]? with
    | none => rfl
    | some filter =>
      obtain ⟨index, -, place⟩ := Option.bind_eq_some_iff.mp there
      have member : filter ∈ daemon.set.items := items ▸ List.mem_of_getElem? place
      simp only [printedFilter_valid (named filter member), Option.bind_some]

theorem checkedAppendNames_eq (filters : List Filter) : ∀ (buf : Bytes),
    (∀ filter ∈ filters, nameIsValid filter.name = true) →
      checkedAppendNames filters buf = some (appendNames filters buf) := by
  induction filters with
  | nil => exact fun _ _ => rfl
  | cons filter rest ih =>
    intro buf named
    have later := fun next => ih next fun other member => named other (List.mem_cons_of_mem _ member)
    simp only [checkedAppendNames, appendNames, nameText_valid (named filter List.mem_cons_self), Option.bind_eq_bind,
      Option.bind_some, later]
    rcases bufferAppendU16 buf filter.name.length with ⟨_ | _, sized⟩
    · rfl
    · simp only
      rcases bufferAppend sized filter.name with ⟨_ | _, appended⟩
      · rfl
      · rfl

theorem checkedList_eq (named : daemon.Named) (response : Response) :
    checkedList daemon.set response = some (handleList daemon.set response) := by
  unfold checkedList handleList
  rcases bufferAppendU32 response.body daemon.set.items.length with ⟨_ | _, counted⟩
  · rfl
  · simp only [checkedAppendNames_eq _ _ named]
    rfl

theorem checkedWithoutBody_eq (operation : String) (daemon : Daemon) (view : RequestView) (response : Response)
    {checked : Response → Option (Except Errno Unit × Response)} {work : Response → Except Errno Unit × Response}
    (same : checked response = some (work response)) :
    checkedWithoutBody operation daemon view response checked =
      some (withoutBody operation daemon view.body response work) := by
  unfold checkedWithoutBody withoutBody
  rw [same, ← view.sized]
  split
  · rfl
  · rfl

theorem safe_sending {response : Response} {checked : Guarded (Reply × Daemon)} {work : Sys (Reply × Daemon)}
    (safe : Safe checked work) : Safe (checkedSending response checked) (sending response work) := by
  apply safe.bind
  intro served
  exact safe_pure _

theorem safe_access {α : Type} {checked : Option α} {value : α} (same : checked = some value) :
    Safe (access checked : Guarded α) (pure value) := by
  rw [same]
  exact safe_pure _

theorem safe_serve [Libm] (named : daemon.Named) (view : RequestView) (response : Response) {results : Bytes}
    (sized : results.length = maxBatchItems) :
    Safe (checkedServe daemon view response results) (serve daemon view response) := by
  have ping := @checkedWithoutBody_eq "PING" daemon view response
    (fun response => some (handlePing response)) handlePing rfl
  have stats := @checkedWithoutBody_eq "STATS" daemon view response
    (fun response => some (handleStats daemon response)) (handleStats daemon) rfl
  unfold checkedServe serve
  generalize view.header.opcode.toNat = opcode
  match opcode with
  | 0 => exact safe_sending (safe_pure _)
  | 1 => exact safe_access ping
  | 2 => exact safe_sending (safe_createBody named view)
  | 3 => exact safe_sending (safe_addCheckBody named view true)
  | 4 => exact safe_sending (safe_addCheckBody named view false)
  | 5 => exact safe_sending (safe_batchBody named view true sized)
  | 6 => exact safe_sending (safe_batchBody named view false sized)
  | 7 => exact safe_access (checkedInfo_eq named view response)
  | 8 => exact safe_access (checkedWithoutBody_eq "LIST" daemon view response (checkedList_eq named response))
  | 9 => exact safe_sending (safe_dropBody named view)
  | 10 => exact safe_access stats
  | unknown + 11 => exact safe_sending (safe_pure _)

end Handlers

/-- In every state that the server can come to, whatever the request and whatever the
result vector held before: no access to the request, to a stored name or to the vector is
out of range, no sum or difference of lengths wraps around, and the handlers do what they
do without the checks. -/
theorem checkedDispatch_eq_dispatch [Libm] {config : Config} {server : Server} (reached : Server.Reached config server)
    (stats : Stats) (view : RequestView) (response : Response) {results : Bytes}
    (sized : results.length = maxBatchItems) :
    (checkedDispatch { server.daemon with stats } view response results).run =
      some <$> dispatch { server.daemon with stats } view response := by
  obtain ⟨added, serving⟩ := reached.sound.place
  have named : ({ server.daemon with stats } : Daemon).Named := fun filter member =>
    (serving.tended.settled filter member).seated.placed.valid
  apply (safe_serve named view response sized).bind
  intro served
  exact safe_pure _

/-- A MADD whose name would reach beyond its body -/
def overlongView : RequestView :=
  ⟨⟨protocolMagic, protocolVersion, 5, 0, 0, 7, 8⟩, [200, 0, 1, 0, 0, 0, 0, 0], rfl⟩

theorem checkedDispatch_overlong : ∃ settled,
    (@checkedDispatch exactLibm emptyDaemon overlongView (.init 5 7)
      (List.replicate maxBatchItems 255)).run .empty [] =
      .returned (some settled) .empty [] ∧ settled.2.1.header.status = Status.badRequest.code := by
  have started : startup .plain demoRoots .empty plenty = .returned (.ok emptyDaemon) .empty (plenty.drop 2) := rfl
  have reached : @Server.Reached exactLibm demoRoots (.start emptyDaemon .empty) :=
    @Server.Reached.start exactLibm _ _ _ _ _ _ _ started
  have same := @checkedDispatch_eq_dispatch exactLibm demoRoots _ reached .zero overlongView (.init 5 7)
    (List.replicate maxBatchItems 255) List.length_replicate
  refine ⟨(@dispatch exactLibm emptyDaemon overlongView (.init 5 7) .empty []).value.getD
    (.ok (), .init 5 7, emptyDaemon), ?_, ?_⟩
  · exact (congrFun (congrFun same .empty) []).trans rfl
  · rfl

end Bloomd
