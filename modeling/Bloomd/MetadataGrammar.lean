import Bloomd.MetadataSemantics
import Bloomd.MetadataText
import Bloomd.System
import Mathlib.Data.Set.List

/-! The grammar of a metadata file, and how far the reader keeps to it. -/

namespace Bloomd

open Framing

/-- The lines of a file, each with its newline; the last one may lack it. -/
def fileLines : Bytes → List Bytes
  | [] => []
  | char :: rest =>
    if char = 10 then [char] :: fileLines rest
    else
      match fileLines rest with
      | [] => [[char]]
      | line :: more => (char :: line) :: more

/-- Every line fits into the reader's buffer. -/
def Short (content : Bytes) : Prop := ∀ line ∈ fileLines content, line.length ≤ 1023

/-- The lines without what ends them -/
def texts (content : Bytes) : List Bytes := (fileLines content).map trimNewline

/-- The lines that say something -/
def significant (content : Bytes) : List Bytes := (texts content).filter fun text => !skipped text

/-- `key=value` -/
def entryText (entry : MetaKey × Bytes) : Bytes := entry.1.text ++ 61 :: entry.2

section Spelling

variable [Strto]

/-- The entries give a key this value. -/
def Has (entries : List (MetaKey × Bytes)) (key : MetaKey) (parsed : key.Value) : Prop :=
  ∃ value, (key, value) ∈ entries ∧ key.parse value = some parsed

/-- The entries do not mention a key. -/
def Lacks (entries : List (MetaKey × Bytes)) (key : MetaKey) : Prop := ∀ value, (key, value) ∉ entries

/-- The entries are those of a record: no key twice, all keys but the two flags present,
every value of its kind, and the record in order. A missing flag is read pessimistically. -/
structure Spells (entries : List (MetaKey × Bytes)) (record : MetaRecord) : Prop where
  unique : (entries.map Prod.fst).Nodup
  version : Has entries .version record.version
  name : Has entries .name record.name
  backend : Has entries .backend record.backend
  digest : Has entries .digest record.digest
  capacity : Has entries .capacity record.capacity
  errorRate : Has entries .errorRate record.errorRate
  hashes : Has entries .hashes record.hashes
  valueSize : Has entries .valueSize record.valueSize
  pinPath : Has entries .pinPath record.pinPath
  hasData : Has entries .hasData record.hasData ∨ Lacks entries .hasData ∧ record.hasData = true
  logClean : Has entries .logClean record.logClean ∨ Lacks entries .logClean ∧ record.logClean = !record.hasData
  valid : record.isValid = true

/-- The content is a file of the grammar, and describes this record. -/
def Grammatical (content : Bytes) (record : MetaRecord) : Prop :=
  ∃ entries, significant content = entries.map entryText ∧ Spells entries record

/-- The content would be a file of the grammar, but for further version lines that read as
zero and stand before its version line. -/
def Shadowed (content : Bytes) : Prop :=
  ∃ entries stale last record, significant content = entries.map entryText ∧
    valuesAt .version entries = stale ++ [last] ∧ stale ≠ [] ∧ (∀ value ∈ stale, metaParseU32 value = some 0) ∧
    Spells ((.version, last) :: entries.filter fun entry => entry.1 ≠ .version) record

end Spelling

section Lines

/-- The first line of a file and the rest of it -/
theorem fileLines_split {content : Bytes} (nonempty : content ≠ []) : ∃ line rest, content = line ++ rest ∧
    fileLines content = line :: fileLines rest ∧ line ≠ [] ∧
    ((∃ body, line = body ++ [10] ∧ 10 ∉ body) ∨ (rest = [] ∧ 10 ∉ line)) := by
  induction content with
  | nil => exact absurd rfl nonempty
  | cons char rest ih =>
    by_cases newline : char = 10
    · subst newline
      refine ⟨[10], rest, rfl, ?_, by simp, .inl ⟨[], rfl, List.not_mem_nil⟩⟩
      rw [fileLines, if_pos rfl]
    · cases rest with
      | nil =>
        refine ⟨[char], [], rfl, ?_, by simp, .inr ⟨rfl, ?_⟩⟩
        · simp [fileLines, newline]
        · simpa using Ne.symm newline
      | cons next more =>
        obtain ⟨line, later, split, lines, _, ends⟩ := ih (by simp)
        refine ⟨char :: line, later, by rw [split, List.cons_append], ?_, by simp, ?_⟩
        · rw [fileLines, if_neg newline, lines]
        · rcases ends with ⟨body, rfl, plain⟩ | ⟨last, plain⟩
          · refine .inl ⟨char :: body, rfl, ?_⟩
            rw [List.mem_cons, not_or]
            exact ⟨Ne.symm newline, plain⟩
          · refine .inr ⟨last, ?_⟩
            rw [List.mem_cons, not_or]
            exact ⟨Ne.symm newline, plain⟩

/-- `fgets` takes one whole line if it fits. -/
theorem fgets_line {line rest : Bytes} (fits : line.length ≤ 1023)
    (ends : (∃ body, line = body ++ [10] ∧ 10 ∉ body) ∨ (rest = [] ∧ 10 ∉ line)) :
      fgets (line ++ rest) = (line, rest) := by
  rcases ends with ⟨body, rfl, plain⟩ | ⟨rfl, plain⟩
  · rw [List.length_append, List.length_singleton] at fits
    have room : (body ++ [10] ++ rest).take 1023 = body ++ 10 :: rest.take (1022 - body.length) := by
      rw [List.append_assoc, List.take_append, List.take_of_length_le (by omega)]
      congr 1
      rw [show 1023 - body.length = (1022 - body.length) + 1 by omega]
      rfl
    have index : (body ++ 10 :: rest.take (1022 - body.length)).idxOf 10 = body.length := by
      rw [List.idxOf_append_of_notMem plain]
      simp
    have reach : min (body.length + 1)
        (body ++ 10 :: rest.take (1022 - body.length)).length = (body ++ [10]).length := by
      simp only [List.length_append, List.length_cons, List.length_nil]
      omega
    simp only [fgets, room, index, reach, List.splitAt_eq, List.take_left, List.drop_left]
  · have room : (line ++ []).take 1023 = line := by
      rw [List.append_nil]
      exact List.take_of_length_le fits
    simp only [fgets, room, List.idxOf_eq_length_iff.mpr plain, List.splitAt_eq]
    rw [Nat.min_eq_right (Nat.le_succ _), List.append_nil, List.take_length, List.drop_length]

variable [Strto]

/-- The lines one after the other -/
def readTexts (fields : MetaFields) : List Bytes → Option MetaFields
  | [] => some fields
  | text :: rest => do
    let later ← readLine fields text
    readTexts later rest

theorem readLines_eq (fuel : Nat) : ∀ {content : Bytes} (fields : MetaFields), content.length ≤ fuel → 0 ∉ content →
    Short content → readLines fuel content fields = readTexts fields (texts content) := by
  induction fuel with
  | zero =>
    intro content fields bound _ _
    obtain rfl := List.length_eq_zero_iff.mp (Nat.le_zero.mp bound)
    rfl
  | succ fuel ih =>
    intro content fields bound plain short
    by_cases empty : content = []
    · subst empty
      rfl
    · obtain ⟨line, rest, rfl, lines, nonempty, ends⟩ := fileLines_split empty
      have positive := List.length_pos_of_ne_nil nonempty
      rw [List.length_append] at bound
      rw [List.mem_append, not_or] at plain
      have fits : line.length ≤ 1023 := short line (lines ▸ List.mem_cons_self)
      have shorter : Short rest := fun other member => short other (lines ▸ List.mem_cons_of_mem _ member)
      have text : lineText line = trimNewline line := by
        unfold lineText
        congr 1
        apply List.takeWhile_eq_self_iff.mpr
        intro char member
        apply decide_eq_true
        rintro rfl
        exact plain.1 member
      rw [readLines, if_neg empty, fgets_line fits ends, texts, lines, List.map_cons, readTexts]
      simp only [text]
      cases readLine fields (trimNewline line) with
      | none => rfl
      | some later => exact ih later (by omega) plain.2 shorter

end Lines

section Entries

theorem splitLine_eq_some {text key value : Bytes} :
    splitLine text = some (key, value) ↔ text = key ++ 61 :: value ∧ 61 ∉ key := by
  unfold splitLine
  constructor
  · intro cut
    split at cut
    · rename_i there
      obtain ⟨rfl, rfl⟩ := Prod.mk.inj (Option.some.inj cut)
      have found : text.dropWhile (· ≠ 61) ≠ [] := by
        intro gone
        have plain := List.dropWhile_eq_nil_iff.mp gone 61 there
        simp at plain
      constructor
      · have first := List.head_dropWhile_not (fun char : UInt8 => decide (char ≠ 61)) found
        have same : text.dropWhile (· ≠ 61) = 61 :: (text.dropWhile (· ≠ 61)).drop 1 := by
          cases dropped : text.dropWhile (· ≠ 61) with
          | nil => exact absurd dropped found
          | cons char rest =>
            simp only [dropped, List.head_cons, decide_eq_false_iff_not, not_not] at first
            rw [first]
            rfl
        rw [← same]
        exact List.takeWhile_append_dropWhile.symm
      · intro member
        have plain := List.mem_takeWhile_imp member
        simp at plain
    · cases cut
  · rintro ⟨rfl, plain⟩
    have before : ∀ char ∈ key, decide (char ≠ 61) = true := by
      intro char member
      apply decide_eq_true
      rintro rfl
      exact plain member
    rw [if_pos (by simp), List.takeWhile_append_of_pos before, List.dropWhile_append_of_pos before]
    simp

theorem MetaKey.text_injective : ∀ {key other : MetaKey}, key.text = other.text → key = other := by
  intro key other
  cases key <;> cases other <;> decide

theorem MetaKey.plain_text (key : MetaKey) : 61 ∉ key.text := by
  cases key <;> decide

theorem MetaKey.ofText_eq_some {text : Bytes} {key : MetaKey} : ofText text = some key ↔ text = key.text := by
  constructor
  · intro found
    simpa using List.find?_some found
  · rintro rfl
    cases key <;> decide

theorem entryText_injective : Function.Injective entryText := by
  rintro ⟨key, value⟩ ⟨other, another⟩ same
  have first : splitLine (entryText (key, value)) = some (key.text, value) :=
    splitLine_eq_some.mpr ⟨rfl, key.plain_text⟩
  have second : splitLine (entryText (other, another)) = some (other.text, another) :=
    splitLine_eq_some.mpr ⟨rfl, other.plain_text⟩
  rw [same, second] at first
  obtain ⟨texts, rfl⟩ := Prod.mk.inj (Option.some.inj first)
  rw [MetaKey.text_injective texts]

variable [Strto]

/-- What the loop does with a line that says something -/
theorem readLine_eq_some {fields later : MetaFields} {text : Bytes} (live : skipped text = false) :
    readLine fields text = some later ↔ ∃ key value field, text = entryText (key, value) ∧
      MetaKey.feed key (fields key) value = some field ∧ later = Function.update fields key field := by
  unfold readLine
  rw [live]
  simp only [Bool.false_eq_true, ↓reduceIte]
  constructor
  · intro read
    cases cut : splitLine text with
    | none => simp [cut] at read
    | some parts =>
      obtain ⟨name, value⟩ := parts
      simp only [cut] at read
      cases known : MetaKey.ofText name with
      | none => simp [known] at read
      | some key =>
        simp only [known] at read
        obtain ⟨field, fed, rfl⟩ := Option.map_eq_some_iff.mp read
        obtain ⟨rfl, _⟩ := splitLine_eq_some.mp cut
        obtain rfl := MetaKey.ofText_eq_some.mp known
        exact ⟨key, value, field, rfl, fed, rfl⟩
  · rintro ⟨key, value, field, rfl, fed, rfl⟩
    have cut : splitLine (entryText (key, value)) = some (key.text, value) :=
      splitLine_eq_some.mpr ⟨rfl, key.plain_text⟩
    have known : MetaKey.ofText key.text = some key := MetaKey.ofText_eq_some.mpr rfl
    simp only [cut, known, fed]
    rfl

/-- The loop accepts exactly the rows of entries that the fields accept. -/
theorem readTexts_eq_some (lines : List Bytes) : ∀ {fields later : MetaFields},
    readTexts fields lines = some later ↔ ∃ entries, (lines.filter fun text => !skipped text) = entries.map entryText ∧
      feedEntries MetaKey.feed fields entries = some later := by
  induction lines with
  | nil =>
    intro fields later
    simp only [readTexts, List.filter_nil]
    constructor
    · intro same
      exact ⟨[], rfl, same⟩
    · rintro ⟨entries, none, fed⟩
      obtain rfl := List.map_eq_nil_iff.mp none.symm
      exact fed
  | cons text rest ih =>
    intro fields later
    rw [readTexts]
    by_cases skip : skipped text = true
    · have passed : readLine fields text = some fields := by
        unfold readLine
        rw [if_pos skip]
      rw [passed, Option.bind_eq_bind, Option.bind_some, ih, List.filter_cons_of_neg (by simp [skip])]
    · rw [List.filter_cons_of_pos (by simp [skip])]
      constructor
      · intro read
        obtain ⟨middle, first, others⟩ := Option.bind_eq_some_iff.mp read
        obtain ⟨key, value, field, rfl, fed, rfl⟩ := (readLine_eq_some (Bool.eq_false_iff.mpr skip)).mp first
        obtain ⟨entries, same, fedRest⟩ := ih.mp others
        refine ⟨(key, value) :: entries, by rw [same, List.map_cons], ?_⟩
        rw [feedEntries, fed]
        exact fedRest
      · rintro ⟨entries, same, fed⟩
        cases entries with
        | nil => exact absurd same (by simp)
        | cons entry entries =>
          obtain ⟨key, value⟩ := entry
          rw [List.map_cons] at same
          obtain ⟨rfl, restSame⟩ := List.cons.inj same
          rw [feedEntries] at fed
          obtain ⟨field, fedHere, fedRest⟩ := Option.bind_eq_some_iff.mp fed
          apply Option.bind_eq_some_iff.mpr
          refine ⟨Function.update fields key field, ?_, ih.mpr ⟨entries, restSame, fedRest⟩⟩
          exact (readLine_eq_some (Bool.eq_false_iff.mpr skip)).mpr ⟨key, value, field, rfl, fedHere, rfl⟩

/-- A field other than the version takes one value at most. -/
theorem feedValues_once {key : MetaKey} (other : key ≠ .version) {values : List Bytes} {field : Option key.Value} :
    feedValues MetaKey.feed key none values = some field ↔ (values = [] ∧ field = none) ∨
      ∃ value parsed, values = [value] ∧ key.parse value = some parsed ∧ field = some parsed := by
  have unseen : MetaKey.seen key none = false := by cases key <;> rfl
  have taken : ∀ parsed, MetaKey.seen key (some parsed) = true := by
    intro parsed
    cases key <;> first | rfl | contradiction
  cases values with
  | nil => simp [feedValues, eq_comm]
  | cons value rest =>
    rw [feedValues, MetaKey.feed, unseen]
    cases parses : key.parse value with
    | none => simp [parses]
    | some parsed =>
      cases rest with
      | nil => simp [feedValues, parses, eq_comm]
      | cons again rest => simp [feedValues, MetaKey.feed, taken]

/-- The version takes any number of values that read as zero before its last one. -/
theorem feedValues_version (values : List Bytes) : ∀ {before field : Option Nat}, before.getD 0 = 0 →
    (feedValues MetaKey.feed .version before values = some field ↔ (values = [] ∧ field = before) ∨
      ∃ stale last parsed, values = stale ++ [last] ∧ (∀ value ∈ stale, metaParseU32 value = some 0) ∧
        metaParseU32 last = some parsed ∧ field = some parsed) := by
  induction values with
  | nil =>
    intro before field _
    constructor
    · intro fed
      exact .inl ⟨rfl, (Option.some.inj fed).symm⟩
    · rintro (⟨-, rfl⟩ | ⟨stale, last, parsed, split, -, -, -⟩)
      · rfl
      · exact absurd split (by simp)
  | cons value rest ih =>
    intro before field zero
    have unseen : MetaKey.seen .version before = false := by simpa [MetaKey.seen] using zero
    have step : MetaKey.feed .version before value = (metaParseU32 value).map some := by
      rw [MetaKey.feed, unseen]
      rfl
    rw [feedValues, step]
    cases parses : metaParseU32 value with
    | none =>
      constructor
      · intro fed
        cases fed
      · rintro (⟨impossible, -⟩ | ⟨stale, last, parsed, split, zeros, ends, -⟩)
        · cases impossible
        · cases stale with
          | nil =>
            obtain ⟨rfl, -⟩ := List.cons.inj split
            rw [parses] at ends
            cases ends
          | cons first stale =>
            obtain ⟨rfl, -⟩ := List.cons.inj split
            have read := zeros value List.mem_cons_self
            rw [parses] at read
            cases read
    | some parsed =>
      rw [Option.map_some, Option.bind_eq_bind, Option.bind_some]
      by_cases again : parsed = 0
      · subst again
        rw [@ih (some 0) field rfl]
        constructor
        · rintro (⟨rfl, rfl⟩ | ⟨stale, last, other, rfl, zeros, ends, rfl⟩)
          · exact .inr ⟨[], value, 0, rfl, List.forall_mem_nil _, parses, rfl⟩
          · refine .inr ⟨value :: stale, last, other, rfl, ?_, ends, rfl⟩
            rintro earlier (_ | ⟨_, member⟩)
            · exact parses
            · exact zeros earlier member
        · rintro (⟨impossible, -⟩ | ⟨stale, last, other, split, zeros, ends, rfl⟩)
          · cases impossible
          · cases stale with
            | nil =>
              obtain ⟨rfl, rfl⟩ := List.cons.inj split
              rw [parses] at ends
              obtain rfl := Option.some.inj ends
              exact .inl ⟨rfl, rfl⟩
            | cons first stale =>
              obtain ⟨rfl, rfl⟩ := List.cons.inj split
              exact .inr ⟨stale, last, other, rfl, fun earlier member =>
                zeros earlier (List.mem_cons_of_mem _ member), ends, rfl⟩
      · have taken : MetaKey.seen .version (some parsed) = true := by simpa [MetaKey.seen] using again
        constructor
        · intro fed
          cases rest with
          | nil => exact .inr ⟨[], value, parsed, rfl, List.forall_mem_nil _, parses, (Option.some.inj fed).symm⟩
          | cons next more =>
            rw [feedValues, MetaKey.feed, taken] at fed
            cases fed
        · rintro (⟨impossible, -⟩ | ⟨stale, last, other, split, zeros, ends, rfl⟩)
          · cases impossible
          · cases stale with
            | nil =>
              obtain ⟨rfl, rfl⟩ := List.cons.inj split
              rw [parses] at ends
              rw [ends]
              rfl
            | cons first stale =>
              obtain ⟨rfl, -⟩ := List.cons.inj split
              have read := zeros value List.mem_cons_self
              rw [parses] at read
              exact absurd (Option.some.inj read) again

/-- What the fields say about each part of the record -/
structure MetaFields.Tells (fields : MetaFields) (record : MetaRecord) : Prop where
  version : Option.getD (fields .version) (0 : Nat) = record.version
  name : fields .name = some record.name
  backend : fields .backend = some record.backend
  digest : fields .digest = some record.digest
  capacity : fields .capacity = some record.capacity
  errorRate : fields .errorRate = some record.errorRate
  hashes : fields .hashes = some record.hashes
  valueSize : fields .valueSize = some record.valueSize
  pinPath : fields .pinPath = some record.pinPath
  hasData : Option.getD (fields .hasData) true = record.hasData
  logClean : Option.getD (fields .logClean) (!record.hasData) = record.logClean

omit [Strto] in
theorem MetaFields.record_eq_some {fields : MetaFields} {record : MetaRecord} :
    fields.record = some record ↔ fields.Tells record := by
  unfold MetaFields.record
  constructor
  · intro made
    split at made
    · rename_i name backend digest capacity errorRate hashes valueSize pinPath
      obtain rfl := Option.some.inj made
      exact ⟨rfl, name, backend, digest, capacity, errorRate, hashes, valueSize, pinPath, rfl, rfl⟩
    · cases made
  · intro tells
    obtain ⟨version, name, backend, digest, capacity, errorRate, hashes, valueSize, pinPath, hasData, logClean⟩ :=
      tells
    obtain ⟨_, _, _, _, _, _, _, _, _, _, _⟩ := record
    simp only at version hasData logClean
    subst version hasData logClean
    simp only [name, backend, digest, capacity, errorRate, hashes, valueSize, pinPath]

/-- The reader accepts a file exactly when every field accepts its values. -/
theorem metaReadText_eq_some {content : Bytes} {record : MetaRecord} (plain : 0 ∉ content) (short : Short content) :
    metaReadText content = some record ↔ record.isValid = true ∧ ∃ entries fields,
      significant content = entries.map entryText ∧ MetaFields.Tells fields record ∧
      ∀ key, feedValues MetaKey.feed key none (valuesAt key entries) = some (fields key) := by
  have reads : readLines content.length content .none = readTexts .none (texts content) :=
    readLines_eq content.length .none (le_refl _) plain short
  unfold metaReadText
  rw [reads]
  constructor
  · intro read
    obtain ⟨fields, fed, rest⟩ := Option.bind_eq_some_iff.mp read
    obtain ⟨made, tells, checked⟩ := Option.bind_eq_some_iff.mp rest
    split at checked
    · rename_i valid
      obtain rfl := Option.some.inj checked
      obtain ⟨entries, lines, fed⟩ := (readTexts_eq_some _).mp fed
      exact ⟨valid, entries, fields, lines, MetaFields.record_eq_some.mp tells, (feedEntries_eq_some _ _).mp fed⟩
    · cases checked
  · rintro ⟨valid, entries, fields, lines, tells, each⟩
    have fed : readTexts .none (texts content) = some fields :=
      (readTexts_eq_some _).mpr ⟨entries, lines, (feedEntries_eq_some _ _).mpr each⟩
    have made : MetaFields.record fields = some record := MetaFields.record_eq_some.mpr tells
    simp only [fed, made, Option.bind_eq_bind, Option.bind_some, valid, ↓reduceIte]

end Entries

section Exactness

variable [Strto] {entries others : List (MetaKey × Bytes)} {record : MetaRecord} {content : Bytes} {last : Bytes}

omit [Strto] in
theorem Lacks.values {key : MetaKey} (lacks : Lacks entries key) : valuesAt key entries = [] := valuesAt_eq_nil lacks

theorem Has.values {key : MetaKey} {parsed : key.Value} (unique : (entries.map Prod.fst).Nodup)
    (has : Has entries key parsed) : ∃ value, valuesAt key entries = [value] ∧ key.parse value = some parsed := by
  obtain ⟨value, member, parses⟩ := has
  exact ⟨value, valuesAt_of_nodup unique member, parses⟩

/-- The order of the entries does not matter. -/
theorem Spells.congr (spells : Spells entries record) (unique : (others.map Prod.fst).Nodup)
    (same : ∀ entry, entry ∈ others ↔ entry ∈ entries) : Spells others record := by
  have has : ∀ {key : MetaKey} {parsed : key.Value}, Has entries key parsed → Has others key parsed := by
    rintro key parsed ⟨value, member, parses⟩
    exact ⟨value, (same _).mpr member, parses⟩
  have lacks : ∀ {key : MetaKey}, Lacks entries key → Lacks others key :=
    fun missing value member => missing value ((same _).mp member)
  exact ⟨unique, has spells.version, has spells.name, has spells.backend, has spells.digest, has spells.capacity,
    has spells.errorRate, has spells.hashes, has spells.valueSize, has spells.pinPath,
    spells.hasData.imp has (And.imp_left lacks), spells.logClean.imp has (And.imp_left lacks), spells.valid⟩

/-- A key of a record is given or missing. -/
theorem Spells.covers (spells : Spells entries record) (key : MetaKey) :
    (∃ parsed, Has entries key parsed) ∨ Lacks entries key := by
  cases key with
  | version => exact .inl ⟨_, spells.version⟩
  | name => exact .inl ⟨_, spells.name⟩
  | backend => exact .inl ⟨_, spells.backend⟩
  | digest => exact .inl ⟨_, spells.digest⟩
  | capacity => exact .inl ⟨_, spells.capacity⟩
  | errorRate => exact .inl ⟨_, spells.errorRate⟩
  | hashes => exact .inl ⟨_, spells.hashes⟩
  | valueSize => exact .inl ⟨_, spells.valueSize⟩
  | pinPath => exact .inl ⟨_, spells.pinPath⟩
  | hasData => exact spells.hasData.imp (fun has => ⟨_, has⟩) And.left
  | logClean => exact spells.logClean.imp (fun has => ⟨_, has⟩) And.left

/-- The entries with one version line only -/
def kept (last : Bytes) (entries : List (MetaKey × Bytes)) : List (MetaKey × Bytes) :=
  (.version, last) :: entries.filter fun entry => entry.1 ≠ .version

omit [Strto] in
theorem valuesAt_kept {key : MetaKey} (other : key ≠ .version) :
    valuesAt key (kept last entries) = valuesAt key entries := by
  rw [kept, valuesAt_cons_other (Ne.symm other), valuesAt, valuesAt, List.filter_filter]
  congr 1
  apply List.filter_congr
  intro entry _
  by_cases same : entry.1 = key
  · simp [same, other]
  · simp [same]

omit [Strto] in
theorem valuesAt_kept_version : valuesAt .version (kept last entries) = [last] := by
  have gone : valuesAt MetaKey.version (entries.filter fun entry => entry.1 ≠ .version) = [] := by
    apply valuesAt_eq_nil
    intro value member
    simp at member
  rw [kept, valuesAt_cons_self, gone]

omit [Strto] in
theorem nodup_kept (few : ∀ key, key ≠ .version → (valuesAt key entries).length ≤ 1) :
    ((kept last entries).map Prod.fst).Nodup := by
  apply nodup_of_valuesAt
  intro key
  by_cases version : key = .version
  · rw [version, valuesAt_kept_version]
    exact le_refl 1
  · rw [valuesAt_kept version]
    exact few key version

omit [Strto] in
theorem mem_kept_iff (one : valuesAt .version entries = [last]) (entry : MetaKey × Bytes) :
    entry ∈ kept last entries ↔ entry ∈ entries := by
  obtain ⟨key, value⟩ := entry
  rw [← mem_valuesAt, ← mem_valuesAt]
  by_cases version : key = .version
  · rw [version, valuesAt_kept_version, one]
  · rw [valuesAt_kept version]

/-- The reader accepts the entries of a record, with stale version lines before the last. -/
theorem metaReadText_of_spells (plain : 0 ∉ content) (short : Short content)
    (lines : significant content = entries.map entryText) {stale : List Bytes}
    (versions : valuesAt .version entries = stale ++ [last]) (zeros : ∀ value ∈ stale, metaParseU32 value = some 0)
    (spells : Spells (kept last entries) record) : metaReadText content = some record := by
  let fields : MetaFields := fun key => (valuesAt key (kept last entries)).head?.bind key.parse
  have taken : ∀ {key : MetaKey} {parsed : key.Value}, Has (kept last entries) key parsed →
      fields key = some parsed := by
    intro key parsed has
    obtain ⟨value, only, parses⟩ := has.values spells.unique
    simp only [fields, only, List.head?_cons, Option.bind_some, parses]
  have missing : ∀ {key : MetaKey}, Lacks (kept last entries) key → fields key = none := by
    intro key lacks
    simp only [fields, lacks.values, List.head?_nil, Option.bind_none]
  apply (metaReadText_eq_some plain short).mpr
  refine ⟨spells.valid, entries, fields, lines, ⟨?_, taken spells.name, taken spells.backend, taken spells.digest,
    taken spells.capacity, taken spells.errorRate, taken spells.hashes, taken spells.valueSize,
      taken spells.pinPath, ?_, ?_⟩,
    ?_⟩
  · rw [taken spells.version]
    rfl
  · rcases spells.hasData with has | ⟨lacks, default⟩
    · rw [taken has]
      rfl
    · rw [missing lacks, default]
      rfl
  · rcases spells.logClean with has | ⟨lacks, default⟩
    · rw [taken has]
      rfl
    · rw [missing lacks, default]
      rfl
  · intro key
    by_cases version : key = .version
    · subst version
      obtain ⟨value, only, parses⟩ := spells.version.values spells.unique
      rw [valuesAt_kept_version] at only
      obtain ⟨rfl, -⟩ := List.cons.inj only
      rw [taken spells.version]
      apply (feedValues_version _ rfl).mpr
      exact .inr ⟨stale, last, record.version, versions, zeros, parses, rfl⟩
    · rw [← @valuesAt_kept entries last key version]
      apply (feedValues_once version).mpr
      rcases spells.covers key with ⟨parsed, has⟩ | lacks
      · obtain ⟨value, only, parses⟩ := has.values spells.unique
        exact .inr ⟨value, parsed, only, parses, taken has⟩
      · exact .inl ⟨lacks.values, missing lacks⟩

/-- What the reader accepts are the entries of a record, with stale version lines before
the last. -/
theorem spells_of_metaReadText (plain : 0 ∉ content) (short : Short content)
    (read : metaReadText content = some record) :
    ∃ entries stale last, significant content = entries.map entryText ∧ valuesAt .version entries = stale ++ [last] ∧
      (∀ value ∈ stale, metaParseU32 value = some 0) ∧ Spells (kept last entries) record ∧
      ∀ key, key ≠ .version → (valuesAt key entries).length ≤ 1 := by
  obtain ⟨valid, entries, fields, lines, tells, each⟩ := (metaReadText_eq_some plain short).mp read
  have few : ∀ key, key ≠ .version → (valuesAt key entries).length ≤ 1 := by
    intro key other
    rcases (feedValues_once other).mp (each key) with ⟨none, -⟩ | ⟨value, parsed, one, -⟩
    · rw [none]
      exact Nat.zero_le 1
    · rw [one]
      exact le_refl 1
  have current : record.version = 1 := by
    simp only [MetaRecord.isValid, Bool.and_eq_true, beq_iff_eq] at valid
    exact valid.1.1.1.1.1.1.1.1
  obtain ⟨stale, last, versions, zeros, parses⟩ : ∃ stale last, valuesAt .version entries = stale ++ [last] ∧
      (∀ value ∈ stale, metaParseU32 value = some 0) ∧ metaParseU32 last = some record.version := by
    have told := tells.version
    rcases (feedValues_version _ rfl).mp (each .version) with ⟨-, unset⟩ |
      ⟨stale, last, parsed, versions, zeros, ends, set⟩
    · rw [unset, current] at told
      cases told
    · rw [set] at told
      exact ⟨stale, last, versions, zeros, told ▸ ends⟩
  have has : ∀ {key : MetaKey} {parsed : key.Value}, key ≠ .version → fields key = some parsed →
      Has (kept last entries) key parsed := by
    intro key parsed other told
    rcases (feedValues_once other).mp (each key) with ⟨-, unset⟩ | ⟨value, found, one, ends, set⟩
    · rw [unset] at told
      cases told
    · rw [set] at told
      refine ⟨value, ?_, Option.some.inj told ▸ ends⟩
      rw [← mem_valuesAt, valuesAt_kept other, one]
      exact List.mem_cons_self
  have lacks : ∀ {key : MetaKey}, key ≠ .version → fields key = none → Lacks (kept last entries) key := by
    intro key other told value member
    rw [← mem_valuesAt, valuesAt_kept other] at member
    rcases (feedValues_once other).mp (each key) with ⟨none, -⟩ | ⟨_, _, _, _, set⟩
    · rw [none] at member
      cases member
    · rw [set] at told
      cases told
  refine ⟨entries, stale, last, lines, versions, zeros, ⟨nodup_kept few, ⟨last, List.mem_cons_self, parses⟩,
    has nofun tells.name, has nofun tells.backend, has nofun tells.digest, has nofun tells.capacity,
    has nofun tells.errorRate, has nofun tells.hashes, has nofun tells.valueSize, has nofun tells.pinPath, ?_, ?_,
      valid⟩, few⟩
  · have told := tells.hasData
    cases flag : fields .hasData with
    | none =>
      rw [flag] at told
      exact .inr ⟨lacks nofun flag, told.symm⟩
    | some parsed =>
      rw [flag] at told
      exact .inl (has nofun (flag.trans (congrArg some told)))
  · have told := tells.logClean
    cases flag : fields .logClean with
    | none =>
      rw [flag] at told
      exact .inr ⟨lacks nofun flag, told.symm⟩
    | some parsed =>
      rw [flag] at told
      exact .inl (has nofun (flag.trans (congrArg some told)))

theorem Spells.few (spells : Spells entries record) (key : MetaKey) : (valuesAt key entries).length ≤ 1 := by
  rcases spells.covers key with ⟨parsed, has⟩ | lacks
  · obtain ⟨value, one, -⟩ := has.values spells.unique
    rw [one]
    exact le_refl 1
  · rw [lacks.values]
    exact Nat.zero_le 1

theorem metaReadText_of_grammatical (plain : 0 ∉ content) (short : Short content)
    (described : Grammatical content record) : metaReadText content = some record := by
  obtain ⟨entries, lines, spells⟩ := described
  obtain ⟨last, one, -⟩ := spells.version.values spells.unique
  have alone : valuesAt .version entries = [] ++ [last] := one
  apply metaReadText_of_spells plain short lines alone nofun
  exact spells.congr (nodup_kept fun key _ => spells.few key) (mem_kept_iff one)

theorem grammatical_or_shadowed (plain : 0 ∉ content) (short : Short content)
    (read : metaReadText content = some record) : Grammatical content record ∨ Shadowed content := by
  obtain ⟨entries, stale, last, lines, versions, zeros, spells, few⟩ := spells_of_metaReadText plain short read
  by_cases none : stale = []
  · subst none
    left
    have unique : (entries.map Prod.fst).Nodup := by
      apply nodup_of_valuesAt
      intro key
      by_cases version : key = .version
      · rw [version, versions]
        exact le_refl 1
      · exact few key version
    exact ⟨entries, lines, spells.congr unique fun entry => (mem_kept_iff versions entry).symm⟩
  · exact .inr ⟨entries, stale, last, record, lines, versions, none, zeros, spells⟩

/-- A shadowed file is read, but it is not a file of the grammar. -/
theorem Shadowed.read (plain : 0 ∉ content) (short : Short content) (shadowed : Shadowed content) :
    ∃ record, metaReadText content = some record ∧ ∀ other, ¬ Grammatical content other := by
  obtain ⟨entries, stale, last, record, lines, versions, some, zeros, spells⟩ := shadowed
  refine ⟨record, metaReadText_of_spells plain short lines versions zeros spells, ?_⟩
  rintro other ⟨others, same, spelt⟩
  have equal : others = entries := (List.map_injective_iff.mpr entryText_injective) (same.symm.trans lines)
  have few := spelt.few .version
  have positive := List.length_pos_of_ne_nil some
  rw [equal, versions, List.length_append, List.length_singleton] at few
  omega

omit [Strto] in
theorem significant_perm {permuted : Bytes} (same : (texts permuted).Perm (texts content)) :
    (significant permuted).Perm (significant content) := same.filter _

/-- The order of the lines does not matter for a file of the grammar. -/
theorem Grammatical.permuted {permuted : Bytes} (described : Grammatical content record)
    (same : (texts permuted).Perm (texts content)) : Grammatical permuted record := by
  obtain ⟨entries, lines, spells⟩ := described
  have moved := significant_perm same
  rw [lines] at moved
  have spelt : significant permuted ∈ Set.range (List.map entryText) := by
    rw [Set.range_list_map]
    intro line member
    obtain ⟨entry, -, text⟩ := List.mem_map.mp (moved.subset member)
    exact ⟨entry, text⟩
  obtain ⟨others, text⟩ := spelt
  rw [← text] at moved
  have reordered : others.Perm entries := (List.map_perm_map_iff entryText_injective).mp moved
  refine ⟨others, text.symm, spells.congr ?_ fun entry => reordered.mem_iff⟩
  exact (reordered.map Prod.fst).nodup_iff.mpr spells.unique

/-- The reader accepts exactly the files of the grammar, reads from each the record it
describes, and does so for every order of the lines. -/
def ReadExactly (content : Bytes) : Prop :=
  (∀ record, metaReadText content = some record ↔ Grammatical content record) ∧
  ∀ permuted record, 0 ∉ permuted → Short permuted → (texts permuted).Perm (texts content) →
    metaReadText content = some record → metaReadText permuted = some record

/-- The reader keeps to the grammar on every file, except on those in which further version
lines that read as zero stand before the version line. -/
theorem readExactly_iff_not_shadowed (plain : 0 ∉ content) (short : Short content) :
    ReadExactly content ↔ ¬ Shadowed content := by
  constructor
  · intro exact shadowed
    obtain ⟨record, read, ungrammatical⟩ := shadowed.read plain short
    exact ungrammatical record ((exact.1 record).mp read)
  · intro clear
    have described : ∀ record, metaReadText content = some record ↔ Grammatical content record := by
      intro record
      constructor
      · intro read
        exact (grammatical_or_shadowed plain short read).resolve_right clear
      · exact metaReadText_of_grammatical plain short
    refine ⟨described, ?_⟩
    intro permuted record plainer shorter same read
    exact metaReadText_of_grammatical plainer shorter (((described record).mp read).permuted same)

end Exactness

/-- A small record -/
def demoRecord : MetaRecord :=
  ⟨demoName, backendName, digestName, bytes "/p/x", 100, 0x3f847ae147ae147b, 3, digestSize, metadataVersion,
    false, true⟩

/-- The small record with a second version line, which reads as zero, before its own -/
def doubledVersion : Bytes := metaLine "version" (natText 0) ++ metaBody demoRecord

/-- The same lines with the first two exchanged -/
def swappedVersion : Bytes :=
  metaLine "version" (natText 1) ++ metaLine "version" (natText 0) ++ (metaBody demoRecord).drop 10

theorem readExactly_doubledVersion_fails : 0 ∉ doubledVersion ∧ Short doubledVersion ∧
    ¬ @ReadExactly exactStrto doubledVersion := by
  have plain : 0 ∉ doubledVersion ∧ 0 ∉ swappedVersion := by decide +kernel
  have short : (∀ line ∈ fileLines doubledVersion, line.length ≤ 1023) ∧
      ∀ line ∈ fileLines swappedVersion, line.length ≤ 1023 := by decide +kernel
  have same : (texts swappedVersion).Perm (texts doubledVersion) := by decide +kernel
  have read : @metaReadText exactStrto doubledVersion = some demoRecord := by decide +kernel
  have refused : @metaReadText exactStrto swappedVersion = none := by decide +kernel
  refine ⟨plain.1, short.1, fun exactly => ?_⟩
  have moved := exactly.2 swappedVersion demoRecord plain.2 short.2 same read
  rw [refused] at moved
  cases moved

theorem readExactly_iff_not_shadowed_demo : @ReadExactly exactStrto (metaBody demoRecord) ↔
    ¬ @Shadowed exactStrto (metaBody demoRecord) := by
  apply @readExactly_iff_not_shadowed exactStrto
  · decide +kernel
  · unfold Short
    decide +kernel

end Bloomd
