import Bloomd.ControlSemantics
import Bloomd.LoadView
import Bloomd.MetadataRoundTrip
import Bloomd.RequestCompletion

/-! The numbers of a `bloomctl create` on their way from the command line into the stored
metadata. The client narrows HASHES to 32 bits before the daemon checks its range. -/

namespace Bloomd

open CrashLogic Prog

/-- A decimal numeral -/
structure Numeral (text : Bytes) : Prop where
  nonempty : text ≠ []
  digits : ∀ char ∈ text, 48 ≤ char ∧ char ≤ 57

section Client

variable [Strto]

/-- `bloomctl_command_create` on its arguments, with the cast of HASHES -/
def commandCreateArgs (name capacity errorRate : Bytes) (hashes : Option Bytes) : Except Errno Bytes :=
  commandCreate {
    name
    capacity := (Strto.strtoull capacity).1.toNat
    errorRate := (Strto.strtod errorRate).1
    hashes := match hashes with
      | some text => (Strto.strtoul text).1.toNat % 2 ^ 32
      | none => 0 }

/-- The integer conversions read a numeral, and the largest number stands for one that is
too large. -/
structure Strto.Saturates : Prop where
  unsigned : ∀ text, Numeral text → (Strto.strtoul text).1.toNat = min (digitsValue text) (2 ^ 64 - 1)
  unsignedLong : ∀ text, Numeral text → (Strto.strtoull text).1.toNat = min (digitsValue text) (2 ^ 64 - 1)

end Client

/-- The stored metadata has the parameters that were typed. -/
structure StoredAs (config : Config) (name : Bytes) (capacity hashes : Nat) (daemon : Daemon)
    (world : World) : Prop where
  file : ∃ record : MetaRecord, world.fileAt (config.metaPathOf name) = some (some record) ∧
    record.capacity = capacity ∧ (1 ≤ hashes → record.hashes = hashes)
  filter : ∃ filter ∈ daemon.set.items, filter.name = name ∧ filter.metadata.capacity = capacity ∧
    (1 ≤ hashes → filter.metadata.hashes = hashes)

/-- The body makes every daemon create a filter with these parameters or none, and none
when they are out of range. -/
structure CreatesAsTyped [Libm] (name body : Bytes) (capacity hashes : Nat) : Prop where
  stored : ∀ (daemon : Daemon) (world : World) (answers : List Answer) reply later after rest,
    handleCreateBody daemon body world answers = .returned (reply, later) after rest → reply.status = .ok →
      StoredAs daemon.config name capacity hashes later after
  refused : (capacity < 1 ∨ 2 ^ 32 ≤ capacity ∨ 15 < hashes) → ∀ (daemon : Daemon) (world : World)
    (answers : List Answer),
    ∃ reply, handleCreateBody daemon body world answers = .returned (reply, daemon) world answers ∧ reply.status ≠ .ok

section Handler

variable {daemon : Daemon} {fields : CreateRequest} {world : World}

/-- What an installed filter leaves in its file and in the set -/
theorem wp_installFilter_stored {metadata : FilterMeta} {map : Nat} {config : Config}
    (placed : Placed config metadata) :
    wp (installFilter daemon (.fresh metadata map)) (fun result after => result.1.status = .ok →
      after.fileAt (config.metaPathOf metadata.name) = some (some metadata.toMetaRecord) ∧
        .fresh metadata map ∈ result.2.set.items) (fun _ => True) world := by
  apply wp_bind
  apply (wp_metaWriteAtomic placed).mono _ fun _ _ => trivial
  intro written middle view
  cases written with
  | error errno => exact (wp_pure _).mpr nofun
  | ok done =>
    have file : middle.fileAt (config.metaPathOf metadata.name) = some (some metadata.toMetaRecord) :=
      congrArg View.file view
    apply wp_bind
    apply (wp_filterSetAdd _ _ middle).mono _ fun _ _ => trivial
    rintro added last ⟨rfl, grown⟩
    cases added with
    | error errno =>
      apply wp_bind
      apply (wp_trivial _).mono _ fun _ held => held
      intro _ _ _
      apply wp_bind
      apply (wp_trivial _).mono _ fun _ held => held
      intro _ _ _
      apply wp_bind
      apply (wp_trivial _).mono _ fun _ held => held
      intro _ _ _
      exact (wp_pure _).mpr nofun
    | ok later =>
      apply (wp_pure _).mpr
      intro _
      refine ⟨file, ?_⟩
      rw [grown later rfl]
      exact List.mem_append_right _ (List.mem_singleton.mpr rfl)

/-- A CREATE that succeeds stores the fields of the request. -/
theorem wp_handleCreate_stored [Libm] : wp (handleCreate daemon fields) (fun result after => result.1.status = .ok →
    StoredAs daemon.config fields.name fields.capacity fields.hashes result.2 after) (fun _ => True) world := by
  have refuses : ∀ (reply : Reply) (later : Daemon) (middle : World), reply.status ≠ .ok →
      wp (pure (reply, later) : Sys (Reply × Daemon)) (fun result after => result.1.status = .ok →
        StoredAs daemon.config fields.name fields.capacity fields.hashes result.2 after) (fun _ => True) middle :=
    fun reply later middle refused => (wp_pure _).mpr fun accepted => absurd accepted refused
  unfold handleCreate
  split
  · exact refuses _ _ _ Status.noConfusion
  rename_i named
  have valid : nameIsValid fields.name = true := by simpa using named
  split
  · exact refuses _ _ _ Status.noConfusion
  simp only
  split
  · exact refuses _ _ _ Status.noConfusion
  split
  · exact refuses _ _ _ Status.noConfusion
  rename_i metadata assigned
  obtain ⟨_, _, _, rfl⟩ := assignFilterPaths_ok assigned
  have typed : 1 ≤ fields.hashes → (newFilterMeta fields).hashes = fields.hashes := by
    intro some
    simp only [newFilterMeta]
    rw [if_neg (by omega)]
  have installs : ∀ (other : Daemon) (map : Nat) (middle : World),
      wp (installFilter other (.fresh { newFilterMeta fields with
          metaPath := daemon.config.metaPathOf fields.name
          logPath := daemon.config.logPathOf fields.name
          pinPath := daemon.config.pinPathOf fields.name } map))
        (fun result after => result.1.status = .ok →
          StoredAs daemon.config fields.name fields.capacity fields.hashes result.2 after) (fun _ => True) middle := by
    intro other map middle
    have placed : Placed daemon.config { newFilterMeta fields with
        metaPath := daemon.config.metaPathOf fields.name
        logPath := daemon.config.logPathOf fields.name
        pinPath := daemon.config.pinPathOf fields.name } := ⟨valid, rfl, rfl, leaf_pinPathOf daemon.config valid⟩
    apply (wp_installFilter_stored placed).mono _ fun _ held => held
    intro result after installed success
    obtain ⟨file, member⟩ := installed success
    exact ⟨⟨_, file, rfl, typed⟩, ⟨_, member, rfl, rfl, typed⟩⟩
  split
  · exact installs _ _ world
  · apply wp_bind
    apply (wp_trivial _).mono _ fun _ held => held
    intro created middle _
    cases created with
    | error failure =>
      simp only
      split
      · exact refuses _ _ _ Status.noConfusion
      · exact refuses _ _ _ Status.noConfusion
    | ok map => exact installs _ map middle

/-- A CREATE whose numbers are out of range is refused before any call. -/
theorem handleCreate_out_of_range [Libm] (valid : nameIsValid fields.name = true)
    (outside : fields.capacity < 1 ∨ 2 ^ 32 ≤ fields.capacity ∨ 15 < fields.hashes) :
    handleCreate daemon fields =
      pure (.error .badRequest .range "invalid capacity, error_rate, or hashes", daemon) := by
  have bad : fields.capacity = 0 ∨ 2 ^ 32 ≤ fields.capacity ∨ 15 < fields.hashes ∨
      (!rateInRange fields.errorRate) = true := by
    rcases outside with zero | large | many
    · exact Or.inl (by omega)
    · exact Or.inr (Or.inl large)
    · exact Or.inr (Or.inr (Or.inl many))
  unfold handleCreate
  simp only [valid, Bool.not_true, Bool.false_eq_true, ↓reduceIte]
  rw [if_pos bad]

/-- The length of the text of a record; the keys and their separators take 105 bytes. -/
theorem length_metaBody (record : MetaRecord) : (metaBody record).length =
    105 + (natText record.version).length + record.name.length + record.backend.length + record.digest.length +
      (natText record.capacity).length + (formatG17 record.errorRate).length + (natText record.hashes).length +
      (natText record.valueSize).length + (flagText record.hasData).length + (flagText record.logClean).length +
      record.pinPath.length := by
  simp only [metaBody, metaLine, List.length_append, List.length_cons, List.length_nil]
  have keys : (bytes "version").length + (bytes "name").length + (bytes "backend").length + (bytes "digest").length +
      (bytes "capacity").length + (bytes "error_rate").length + (bytes "hashes").length + (bytes "value_size").length +
      (bytes "has_data").length + (bytes "log_clean").length + (bytes "pin_path").length = 83 := by decide
  omega

/-- The metadata of a filter of a small installation has room. -/
theorem writable_small [Libm] (valid : nameIsValid fields.name = true) (capacity : fields.capacity < 2 ^ 32)
    (hashes : fields.hashes ≤ 15) (rate : rateInRange fields.errorRate = true) :
    Writable { newFilterMeta fields with
      metaPath := demoRoots.metaPathOf fields.name
      logPath := demoRoots.logPathOf fields.name
      pinPath := demoRoots.pinPathOf fields.name } 1 := by
  have short := length_of_valid valid
  simp only [maxNameLen] at short
  have number : ∀ n, n < 2 ^ 32 → (natText n).length ≤ 10 :=
    fun n small => length_natText_le (by decide) (Nat.lt_trans small (by decide))
  have printed := (formatG17_bounds rate).1
  have few : (newFilterMeta fields).hashes < 2 ^ 32 := by
    have limit := hashesForErrorRate_le fields.errorRate
    simp only [newFilterMeta]
    split
    · omega
    · omega
  have first := number fields.capacity capacity
  have second := number _ few
  have pinned : (demoRoots.pinPathOf fields.name).length = 3 + fields.name.length := by
    simp [Config.pinPathOf, joined, demoRoots, bytes]
    omega
  have placed : (tempPath (demoRoots.metaPathOf fields.name) 1).length = 14 + fields.name.length := by
    have one : (natText 1).length = 1 := by decide
    simp [tempPath, Config.metaPathOf, joined, demoRoots, bytes, one]
    omega
  constructor
  · rw [length_metaBody]
    change 105 + (natText metadataVersion).length + fields.name.length + backendName.length + digestName.length +
      (natText fields.capacity).length + (formatG17 fields.errorRate).length +
        (natText (newFilterMeta fields).hashes).length +
      (natText digestSize).length + (flagText false).length + (flagText true).length +
      (demoRoots.pinPathOf fields.name).length < 2048
    have constants : (natText metadataVersion).length + backendName.length + digestName.length +
        (natText digestSize).length + (flagText false).length + (flagText true).length < 100 := by decide
    omega
  · rw [placed]
    simp only [pathMax]
    omega

end Handler

section Typed

variable [Libm] {name : Bytes} {fields : CreateRequest}

theorem handleCreateBody_createBody (valid : nameIsValid fields.name = true) (capacity : fields.capacity < 2 ^ 64)
    (hashes : fields.hashes < 2 ^ 32) (daemon : Daemon) :
    handleCreateBody daemon (createBody fields) = handleCreate daemon fields := by
  unfold handleCreateBody
  rw [parseCreate_createBody valid capacity hashes]

/-- Numbers that arrive as they were typed, or that the daemon refuses as it should -/
theorem createsAsTyped_of_faithful {capacity hashes : Nat} (valid : nameIsValid fields.name = true)
    (small : fields.capacity < 2 ^ 64) (narrow : fields.hashes < 2 ^ 32)
    (outside : capacity < 1 ∨ 2 ^ 32 ≤ capacity ∨ 15 < hashes →
      fields.capacity < 1 ∨ 2 ^ 32 ≤ fields.capacity ∨ 15 < fields.hashes)
    (inside : ¬ (fields.capacity < 1 ∨ 2 ^ 32 ≤ fields.capacity ∨ 15 < fields.hashes) →
      fields.capacity = capacity ∧ fields.hashes = hashes) :
    CreatesAsTyped fields.name (createBody fields) capacity hashes := by
  constructor
  · intro daemon world answers reply later after rest run success
    rw [handleCreateBody_createBody valid small narrow] at run
    by_cases bad : fields.capacity < 1 ∨ 2 ^ 32 ≤ fields.capacity ∨ 15 < fields.hashes
    · rw [handleCreate_out_of_range valid bad] at run
      obtain ⟨same, -, -⟩ := Stop.returned.inj run
      obtain ⟨rfl, -⟩ := Prod.mk.inj same
      cases success
    · obtain ⟨rfl, rfl⟩ := inside bad
      exact wp_handleCreate_stored.returned run success
  · intro bad daemon world answers
    rw [handleCreateBody_createBody valid small narrow, handleCreate_out_of_range valid (outside bad)]
    exact ⟨_, rfl, nofun⟩

/-- Numbers in range are accepted by some daemon, whatever was typed. -/
theorem not_createsAsTyped {capacity hashes : Nat} (valid : nameIsValid fields.name = true)
    (ranged : fields.capacity ≠ 0 ∧ fields.capacity < 2 ^ 32) (few : fields.hashes ≤ 15)
    (rate : rateInRange fields.errorRate = true) (many : 15 < hashes) :
    ¬ CreatesAsTyped fields.name (createBody fields) capacity hashes := by
  intro typed
  have short := length_of_valid valid
  simp only [maxNameLen] at short
  have fits : Fits demoRoots fields.name := by
    constructor
    all_goals
      simp [Config.metaPathOf, Config.logPathOf, Config.pinPathOf, joined, demoRoots, bytes, pathMax]
      omega
  have assigned := @assignFilterPaths_eq demoRoots (newFilterMeta fields) fits
  have creates := @completes_handleCreate .empty emptyDaemon _ fields _ valid ranged few rate rfl assigned rfl
    (writable_small valid ranged.2 few rate)
  obtain ⟨used, result, after, ⟨success, _⟩, run⟩ := creates.run (fun _ => .ok) fun _ => trivial
  obtain ⟨reply, refused, failed⟩ := typed.refused (Or.inr (Or.inr many)) emptyDaemon .empty
    (supplied (fun _ => .ok) used ++ [])
  rw [handleCreateBody_createBody valid (by omega) (by omega), run] at refused
  obtain ⟨same, -, -⟩ := Stop.returned.inj refused
  rw [same] at success
  exact failed (congrArg Reply.status success)

/-- A `bloomctl create` makes the filter that was typed, or none, exactly when HASHES is
below 2^32 or does not wrap into the range that the daemon accepts. -/
theorem createsAsTyped_iff [Strto] {capacity errorRate hashes : Bytes} (saturates : Strto.Saturates)
    (valid : nameIsValid name = true) (capacityNumeral : Numeral capacity) (hashesNumeral : Numeral hashes)
    (rate : rateInRange (Strto.strtod errorRate).1 = true) :
    ∃ body, commandCreateArgs name capacity errorRate (some hashes) = .ok body ∧
      (CreatesAsTyped name body (digitsValue capacity) (digitsValue hashes) ↔
        (digitsValue capacity < 1 ∨ 2 ^ 32 ≤ digitsValue capacity) ∨ digitsValue hashes < 2 ^ 32 ∨
          15 < min (digitsValue hashes) (2 ^ 64 - 1) % 2 ^ 32) := by
  have first := saturates.unsignedLong capacity capacityNumeral
  have second := saturates.unsigned hashes hashesNumeral
  let fields : CreateRequest :=
    ⟨name, (Strto.strtoull capacity).1.toNat, (Strto.strtod errorRate).1, (Strto.strtoul hashes).1.toNat % 2 ^ 32⟩
  refine ⟨createBody fields, commandCreate_eq valid, ?_⟩
  have small := (Strto.strtoull capacity).1.toNat_lt
  constructor
  · intro typed
    by_contra wraps
    rw [not_or, not_or, not_or] at wraps
    obtain ⟨⟨positive, large⟩, many, wrapped⟩ := wraps
    rw [← second] at wrapped
    have ranged : fields.capacity ≠ 0 ∧ fields.capacity < 2 ^ 32 := by
      simp only [fields]
      omega
    exact @not_createsAsTyped _ fields _ _ valid ranged (Nat.not_lt.mp wrapped) rate (by omega) typed
  · intro condition
    apply @createsAsTyped_of_faithful _ fields _ _ valid small (Nat.mod_lt _ (by decide))
    · simp only [fields]
      omega
    · simp only [fields]
      omega

end Typed

/-- The conversions of a C library on plain decimal numbers, with their limit -/
@[reducible] def limitedStrto : Strto :=
  { exactStrto with
    strtoul :=
      fun value => ((min (digitsValue (leadingDigits value)) (2 ^ 64 - 1)).toUInt64, (leadingDigits value).length,
      2 ^ 64 ≤ digitsValue (leadingDigits value))
    strtoull := fun value => ((min (digitsValue (leadingDigits value)) (2 ^ 64 - 1)).toUInt64,
      (leadingDigits value).length, 2 ^ 64 ≤ digitsValue (leadingDigits value)) }

theorem saturates_limitedStrto : @Strto.Saturates limitedStrto := by
  have limited : ∀ text, Numeral text →
      ((min (digitsValue (leadingDigits text)) (2 ^ 64 - 1)).toUInt64).toNat = min (digitsValue text)
        (2 ^ 64 - 1) := by
    intro text numeral
    have whole : leadingDigits text = text := by
      apply List.takeWhile_eq_self_iff.mpr
      intro char member
      simpa using numeral.digits char member
    rw [whole, Nat.toUInt64_eq, UInt64.toNat_ofNat', Nat.mod_eq_of_lt (by omega)]
  exact @Strto.Saturates.mk limitedStrto limited limited

theorem numeral_of_digits {text : Bytes} (nonempty : text ≠ [])
    (digits : text.all fun char => 48 ≤ char && char ≤ 57) : Numeral text := by
  refine ⟨nonempty, fun char member => ?_⟩
  simpa using List.all_eq_true.mp digits char member

/-- HASHES of 2^32 + 3 arrives as 3, and the filter is created. -/
theorem createsAsTyped_wraps : ∃ body,
    @commandCreateArgs limitedStrto demoName (bytes "100") (bytes "0.01") (some (bytes "4294967299")) = .ok body ∧
    digitsValue (bytes "4294967299") = 2 ^ 32 + 3 ∧
    ((@handleCreateBody exactLibm emptyDaemon body .empty plenty).value.map fun result =>
      (result.1.status, result.2.set.items.map fun filter => filter.metadata.hashes)) = some (.ok, [3]) ∧
    ¬ @CreatesAsTyped exactLibm demoName body 100 (2 ^ 32 + 3) := by
  refine ⟨createBody ⟨demoName, 100, 0x3f847ae147ae147b, 3⟩, by decide +kernel, by decide, by decide +kernel, ?_⟩
  exact @not_createsAsTyped exactLibm ⟨demoName, 100, 0x3f847ae147ae147b, 3⟩ _ _ (by decide) (by decide) (by decide)
    (by decide) (by decide)

theorem createsAsTyped_small : ∃ body,
    @commandCreateArgs limitedStrto demoName (bytes "100") (bytes "0.01") (some (bytes "3")) = .ok body ∧
    @CreatesAsTyped exactLibm demoName body 100 3 := by
  obtain ⟨body, built, typed⟩ := @createsAsTyped_iff exactLibm demoName limitedStrto (bytes "100")
    (bytes "0.01") (bytes "3") saturates_limitedStrto (by decide) (numeral_of_digits (by decide) (by decide))
    (numeral_of_digits (by decide) (by decide)) (by decide +kernel)
  exact ⟨body, built, typed.mpr (Or.inr (Or.inl (by decide)))⟩

end Bloomd
