import Bloomd.FilterSetSemantics
import Bloomd.System
import Mathlib.Data.List.TakeWhile

/-! The filter set as a finite map from names to filters: whatever calls were made
before, a lookup finds what was added under that name and not removed since. -/

namespace Bloomd

open CrashLogic

/-- `bloomd_filter_set_find`, which takes the length of the name from its NUL -/
def FilterSet.find (set : FilterSet) (name : Bytes) : Option Nat × FilterSet :=
  set.findN (name.takeWhile (· ≠ 0))

/-- The calls on a set -/
inductive SetCall where
  | add (filter : Filter)
  | removeN (name : Bytes)
  | find (name : Bytes)
  | findN (name : Bytes)

/-- A set with the finite map that it stands for -/
structure SetSession where
  set : FilterSet
  table : AList (fun _ : Bytes => Filter)
  world : World

namespace SetSession

/-- One call with the answers that its system calls get. An addition that finds no
memory leaves the map as it was. -/
def call (session : SetSession) (answers : List Answer) : SetCall → Option SetSession
  | .add filter =>
    match filterSetAdd session.set filter session.world answers with
    | .returned (.ok set) world _ => some ⟨set, session.table.insert filter.name filter, world⟩
    | .returned (.error _) world _ => some { session with world }
    | .crashed _ => none
  | .removeN name =>
    match filterSetRemoveN session.set name session.world answers with
    | .returned (_, set) world _ => some ⟨set, session.table.erase name, world⟩
    | .crashed _ => none
  | .find name => some { session with set := (session.set.find name).2 }
  | .findN name => some { session with set := (session.set.findN name).2 }

/-- Names are valid, and an addition brings a new one. -/
def Allows (session : SetSession) : SetCall → Prop
  | .add filter => nameIsValid filter.name = true ∧ filter.name ∉ session.table
  | .removeN name | .find name | .findN name => nameIsValid name = true

/-- The sessions that calls can lead to from `bloomd_filter_set_init` -/
inductive Reached : SetSession → Prop where
  | init (world : World) : Reached ⟨.init, ∅, world⟩
  | next {session later : SetSession} {answers : List Answer} {request : SetCall} (reached : Reached session)
      (allowed : session.Allows request) (called : session.call answers request = some later) : Reached later

/-- What every call keeps -/
structure Refines (session : SetSession) : Prop where
  valid : ∀ filter ∈ session.set.items, nameIsValid filter.name = true
  unique : (session.set.items.map Filter.name).Nodup
  cached : ∀ last, session.set.lastIndex = some last → last < session.set.items.length
  stored : ∀ name filter, session.table.lookup name = some filter ↔ filter ∈ session.set.items ∧ filter.name = name

end SetSession

section Set

variable {set : FilterSet} {name : Bytes} {filter : Filter} {index : Nat} {world : World}

/-- A lookup moves the cache only to an index that it found. -/
theorem lastIndex_findN {last : Nat} (bound : ∀ last, set.lastIndex = some last → last < set.items.length)
    (cached : (set.findN name).2.lastIndex = some last) : last < set.items.length := by
  have scans : (FilterSet.findN.scan set name).2.lastIndex = some last → last < set.items.length := by
    unfold FilterSet.findN.scan
    split
    · rename_i found located
      intro same
      obtain rfl := Option.some.inj same
      obtain ⟨inside, _⟩ := List.findIdx?_eq_some_iff_getElem.mp located
      exact inside
    · exact bound last
  unfold FilterSet.findN at cached
  split at cached
  · split at cached
    · exact bound last cached
    · exact scans cached
  · exact scans cached

/-- Among different names an element is removed by its place or by its name. -/
theorem eraseIdx_eq_filter {items : List Filter} (unique : (items.map Filter.name).Nodup)
    (found : items[index]? = some filter) :
    items.eraseIdx index = items.filter fun other => other.name ≠ filter.name := by
  induction items generalizing index with
  | nil => cases found
  | cons head rest ih =>
    obtain ⟨fresh, unique⟩ := List.nodup_cons.mp unique
    cases index with
    | zero =>
      obtain rfl := Option.some.inj found
      have others : rest.filter (fun other => decide (other.name ≠ head.name)) = rest := by
        apply List.filter_eq_self.mpr
        intro other member
        exact decide_eq_true fun same => fresh (same ▸ List.mem_map_of_mem member)
      rw [List.filter_cons, if_neg (by simp), others]
      rfl
    | succ index =>
      have inside : rest[index]? = some filter := found
      have different : head.name ≠ filter.name := fun same =>
        fresh (same ▸ List.mem_map_of_mem (List.mem_of_getElem? inside))
      rw [List.filter_cons, if_pos (by simpa using different), ← ih unique inside]
      rfl

theorem repairedIndex_bound {lastIndex : Option Nat} {length last : Nat}
    (bound : ∀ last, lastIndex = some last → last < length + 1)
    (repaired : repairedIndex lastIndex index length = some last) : last < length := by
  unfold repairedIndex at repaired
  split at repaired
  · cases repaired
  · rename_i before
    have inside := bound before rfl
    split at repaired
    · cases repaired
    · rename_i kept
      split at repaired
      · obtain rfl := Option.some.inj repaired
        omega
      · obtain rfl := Option.some.inj repaired
        omega

theorem wp_filterSetAdd_cached : Prog.wp (filterSetAdd set filter)
    (fun result _ => ∀ later, result = .ok later →
      later.items = set.items ++ [filter] ∧ later.lastIndex = some set.items.length) (fun _ => True) world := by
  have grown : ∀ cap, ∀ later,
      (Except.ok ⟨set.items ++ [filter], cap, some set.items.length⟩ : Except Errno FilterSet) = .ok later →
      later.items = set.items ++ [filter] ∧ later.lastIndex = some set.items.length := by
    intro cap later same
    obtain rfl := Except.ok.inj same
    exact ⟨rfl, rfl⟩
  unfold filterSetAdd
  split
  · apply Prog.wp_bind
    apply (Prog.wp_trivial _).mono _ fun _ held => held
    intro result after _
    cases result with
    | error errno => exact (Prog.wp_pure _).mpr nofun
    | ok done => exact (Prog.wp_pure _).mpr (grown _)
  · exact (Prog.wp_pure _).mpr (grown _)

/-- A removal takes out the element of that name and keeps all others in order. -/
theorem wp_filterSetRemoveN_filter (named : ∀ filter ∈ set.items, nameIsValid filter.name = true)
    (unique : (set.items.map Filter.name).Nodup) (bound : ∀ last, set.lastIndex = some last → last < set.items.length)
    (valid : nameIsValid name = true) : Prog.wp (filterSetRemoveN set name)
      (fun result _ => (result.2.items = set.items.filter fun other => other.name ≠ name) ∧
        ∀ last, result.2.lastIndex = some last → last < result.2.items.length) (fun _ => True) world := by
  have missing : (∀ other ∈ set.items, other.name ≠ name) →
      set.items.filter (fun other => decide (other.name ≠ name)) = set.items :=
    fun absent => List.filter_eq_self.mpr fun other member => decide_eq_true (absent other member)
  unfold filterSetRemoveN
  split
  · rename_i unlocated
    have absent : ∀ other ∈ set.items, other.name ≠ name := by
      intro other member same
      have unmatched := List.findIdx?_eq_none_iff.mp unlocated other member
      rw [(nameMatches_iff (named other member) valid).mpr same] at unmatched
      cases unmatched
    exact (Prog.wp_pure _).mpr ⟨(missing absent).symm, bound⟩
  · rename_i index located
    obtain ⟨inside, matched, _⟩ := List.findIdx?_eq_some_iff_getElem.mp located
    have there := List.getElem?_eq_getElem inside
    have same := (nameMatches_iff (named _ (List.mem_of_getElem? there)) valid).mp matched
    rw [there]
    apply Prog.wp_bind
    apply (Prog.wp_trivial _).mono _ fun _ held => held
    intro flushed after _
    apply (Prog.wp_pure _).mpr
    have removed := eraseIdx_eq_filter unique there
    rw [same] at removed
    refine ⟨removed, fun last repaired => ?_⟩
    apply repairedIndex_bound _ repaired
    intro last cached
    have before := bound last cached
    rw [List.length_eraseIdx_of_lt inside]
    omega

end Set

namespace SetSession

variable {session later : SetSession} {answers : List Answer} {name : Bytes} {filter : Filter}

/-- A lookup moves only the cache. -/
theorem Refines.findN (refines : session.Refines) (name : Bytes) :
    Refines { session with set := (session.set.findN name).2 } := by
  have same : (session.set.findN name).2.items = session.set.items := FilterSet.findN_items
  constructor
  · rw [same]
    exact refines.valid
  · rw [same]
    exact refines.unique
  · intro last cached
    rw [same]
    exact lastIndex_findN refines.cached cached
  · rw [same]
    exact refines.stored

theorem Refines.add (refines : session.Refines) (valid : nameIsValid filter.name = true)
    (fresh : filter.name ∉ session.table)
    {set : FilterSet} {world : World} (grown : set.items = session.set.items ++ [filter])
    (cached : set.lastIndex = some session.set.items.length) :
    Refines ⟨set, session.table.insert filter.name filter, world⟩ := by
  have absent : ∀ other ∈ session.set.items, other.name ≠ filter.name := by
    intro other member same
    have known := (refines.stored other.name other).mpr ⟨member, rfl⟩
    rw [same, AList.lookup_eq_none.mpr fresh] at known
    cases known
  constructor
  · intro other member
    rw [grown] at member
    rcases List.mem_append.mp member with old | new
    · exact refines.valid other old
    · rw [List.mem_singleton.mp new]
      exact valid
  · rw [grown, List.map_append]
    apply List.nodup_append.mpr
    refine ⟨refines.unique, List.nodup_singleton _, ?_⟩
    intro first inside second new same
    obtain ⟨other, member, rfl⟩ := List.mem_map.mp inside
    rw [List.map_singleton, List.mem_singleton] at new
    exact absent other member (same.trans new)
  · intro last held
    rw [cached] at held
    obtain rfl := Option.some.inj held
    rw [grown, List.length_append, List.length_singleton]
    omega
  · intro name other
    rw [grown, List.mem_append, List.mem_singleton]
    by_cases own : name = filter.name
    · subst own
      rw [AList.lookup_insert]
      constructor
      · intro same
        obtain rfl := Option.some.inj same
        exact ⟨Or.inr rfl, rfl⟩
      · rintro ⟨old | rfl, same⟩
        · exact absurd same (absent other old)
        · rfl
    · rw [AList.lookup_insert_ne own, refines.stored name other]
      constructor
      · rintro ⟨member, same⟩
        exact ⟨Or.inl member, same⟩
      · rintro ⟨old | rfl, same⟩
        · exact ⟨old, same⟩
        · exact absurd same.symm own

theorem Refines.remove (refines : session.Refines) {set : FilterSet} {world : World}
    (kept : set.items = session.set.items.filter fun other => other.name ≠ name)
    (cached : ∀ last, set.lastIndex = some last → last < set.items.length) :
    Refines ⟨set, session.table.erase name, world⟩ := by
  have member : ∀ other, other ∈ set.items ↔ other ∈ session.set.items ∧ other.name ≠ name := by
    intro other
    rw [kept, List.mem_filter, decide_eq_true_eq]
  constructor
  · exact fun other inside => refines.valid other ((member other).mp inside).1
  · rw [kept]
    exact refines.unique.sublist (List.filter_sublist.map _)
  · exact cached
  · intro other filter
    rw [member]
    by_cases own : other = name
    · subst own
      rw [AList.lookup_erase]
      exact ⟨nofun, fun held => absurd held.2 held.1.2⟩
    · rw [AList.lookup_erase_ne own, refines.stored]
      constructor
      · rintro ⟨inside, rfl⟩
        exact ⟨⟨inside, own⟩, rfl⟩
      · rintro ⟨⟨inside, _⟩, same⟩
        exact ⟨inside, same⟩

/-- Every call keeps the set and the map together. -/
theorem Refines.call (refines : session.Refines) {request : SetCall} (allowed : session.Allows request)
    (called : session.call answers request = some later) : later.Refines := by
  cases request with
  | add filter =>
    simp only [SetSession.call] at called
    split at called
    · rename_i set world rest run
      obtain ⟨grown, cached⟩ := wp_filterSetAdd_cached.returned run set rfl
      obtain rfl := Option.some.inj called
      exact refines.add allowed.1 allowed.2 grown cached
    · obtain rfl := Option.some.inj called
      exact ⟨refines.valid, refines.unique, refines.cached, refines.stored⟩
    · cases called
  | removeN name =>
    simp only [SetSession.call] at called
    split at called
    · rename_i result set world rest run
      obtain ⟨kept, cached⟩ :=
        (wp_filterSetRemoveN_filter refines.valid refines.unique refines.cached allowed).returned run
      obtain rfl := Option.some.inj called
      exact refines.remove kept cached
    · cases called
  | find name =>
    obtain rfl := Option.some.inj called
    exact refines.findN _
  | findN name =>
    obtain rfl := Option.some.inj called
    exact refines.findN name

theorem Reached.refines (reached : session.Reached) : session.Refines := by
  induction reached with
  | init world =>
    constructor
    · nofun
    · exact List.nodup_nil
    · nofun
    · intro name filter
      rw [AList.lookup_empty]
      exact ⟨nofun, fun held => nomatch held.1⟩
  | next reached allowed called ih => exact ih.call allowed called

/-- A lookup returns what the map holds. -/
theorem Refines.lookup (refines : session.Refines) (valid : nameIsValid name = true) :
    ((session.set.findN name).1.bind fun index => session.set.items[index]?) = session.table.lookup name := by
  cases found : (session.set.findN name).1 with
  | none =>
    have absent := FilterSet.findN_missing refines.valid valid found
    cases held : session.table.lookup name with
    | none => rfl
    | some filter =>
      obtain ⟨member, same⟩ := (refines.stored name filter).mp held
      exact absurd same (absent filter member)
  | some index =>
    obtain ⟨filter, there, same⟩ := FilterSet.findN_name refines.valid valid found
    rw [Option.bind_some, there]
    exact ((refines.stored name filter).mpr ⟨List.mem_of_getElem? there, same⟩).symm

end SetSession

/-- A valid name has no NUL, so its length as a string is its length. -/
theorem find_eq_findN (set : FilterSet) {name : Bytes} (valid : nameIsValid name = true) :
    set.find name = set.findN name := by
  have plain : name.takeWhile (· ≠ 0) = name := by
    apply List.takeWhile_eq_self_iff.mpr
    intro char member
    apply decide_eq_true
    rintro rfl
    exact not_mem_of_valid valid (by decide) member
  rw [FilterSet.find, plain]

/-- In every session a lookup returns the filter that was added under exactly this name
and not removed since, the cached index is in range, names are different, and a removal
keeps every other filter in its place. -/
theorem filterSet_refines_map {session : SetSession} (reached : session.Reached) :
    (∀ name, nameIsValid name = true →
      ((session.set.findN name).1.bind fun index => session.set.items[index]?) = session.table.lookup name ∧
      ((session.set.find name).1.bind fun index => session.set.items[index]?) = session.table.lookup name) ∧
    (∀ last, session.set.lastIndex = some last → last < session.set.items.length) ∧
    (session.set.items.map Filter.name).Nodup ∧
    (∀ name answers later, nameIsValid name = true → session.call answers (.removeN name) = some later →
      later.set.items = session.set.items.filter fun filter => filter.name ≠ name) := by
  have refines := reached.refines
  refine ⟨fun name valid => ?_, refines.cached, refines.unique, fun name answers later valid called => ?_⟩
  · rw [find_eq_findN session.set valid]
    exact ⟨refines.lookup valid, refines.lookup valid⟩
  · simp only [SetSession.call] at called
    split at called
    · rename_i result set world rest run
      obtain ⟨kept, _⟩ := (wp_filterSetRemoveN_filter refines.valid refines.unique refines.cached valid).returned run
      obtain rfl := Option.some.inj called
      exact kept
    · cases called

/-- A filter of the small installation -/
def namedFilter (name : Bytes) : Filter :=
  Filter.fresh ⟨⟨name, backendName, digestName, bytes "/p/" ++ name, 100, 0x3f847ae147ae147b, 3, 16, 1, false, true⟩,
    bytes "/m/" ++ name ++ bytes ".meta", bytes "/m/" ++ name ++ bytes ".digests"⟩ 0

def addedTable : AList (fun _ : Bytes => Filter) :=
  ((AList.insert (bytes "x") (namedFilter (bytes "x")) ∅).insert (bytes "xy") (namedFilter (bytes "xy"))).insert
    (bytes "z") (namedFilter (bytes "z"))

/-- Three filters were added, the second one was looked up, and the first one was removed.
Its name is the beginning of the other, which the cache still finds. -/
def removedSession : SetSession :=
  ⟨⟨[namedFilter (bytes "xy"), namedFilter (bytes "z")], 8, some 0⟩, addedTable.erase (bytes "x"), .empty⟩

theorem reached_removedSession : removedSession.Reached := by
  have one : SetSession.Reached ⟨⟨[namedFilter (bytes "x")], 8, some 0⟩,
      AList.insert (bytes "x") (namedFilter (bytes "x")) ∅, .empty⟩ := by
    apply @SetSession.Reached.next ⟨.init, ∅, .empty⟩ _ [.ok] (.add (namedFilter (bytes "x"))) (.init .empty)
    · exact ⟨by decide, AList.notMem_empty _⟩
    · rfl
  have two : SetSession.Reached ⟨⟨[namedFilter (bytes "x"), namedFilter (bytes "xy")], 8, some 1⟩,
      (AList.insert (bytes "x") (namedFilter (bytes "x")) ∅).insert (bytes "xy") (namedFilter (bytes "xy")),
        .empty⟩ := by
    apply @SetSession.Reached.next _ _ [] (.add (namedFilter (bytes "xy"))) one
    · exact ⟨by decide, AList.lookup_eq_none.mp rfl⟩
    · rfl
  have three :
      SetSession.Reached ⟨⟨[namedFilter (bytes "x"), namedFilter (bytes "xy"), namedFilter (bytes "z")], 8, some 2⟩,
      addedTable, .empty⟩ := by
    apply @SetSession.Reached.next _ _ [] (.add (namedFilter (bytes "z"))) two
    · exact ⟨by decide, AList.lookup_eq_none.mp rfl⟩
    · rfl
  have found :
      SetSession.Reached ⟨⟨[namedFilter (bytes "x"), namedFilter (bytes "xy"), namedFilter (bytes "z")], 8, some 1⟩,
      addedTable, .empty⟩ := by
    apply @SetSession.Reached.next _ _ [] (.findN (bytes "xy")) three
    · exact (by decide : nameIsValid (bytes "xy") = true)
    · rfl
  apply @SetSession.Reached.next _ _ [] (.removeN (bytes "x")) found
  · exact (by decide : nameIsValid (bytes "x") = true)
  · rfl

theorem filterSet_refines_map_removed :
    ((removedSession.set.findN (bytes "x")).1.bind fun index => removedSession.set.items[index]?) = none ∧
    ((removedSession.set.findN (bytes "xy")).1.bind fun index => removedSession.set.items[index]?) =
      some (namedFilter (bytes "xy")) ∧
    ((removedSession.set.findN (bytes "z")).1.bind fun index => removedSession.set.items[index]?) =
      some (namedFilter (bytes "z")) := by
  have lookups := (filterSet_refines_map reached_removedSession).1
  exact ⟨(lookups (bytes "x") (by decide)).1.trans rfl, (lookups (bytes "xy") (by decide)).1.trans rfl,
    (lookups (bytes "z") (by decide)).1.trans rfl⟩

end Bloomd
