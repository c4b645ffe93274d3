import Mathlib.Data.List.Perm.Basic
import Mathlib.Logic.Function.Basic

/-! A table with one slot for each key, filled from a row of keyed values. Every slot
takes the values of its own key, and no other slot has a say in it. -/

namespace Framing

variable {κ α : Type} [DecidableEq κ] {σ : κ → Type} (feed : (key : κ) → σ key → α → Option (σ key))

/-- The slots after the values of a row, unless one of them is refused -/
def feedEntries : (slots : (key : κ) → σ key) → List (κ × α) → Option ((key : κ) → σ key)
  | slots, [] => some slots
  | slots, (key, value) :: rest => do
    let slot ← feed key (slots key) value
    feedEntries (Function.update slots key slot) rest

/-- One slot after the values for it -/
def feedValues (key : κ) : σ key → List α → Option (σ key)
  | slot, [] => some slot
  | slot, value :: rest => do
    let next ← feed key slot value
    feedValues key next rest

/-- The values that a row has for a key -/
def valuesAt (key : κ) (entries : List (κ × α)) : List α :=
  (entries.filter fun entry => entry.1 = key).map Prod.snd

theorem valuesAt_cons_self (key : κ) (value : α) (rest : List (κ × α)) :
    valuesAt key ((key, value) :: rest) = value :: valuesAt key rest := by
  simp [valuesAt]

theorem valuesAt_cons_other {key other : κ} (different : other ≠ key) (value : α) (rest : List (κ × α)) :
    valuesAt key ((other, value) :: rest) = valuesAt key rest := by
  simp [valuesAt, different]

theorem mem_valuesAt {key : κ} {value : α} {entries : List (κ × α)} :
    value ∈ valuesAt key entries ↔ (key, value) ∈ entries := by
  simp [valuesAt]

/-- The table accepts a row exactly when each slot accepts its own values. -/
theorem feedEntries_eq_some (entries : List (κ × α)) : ∀ {slots later : (key : κ) → σ key},
    feedEntries feed slots entries = some later ↔
      ∀ key, feedValues feed key (slots key) (valuesAt key entries) = some (later key) := by
  induction entries with
  | nil =>
    intro slots later
    simp only [feedEntries, valuesAt, List.filter_nil, List.map_nil, feedValues, Option.some.injEq]
    exact funext_iff
  | cons entry rest ih =>
    obtain ⟨key, value⟩ := entry
    intro slots later
    rw [feedEntries]
    cases fed : feed key (slots key) value with
    | none =>
      constructor
      · exact nofun
      · intro each
        have own := each key
        rw [valuesAt_cons_self, feedValues, fed] at own
        exact absurd own nofun
    | some slot =>
      rw [Option.bind_eq_bind, Option.bind_some, ih]
      apply forall_congr'
      intro other
      by_cases same : key = other
      · subst same
        rw [valuesAt_cons_self, feedValues, fed, Function.update_self]
        rfl
      · rw [valuesAt_cons_other same, Function.update_of_ne (Ne.symm same)]

/-- With no key twice, a key has at most one value. -/
theorem valuesAt_of_nodup {entries : List (κ × α)} (unique : (entries.map Prod.fst).Nodup) {key : κ} {value : α}
    (member : (key, value) ∈ entries) : valuesAt key entries = [value] := by
  induction entries with
  | nil => exact absurd member List.not_mem_nil
  | cons entry rest ih =>
    obtain ⟨first, other⟩ := entry
    rw [List.map_cons, List.nodup_cons] at unique
    by_cases same : first = key
    · subst same
      have gone : valuesAt first rest = [] := by
        apply List.eq_nil_iff_forall_not_mem.mpr
        intro late found
        exact unique.1 (List.mem_map.mpr ⟨(first, late), mem_valuesAt.mp found, rfl⟩)
      rcases List.mem_cons.mp member with here | later
      · obtain rfl := (Prod.mk.inj here).2
        rw [valuesAt_cons_self, gone]
      · exact absurd (List.mem_map.mpr ⟨(first, value), later, rfl⟩) unique.1
    · rcases List.mem_cons.mp member with here | later
      · exact absurd (Prod.mk.inj here).1.symm same
      · rw [valuesAt_cons_other same]
        exact ih unique.2 later

theorem valuesAt_eq_nil {entries : List (κ × α)} {key : κ} (missing : ∀ value, (key, value) ∉ entries) :
    valuesAt key entries = [] := by
  apply List.eq_nil_iff_forall_not_mem.mpr
  intro value found
  exact missing value (mem_valuesAt.mp found)

/-- No key twice, if no key has two values -/
theorem nodup_of_valuesAt {entries : List (κ × α)} (few : ∀ key, (valuesAt key entries).length ≤ 1) :
    (entries.map Prod.fst).Nodup := by
  induction entries with
  | nil => exact List.nodup_nil
  | cons entry rest ih =>
    obtain ⟨key, value⟩ := entry
    rw [List.map_cons, List.nodup_cons]
    constructor
    · intro again
      obtain ⟨⟨other, late⟩, member, rfl⟩ := List.mem_map.mp again
      have two := few other
      rw [valuesAt_cons_self, List.length_cons] at two
      have positive := List.length_pos_of_mem (mem_valuesAt.mpr member)
      omega
    · apply ih
      intro other
      have count := few other
      by_cases same : key = other
      · subst same
        rw [valuesAt_cons_self, List.length_cons] at count
        omega
      · rwa [valuesAt_cons_other same] at count

end Framing
