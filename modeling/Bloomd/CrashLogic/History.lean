import Bloomd.CrashLogic.Independence

/-! Histories. A specification is a relation between the states before and after an
entry; a run of a system is explained by the history of the entries it made, whoever they
were made for, if the specification allows them one after another. -/

namespace CrashLogic

variable {ε κ σ τ : Type} {step : ε → σ → σ → Prop} {begun middle state last : σ} {history early late : List ε}

theorem Runs.append (first : Runs step early begun middle) (second : Runs step late middle last) :
    Runs step (early ++ late) begun last := by
  induction first with
  | done state => exact second
  | next first others ih => exact .next first (ih second)

theorem Runs.split (runs : Runs step (early ++ late) begun last) :
    ∃ middle, Runs step early begun middle ∧ Runs step late middle last := by
  induction early generalizing begun with
  | nil => exact ⟨begun, .done begun, runs⟩
  | cons entry early ih =>
    cases runs with
    | next first others =>
      obtain ⟨middle, before, after⟩ := ih others
      exact ⟨middle, .next first before, after⟩

/-- What the entries of a history keep, the history keeps. -/
theorem Runs.preserves {good : σ → Prop} (runs : Runs step history begun last)
    (kept : ∀ entry ∈ history, ∀ before after, step entry before after → good before → good after)
    (held : good begun) :
    good last := by
  induction runs with
  | done state => exact held
  | next first others ih =>
    apply ih
    · exact fun entry member => kept entry (List.mem_cons_of_mem _ member)
    · exact kept _ List.mem_cons_self _ _ first held

/-- The entries that were made for one key, in order -/
def projection [DecidableEq κ] (key : κ) (history : List (κ × ε)) : List ε :=
  (history.filter fun entry => entry.1 = key).map Prod.snd

section Projection

variable [DecidableEq κ] {key other : κ} {tagged more : List (κ × ε)}

theorem projection_append : projection key (tagged ++ more) = projection key tagged ++ projection key more := by
  simp [projection]

theorem projection_own (entries : List ε) : projection key (entries.map (key, ·)) = entries := by
  induction entries with
  | nil => rfl
  | cons entry entries ih => simpa [projection] using ih

theorem projection_other (different : other ≠ key) (entries : List ε) :
    projection key (entries.map (other, ·)) = [] := by
  induction entries with
  | nil => rfl
  | cons entry entries ih => simp [projection, different]

omit [DecidableEq κ] in
theorem map_snd_own (entries : List ε) : (entries.map (key, ·)).map Prod.snd = entries := by
  rw [List.map_map]
  exact List.map_id entries

end Projection

end CrashLogic
