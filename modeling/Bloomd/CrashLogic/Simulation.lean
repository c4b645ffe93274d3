import Bloomd.CrashLogic.Weakest
import Mathlib.Data.List.Forall2
import Mathlib.Data.Sum.Basic

/-! One program after another: when the first one returns, the second one returns too
on answers that mean the same to it. Only the answers that were used matter. -/

namespace CrashLogic

variable {σ ω α α' β β' : Type} {same : ω → ω → Prop} {state state' : σ}

theorem forall₂_split {front back other : List ω} (alike : List.Forall₂ same (front ++ back) other) :
    ∃ front' back', other = front' ++ back' ∧ List.Forall₂ same front front' ∧ List.Forall₂ same back back' := by
  induction front generalizing other with
  | nil => exact ⟨[], other, rfl, .nil, alike⟩
  | cons head front ih =>
    cases alike with
    | cons first others =>
      obtain ⟨front', back', rfl, fronts, backs⟩ := ih others
      exact ⟨_ :: front', back', rfl, .cons first fronts, backs⟩

theorem forall₂_refl [Std.Refl same] (answers : List ω) : List.Forall₂ same answers answers := by
  induction answers with
  | nil => exact .nil
  | cons head rest ih => exact .cons (refl head) ih

namespace Prog

/-- Whenever `left` returns after some answers, `right` returns after answers that are
the same for it, and the two results satisfy `post`. -/
structure Simulates (same : ω → ω → Prop) (left : Prog σ ω α) (right : Prog σ ω α') (post : α → α' → σ → σ → Prop)
    (state state' : σ) : Prop where
  run : ∀ {answers value after rest}, left state answers = .returned value after rest →
    ∃ used, answers = used ++ rest ∧ ∀ used', List.Forall₂ same used used' → ∃ value' after',
      post value value' after after' ∧ ∀ rest', right state' (used' ++ rest') = .returned value' after' rest'

theorem Simulates.mono {left : Prog σ ω α} {right : Prog σ ω α'} {post post' : α → α' → σ → σ → Prop}
    (simulates : Simulates same left right post state state')
    (weaker : ∀ value value' after after', post value value' after after' → post' value value' after after') :
    Simulates same left right post' state state' := by
  constructor
  intro answers value after rest returned
  obtain ⟨used, split, continues⟩ := simulates.run returned
  refine ⟨used, split, fun used' alike => ?_⟩
  obtain ⟨value', after', held, run⟩ := continues used' alike
  exact ⟨value', after', weaker _ _ _ _ held, run⟩

/-- What holds of every return of the first program holds of the one that is followed. -/
theorem Simulates.covered {left : Prog σ ω α} {right : Prog σ ω α'} {post : α → α' → σ → σ → Prop}
    {post' : α → σ → Prop} {crash : σ → Prop} (simulates : Simulates same left right post state state')
    (spec : wp left post' crash state) :
    Simulates same left right (fun value value' after after' => post value value' after after' ∧ post' value after)
      state state' := by
  constructor
  intro answers value after rest returned
  obtain ⟨used, split, continues⟩ := simulates.run returned
  refine ⟨used, split, fun used' alike => ?_⟩
  obtain ⟨value', after', held, run⟩ := continues used' alike
  exact ⟨value', after', ⟨held, spec.returned returned⟩, run⟩

theorem simulates_pure {value : α} {value' : α'} {post : α → α' → σ → σ → Prop}
    (held : post value value' state state') :
    Simulates same (pure value : Prog σ ω α) (pure value') post state state' := by
  constructor
  intro answers result after rest returned
  obtain ⟨rfl, rfl, rfl⟩ := Stop.returned.inj returned
  refine ⟨[], rfl, fun used' alike => ?_⟩
  cases alike
  exact ⟨value', state', held, fun rest' => rfl⟩

theorem simulates_call {effect : ω → σ → α × σ} {effect' : ω → σ → α' × σ} {post : α → α' → σ → σ → Prop}
    (held : ∀ answer answer', same answer answer' →
      post (effect answer state).1 (effect' answer' state').1 (effect answer state).2 (effect' answer' state').2) :
    Simulates same (call effect) (call effect') post state state' := by
  constructor
  intro answers result after rest returned
  cases answers with
  | nil => cases returned
  | cons answer answers =>
    obtain ⟨rfl, rfl, rfl⟩ := Stop.returned.inj returned
    refine ⟨[answer], rfl, fun used' alike => ?_⟩
    cases alike with
    | cons first others =>
      cases others
      exact ⟨_, _, held answer _ first, fun rest' => rfl⟩

variable [Std.Refl same]

theorem simulates_bind {left : Prog σ ω α} {right : Prog σ ω α'} {next : α → Prog σ ω β} {next' : α' → Prog σ ω β'}
    {post : β → β' → σ → σ → Prop}
    (simulates : Simulates same left right
      (fun value value' after after' => Simulates same (next value) (next' value') post after after') state state') :
    Simulates same (left >>= next) (right >>= next') post state state' := by
  constructor
  intro answers result last rest returned
  rw [bind_apply] at returned
  cases run : left state answers with
  | crashed after =>
    rw [run] at returned
    cases returned
  | returned value after middle =>
    rw [run] at returned
    obtain ⟨used, rfl, continues⟩ := simulates.run run
    obtain ⟨_, _, onward, _⟩ := continues used (forall₂_refl used)
    obtain ⟨more, rfl, _⟩ := onward.run returned
    refine ⟨used ++ more, (List.append_assoc _ _ _).symm, fun used' alike => ?_⟩
    obtain ⟨front, back, rfl, fronts, backs⟩ := forall₂_split alike
    obtain ⟨value', after', onward, first⟩ := continues front fronts
    obtain ⟨_, split, finishes⟩ := onward.run returned
    obtain rfl := List.append_cancel_right split
    obtain ⟨result', last', held, second⟩ := finishes back backs
    refine ⟨result', last', held, fun rest' => ?_⟩
    rw [bind_apply, List.append_assoc, first]
    exact second rest'

/-- Two loops go on together as long as their turns do. -/
theorem simulates_loop {γ γ' : Type} {body : γ → Prog σ ω (γ ⊕ α)} {body' : γ' → Prog σ ω (γ' ⊕ α')}
    {post : α → α' → σ → σ → Prop} (keep : γ → γ' → σ → σ → Prop)
    (turn : ∀ current current' state state', keep current current' state state' →
      Simulates same (body current) (body' current') (fun result result' after after' =>
        Sum.LiftRel (fun next next' => keep next next' after after')
          (fun value value' => post value value' after after') result result') state state')
    {start : γ} {start' : γ'} (ready : keep start start' state state') :
    Simulates same (loop body start) (loop body' start') post state state' := by
  constructor
  intro answers
  induction size : answers.length using Nat.strongRecOn generalizing start start' state state' answers with
  | ind size ih =>
    intro value last rest returned
    rw [loop_eq] at returned
    cases run : body start state answers with
    | crashed after =>
      rw [run] at returned
      cases returned
    | returned result after middle =>
      obtain ⟨used, rfl, continues⟩ := (turn start start' state state' ready).run run
      rw [run] at returned
      cases result with
      | inr finished =>
        obtain ⟨rfl, rfl, rfl⟩ := Stop.returned.inj returned
        refine ⟨used, rfl, fun used' alike => ?_⟩
        obtain ⟨_, after', held, second⟩ := continues used' alike
        cases held with
        | inr held =>
          refine ⟨_, after', held, fun rest' => ?_⟩
          rw [loop_eq, second]
      | inl next =>
        simp only at returned
        split at returned
        · rename_i shorter
          obtain ⟨_, _, kept, _⟩ := continues used (forall₂_refl used)
          cases kept with
          | inl kept =>
            obtain ⟨more, rfl, _⟩ := ih _ (size ▸ shorter) kept rfl returned
            refine ⟨used ++ more, (List.append_assoc _ _ _).symm, fun used' alike => ?_⟩
            obtain ⟨front, back, rfl, fronts, backs⟩ := forall₂_split alike
            obtain ⟨_, after', kept, first⟩ := continues front fronts
            cases kept with
            | inl kept =>
              obtain ⟨_, split, finishes⟩ := ih _ (size ▸ shorter) kept rfl returned
              obtain rfl := List.append_cancel_right split
              obtain ⟨value', last', held, second⟩ := finishes back backs
              refine ⟨value', last', held, fun rest' => ?_⟩
              have turned : (back ++ rest').length < (front ++ (back ++ rest')).length := by
                have length := fronts.length_eq
                simp only [List.length_append] at shorter ⊢
                omega
              rw [loop_eq, List.append_assoc, first]
              simp only [turned, ↓reduceIte]
              exact second rest'
        · cases returned

end Prog

end CrashLogic
