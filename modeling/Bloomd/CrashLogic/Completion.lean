import Bloomd.CrashLogic.Weakest
import Mathlib.Data.List.Range

/-! Runs whose calls all succeed. The easy answers form an endless supply, and a
program completes when it returns after finitely many of them. -/

namespace CrashLogic

variable {σ ω α β : Type} {easy : ω → Prop} {post post' : α → σ → Prop} {state : σ}

/-- The first answers of an endless supply -/
def supplied (answers : Nat → ω) (count : Nat) : List ω := (List.range count).map answers

theorem supplied_add (answers : Nat → ω) (first second : Nat) :
    supplied answers (first + second) =
      supplied answers first ++ supplied (fun index => answers (first + index)) second := by
  simp [supplied, List.range_add, List.map_map, Function.comp_def]

namespace Prog

/-- With easy answers only, the program returns and its result satisfies `post`. -/
structure Completes (easy : ω → Prop) (prog : Prog σ ω α) (post : α → σ → Prop) (state : σ) : Prop where
  run : ∀ answers : Nat → ω, (∀ index, easy (answers index)) → ∃ used value after, post value after ∧
    ∀ rest, prog state (supplied answers used ++ rest) = .returned value after rest

theorem Completes.mono {prog : Prog σ ω α} (completes : Completes easy prog post state)
    (weaker : ∀ value after, post value after → post' value after) :
    Completes easy prog post' state := by
  constructor
  intro answers supply
  obtain ⟨used, value, after, held, run⟩ := completes.run answers supply
  exact ⟨used, value, after, weaker value after held, run⟩

theorem completes_pure (value : α) (held : post value state) :
    Completes easy (pure value : Prog σ ω α) post state :=
  ⟨fun _ _ => ⟨0, value, state, held, fun _ => rfl⟩⟩

theorem completes_inspect (view : σ → α) (held : post (view state) state) :
    Completes easy (inspect view : Prog σ ω α) post state :=
  ⟨fun _ _ => ⟨0, view state, state, held, fun _ => rfl⟩⟩

theorem completes_call {effect : ω → σ → α × σ}
    (held : ∀ answer, easy answer → post (effect answer state).1 (effect answer state).2) :
    Completes easy (call effect) post state := by
  constructor
  intro answers supply
  exact ⟨1, _, _, held (answers 0) (supply 0), fun _ => rfl⟩

theorem completes_bind {first : Prog σ ω α} {next : α → Prog σ ω β} {post : β → σ → Prop}
    (completes : Completes easy first (fun value after => Completes easy (next value) post after) state) :
    Completes easy (first >>= next) post state := by
  constructor
  intro answers supply
  obtain ⟨used, value, middle, continues, run⟩ := completes.run answers supply
  obtain ⟨more, result, after, held, rerun⟩ :=
    continues.run (fun index => answers (used + index)) fun index => supply (used + index)
  refine ⟨used + more, result, after, held, fun rest => ?_⟩
  rw [bind_apply, supplied_add, List.append_assoc, run]
  exact rerun rest

/-- A loop completes when each turn that goes on makes the measure smaller. A
turn that has no answer at all must not go on. -/
theorem completes_loop {body : β → Prog σ ω (β ⊕ α)} (keep : β → σ → Prop) (size : β → σ → Nat)
    (waits : ∀ current state next after rest, body current state [] ≠ .returned (.inl next) after rest)
    (turn : ∀ current state, keep current state →
      Completes easy (body current) (fun result after => match result with
        | .inl next => keep next after ∧ size next after < size current state
        | .inr value => post value after) state)
    {start : β} (ready : keep start state) : Completes easy (loop body start) post state := by
  induction measured : size start state using Nat.strongRecOn generalizing start state with
  | ind bound ih =>
    constructor
    intro answers supply
    obtain ⟨used, result, middle, held, run⟩ := (turn start state ready).run answers supply
    cases result with
    | inr value => exact ⟨used, value, middle, held, fun rest => by rw [loop_eq, run]⟩
    | inl next =>
      obtain ⟨kept, smaller⟩ := held
      obtain ⟨more, value, after, final, rerun⟩ :=
        (ih _ (by omega) kept rfl).run (fun index => answers (used + index)) fun index => supply (used + index)
      have positive : used ≠ 0 := by
        intro none
        subst none
        exact waits _ _ _ _ _ (run [])
      refine ⟨used + more, value, after, final, fun rest => ?_⟩
      have shorter : (supplied (fun index => answers (used + index)) more ++ rest).length <
          (supplied answers (used + more) ++ rest).length := by
        simp [supplied]
        omega
      rw [loop_eq]
      rw [supplied_add, List.append_assoc] at shorter ⊢
      rw [run]
      simp only [shorter, ↓reduceIte]
      exact rerun rest

/-- A program that returns whatever follows the answers returns in one way only. -/
theorem returned_unique {prog : Prog σ ω α} {supply : Nat → ω} {first second : Nat} {value value' : α}
    {after after' : σ} (run : ∀ rest, prog state (supplied supply first ++ rest) = .returned value after rest)
    (again : ∀ rest, prog state (supplied supply second ++ rest) = .returned value' after' rest) :
    value = value' ∧ after = after' := by
  have same := run (supplied (fun index => supply (first + index)) second)
  rw [← supplied_add, Nat.add_comm, supplied_add, again] at same
  obtain ⟨rfl, rfl, -⟩ := Stop.returned.inj same
  exact ⟨rfl, rfl⟩

/-- The same answers cannot complete a program in two ways. -/
theorem Completes.and {prog : Prog σ ω α} (left : Completes easy prog post state)
    (right : Completes easy prog post' state) :
    Completes easy prog (fun value after => post value after ∧ post' value after) state := by
  constructor
  intro answers supply
  obtain ⟨used, value, after, held, run⟩ := left.run answers supply
  obtain ⟨other, value', after', held', run'⟩ := right.run answers supply
  obtain ⟨rfl, rfl⟩ := returned_unique run run'
  exact ⟨used, value, after, ⟨held, held'⟩, run⟩

/-- What holds of every return holds of the one that a program completes with. -/
theorem Completes.covered {prog : Prog σ ω α} {crash : σ → Prop} (completes : Completes easy prog post state)
    (spec : wp prog post' crash state) :
    Completes easy prog (fun value after => post value after ∧ post' value after) state := by
  constructor
  intro answers supply
  obtain ⟨used, value, after, held, run⟩ := completes.run answers supply
  exact ⟨used, value, after, ⟨held, spec.returned (run [])⟩, run⟩

theorem Completes.easier {easier : ω → Prop} {prog : Prog σ ω α} (completes : Completes easy prog post state)
    (weaker : ∀ answer, easier answer → easy answer) : Completes easier prog post state :=
  ⟨fun answers supply => completes.run answers fun index => weaker _ (supply index)⟩

end Prog

end CrashLogic
