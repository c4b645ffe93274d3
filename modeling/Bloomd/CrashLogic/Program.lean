/-! Programs that reach the outside world only through calls. The answers to the
calls form a list chosen by the environment; a program whose answers run out has
crashed between two calls, and only the outside state survives it. -/

namespace CrashLogic

/-- How a program stops. A return keeps the answers that were not used. -/
inductive Stop (σ ω α : Type) where
  | returned (value : α) (state : σ) (rest : List ω)
  | crashed (state : σ)

/-- The outside state in which a program stopped -/
def Stop.state {σ ω α : Type} : Stop σ ω α → σ
  | .returned _ state _ => state
  | .crashed state => state

def Stop.value {σ ω α : Type} : Stop σ ω α → Option α
  | .returned value _ _ => some value
  | .crashed _ => none

theorem Stop.returned_of_value {σ ω α β : Type} {stop : Stop σ ω α} {view : α → β} {seen : β}
    (given : stop.value.map view = some seen) :
    ∃ value state rest, stop = .returned value state rest ∧ view value = seen := by
  cases stop with
  | crashed state => cases given
  | returned value state rest => exact ⟨value, state, rest, rfl, Option.some.inj given⟩

def Prog (σ ω α : Type) : Type := σ → List ω → Stop σ ω α

namespace Prog

variable {σ ω α β : Type}

instance : Monad (Prog σ ω) where
  pure value := fun state rest => .returned value state rest
  bind first next := fun state answers =>
    match first state answers with
    | .returned value after rest => next value after rest
    | .crashed after => .crashed after

theorem pure_apply (value : α) (state : σ) (rest : List ω) :
    (pure value : Prog σ ω α) state rest = .returned value state rest := rfl

theorem bind_apply (first : Prog σ ω α) (next : α → Prog σ ω β) (state : σ) (answers : List ω) :
    (first >>= next) state answers =
      match first state answers with
      | .returned value after rest => next value after rest
      | .crashed after => .crashed after := rfl

instance : LawfulMonad (Prog σ ω) := LawfulMonad.mk' (Prog σ ω)
  (fun program => by
    funext state answers
    change (program >>= pure) state answers = _
    rw [bind_apply]
    cases program state answers <;> rfl)
  (fun value next => rfl)
  (fun first next later => by
    funext state answers
    simp only [bind_apply]
    cases first state answers <;> rfl)

theorem value_map (view : α → β) (program : Prog σ ω α) (state : σ) (answers : List ω) :
    ((view <$> program) state answers).value = (program state answers).value.map view := by
  rw [map_eq_pure_bind, bind_apply]
  cases program state answers <;> rfl

/-- One call: the next answer decides the reply and the change of state. -/
def call (effect : ω → σ → α × σ) : Prog σ ω α
  | state, [] => .crashed state
  | state, answer :: rest => .returned (effect answer state).1 (effect answer state).2 rest

/-- Look at the outside state without a call that could fail. -/
def inspect (view : σ → α) : Prog σ ω α :=
  fun state rest => .returned (view state) state rest

/-- Turns of a loop under a bound on their number. A turn that goes on has to
use up an answer, so the bound of `loop` is never what stops it. -/
def turns (body : β → Prog σ ω (β ⊕ α)) : Nat → β → Prog σ ω α
  | 0, _ => fun state _ => .crashed state
  | fuel + 1, current => fun state answers =>
    match body current state answers with
    | .crashed after => .crashed after
    | .returned (.inr value) after rest => .returned value after rest
    | .returned (.inl next) after rest =>
      if rest.length < answers.length then turns body fuel next after rest else .crashed after

/-- Repeat the body until it yields a result. -/
def loop (body : β → Prog σ ω (β ⊕ α)) (start : β) : Prog σ ω α :=
  fun state answers => turns body (answers.length + 1) start state answers

private theorem turns_enough (body : β → Prog σ ω (β ⊕ α)) (fuel : Nat) :
    ∀ (current : β) (state : σ) (answers : List ω), answers.length < fuel →
      turns body fuel current state answers = loop body current state answers := by
  induction fuel using Nat.strongRecOn with
  | ind fuel ih =>
    intro current state answers bound
    cases fuel with
    | zero => omega
    | succ fuel =>
      simp only [loop, turns]
      split
      · rfl
      · rfl
      · split
        · rename_i used
          rw [ih fuel (by omega) _ _ _ (by omega)]
          by_cases same : answers.length = fuel
          · rw [same, ih fuel (by omega) _ _ _ (by omega)]
          · rw [ih answers.length (by omega) _ _ _ used]
        · rfl

/-- The equation of a loop: its first turn, and then the loop again. -/
theorem loop_eq (body : β → Prog σ ω (β ⊕ α)) (current : β) (state : σ) (answers : List ω) :
    loop body current state answers =
      match body current state answers with
      | .crashed after => .crashed after
      | .returned (.inr value) after rest => .returned value after rest
      | .returned (.inl next) after rest =>
        if rest.length < answers.length then loop body next after rest else .crashed after := by
  simp only [loop, turns]
  split
  · rfl
  · rfl
  · split
    · rename_i used
      exact turns_enough body answers.length _ _ _ used
    · rfl

/-- What a loop does after its last turn may be done after the loop. -/
theorem loop_bind {γ : Type} (body : β → Prog σ ω (β ⊕ α)) (finish : α → Prog σ ω γ) (start : β) :
    loop (fun current => body current >>= fun result => match result with
      | .inl next => pure (.inl next)
      | .inr value => finish value >>= fun last => pure (.inr last)) start = loop body start >>= finish := by
  funext state answers
  induction size : answers.length using Nat.strongRecOn generalizing start state answers with
  | ind size ih =>
    rw [bind_apply, loop_eq, loop_eq, bind_apply]
    cases body start state answers with
    | crashed after => rfl
    | returned result after rest =>
      cases result with
      | inr value =>
        simp only [bind_apply, pure_apply]
        cases finish value after rest <;> rfl
      | inl next =>
        simp only [pure_apply]
        by_cases used : rest.length < answers.length
        · simp only [used, ↓reduceIte]
          rw [ih rest.length (by omega) next after rest rfl, bind_apply]
        · simp only [used, ↓reduceIte]

end Prog

end CrashLogic
