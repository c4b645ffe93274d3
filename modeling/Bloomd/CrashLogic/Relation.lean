import Bloomd.CrashLogic.Weakest
import Mathlib.Order.Defs.Unbundled

/-! Programs that move the outside state only along a preorder, wherever they
stop. A frame condition is such a preorder: the part of the state that a program
does not touch stays equal. -/

namespace CrashLogic

variable {σ ω α β : Type} {moves : σ → σ → Prop} {good good' : α → Prop} {state : σ}

namespace Prog

/-- From any state, whatever the calls answer, the program stops in a state
related to the one it started in, and a returned value is good. -/
def Keeps (moves : σ → σ → Prop) (prog : Prog σ ω α) (good : α → Prop) : Prop :=
  ∀ state, wp prog (fun value after => good value ∧ moves state after) (moves state) state

theorem Keeps.stops {prog : Prog σ ω α} (keeps : Keeps moves prog good) (state : σ)
    (answers : List ω) : moves state (prog state answers).state := by
  have covered := (keeps state).covers answers
  cases run : prog state answers with
  | returned value after rest =>
    rw [run] at covered
    exact covered.2
  | crashed after => rwa [run] at covered

theorem Keeps.mono {prog : Prog σ ω α} (keeps : Keeps moves prog good)
    (better : ∀ value, good value → good' value) : Keeps moves prog good' :=
  fun state => (keeps state).mono (fun value _ held => ⟨better value held.1, held.2⟩) fun _ held => held

theorem Keeps.call {effect : ω → σ → α × σ} [Std.Refl moves]
    (step : ∀ answer state, good (effect answer state).1 ∧ moves state (effect answer state).2) :
    Keeps moves (call effect) good :=
  fun state => (wp_call effect).mpr ⟨refl state, fun answer => step answer state⟩

theorem Keeps.inspect [Std.Refl moves] (view : σ → α) :
    Keeps moves (inspect view : Prog σ ω α) fun _ => True :=
  fun state => (wp_inspect view).mpr ⟨trivial, refl state⟩

theorem Keeps.pure [Std.Refl moves] {value : α} (held : good value) :
    Keeps moves (Pure.pure value : Prog σ ω α) good :=
  fun state => (wp_pure value).mpr ⟨held, refl state⟩

theorem Keeps.bind [IsTrans σ moves] {first : Prog σ ω α} {next : α → Prog σ ω β}
    {good' : β → Prop} (start : Keeps moves first good)
    (continues : ∀ value, good value → Keeps moves (next value) good') :
    Keeps moves (first >>= next) good' := by
  intro state
  refine wp_bind ((start state).mono ?_ fun _ moved => moved)
  rintro value middle ⟨held, moved⟩
  exact (continues value held middle).mono
    (fun _ _ more => ⟨more.1, IsTrans.trans _ _ _ moved more.2⟩)
    fun _ more => IsTrans.trans _ _ _ moved more

theorem Keeps.loop [IsPreorder σ moves] {body : β → Prog σ ω (β ⊕ α)} (ready : β → Prop)
    (turn : ∀ current, ready current → Keeps moves (body current) fun result =>
      match result with
      | .inl next => ready next
      | .inr value => good value)
    {start : β} (held : ready start) : Keeps moves (loop body start) good := by
  intro state
  refine wp_loop (fun current middle => ready current ∧ moves state middle) ?_ ⟨held, refl state⟩
  rintro current middle ⟨held, moved⟩
  refine (turn current held middle).mono ?_ fun _ more => IsTrans.trans _ _ _ moved more
  rintro result after ⟨held, more⟩
  cases result with
  | inl next => exact ⟨⟨held, IsTrans.trans _ _ _ moved more⟩, IsTrans.trans _ _ _ moved more⟩
  | inr value => exact ⟨held, IsTrans.trans _ _ _ moved more⟩

/-- A postcondition and a relation that the program keeps hold together. -/
theorem wp.keeps {prog : Prog σ ω α} {post : α → σ → Prop} {crash : σ → Prop}
    (spec : wp prog post crash state) (keeps : Keeps moves prog good) :
    wp prog (fun value after => post value after ∧ good value ∧ moves state after)
      (fun after => crash after ∧ moves state after) state :=
  spec.and (keeps state)

end Prog

end CrashLogic
