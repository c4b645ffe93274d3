import Bloomd.CrashLogic.Program

/-! Preconditions that cover every return and every crash point. The crash
condition has to hold after each call, because the next answer may be missing. -/

namespace CrashLogic

variable {σ ω α β : Type} {post post' : α → σ → Prop} {crash crash' : σ → Prop} {state : σ}

def Stop.Meets (post : α → σ → Prop) (crash : σ → Prop) : Stop σ ω α → Prop
  | .returned value state _ => post value state
  | .crashed state => crash state

namespace Prog

/-- Whatever the calls answer, a return satisfies `post` and a crash leaves
a state that satisfies `crash`. -/
structure wp (prog : Prog σ ω α) (post : α → σ → Prop) (crash : σ → Prop) (state : σ) : Prop where
  covers : ∀ answers, (prog state answers).Meets post crash

theorem wp.returned {prog : Prog σ ω α} (spec : wp prog post crash state)
    (run : prog state answers = .returned value after rest) : post value after := by
  have covered := spec.covers answers
  rwa [run] at covered

theorem wp.crashed {prog : Prog σ ω α} (spec : wp prog post crash state)
    (run : prog state answers = .crashed after) : crash after := by
  have covered := spec.covers answers
  rwa [run] at covered

theorem wp.stops {prog : Prog σ ω α} (spec : wp prog (fun _ => crash) crash state)
    (answers : List ω) : crash (prog state answers).state := by
  cases run : prog state answers with
  | returned value after rest => exact spec.returned run
  | crashed after => exact spec.crashed run

theorem wp.mono {prog : Prog σ ω α} (spec : wp prog post crash state)
    (returns : ∀ value after, post value after → post' value after)
    (crashes : ∀ after, crash after → crash' after) : wp prog post' crash' state := by
  constructor
  intro answers
  cases run : prog state answers with
  | returned value after rest => exact returns value after (spec.returned run)
  | crashed after => exact crashes after (spec.crashed run)

theorem wp.and {prog : Prog σ ω α} (left : wp prog post crash state)
    (right : wp prog post' crash' state) :
    wp prog (fun value after => post value after ∧ post' value after)
      (fun after => crash after ∧ crash' after) state := by
  constructor
  intro answers
  cases run : prog state answers with
  | returned value after rest => exact ⟨left.returned run, right.returned run⟩
  | crashed after => exact ⟨left.crashed run, right.crashed run⟩

theorem wp_trivial (prog : Prog σ ω α) : wp prog (fun _ _ => True) (fun _ => True) state := by
  constructor
  intro answers
  cases prog state answers with
  | returned value after rest => trivial
  | crashed after => trivial

@[simp] theorem wp_pure (value : α) : wp (pure value : Prog σ ω α) post crash state ↔ post value state :=
  ⟨fun spec => spec.covers [], fun done => ⟨fun _ => done⟩⟩

@[simp] theorem wp_inspect (view : σ → α) :
    wp (inspect view : Prog σ ω α) post crash state ↔ post (view state) state :=
  ⟨fun spec => spec.covers [], fun done => ⟨fun _ => done⟩⟩

@[simp] theorem wp_call (effect : ω → σ → α × σ) :
    wp (call effect) post crash state ↔
      crash state ∧ ∀ answer, post (effect answer state).1 (effect answer state).2 := by
  constructor
  · intro spec
    exact ⟨spec.covers [], fun answer => spec.covers [answer]⟩
  · rintro ⟨before, after⟩
    constructor
    intro answers
    cases answers with
    | nil => exact before
    | cons answer rest => exact after answer

theorem wp_bind {first : Prog σ ω α} {next : α → Prog σ ω β} {post : β → σ → Prop}
    (spec : wp first (fun value after => wp (next value) post crash after) crash state) :
    wp (first >>= next) post crash state := by
  constructor
  intro answers
  change Stop.Meets post crash (match first state answers with
    | .returned value after rest => next value after rest
    | .crashed after => .crashed after)
  cases run : first state answers with
  | returned value after rest => exact (spec.returned run).covers rest
  | crashed after => exact spec.crashed run

/-- What holds where the first program stopped is kept by the second one. -/
theorem bind_stops {first : Prog σ ω α} {next : α → Prog σ ω β} {answers : List ω}
    (reached : crash (first state answers).state)
    (onward : ∀ value after, crash after → wp (next value) (fun _ => crash) crash after) :
    crash ((first >>= next) state answers).state := by
  rw [bind_apply]
  cases run : first state answers with
  | crashed after =>
    rw [run] at reached
    exact reached
  | returned value after rest =>
    rw [run] at reached
    exact (onward value after reached).stops rest

/-- Two continuations of a program need to agree only on what it can yield. -/
theorem bind_eq_of_yields {first : Prog σ ω α} {next next' : α → Prog σ ω β} {good : α → Prop}
    (yields : ∀ {state answers value after rest}, first state answers = .returned value after rest → good value)
    (same : ∀ value, good value → next value = next' value) : first >>= next = first >>= next' := by
  funext state answers
  rw [bind_apply, bind_apply]
  cases run : first state answers with
  | crashed after => rfl
  | returned value after rest =>
    dsimp only
    rw [same value (yields run)]

/-- A loop keeps what each of its turns keeps. -/
theorem wp_loop {body : β → Prog σ ω (β ⊕ α)} (keep : β → σ → Prop)
    (turn : ∀ current state, keep current state →
      wp (body current) (fun result after => match result with
        | .inl next => keep next after ∧ crash after
        | .inr value => post value after) crash state)
    {start : β} (ready : keep start state) : wp (loop body start) post crash state := by
  constructor
  intro answers
  induction size : answers.length using Nat.strongRecOn generalizing start state answers with
  | ind size ih =>
    rw [loop_eq]
    cases run : body start state answers with
    | crashed after => exact (turn start state ready).crashed run
    | returned result after rest =>
      have first := (turn start state ready).returned run
      cases result with
      | inr value => exact first
      | inl next =>
        obtain ⟨kept, safe⟩ := first
        by_cases used : rest.length < answers.length
        · simp only [used, ↓reduceIte]
          exact ih rest.length (by omega) kept rest rfl
        · simp only [used, ↓reduceIte]
          exact safe

end Prog

end CrashLogic
