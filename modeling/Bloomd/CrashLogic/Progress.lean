import Bloomd.CrashLogic.Completion

/-! Programs that return whatever their calls answer, as long as the calls are
not put off for ever. An easy answer settles a call; a loop may retry on the
others. -/

namespace CrashLogic

variable {σ ω α β : Type} {easy : ω → Prop} {good good' : α → Prop}

/-- However far the supply has been used, an easy answer is still to come. -/
def Recurring (easy : ω → Prop) (supply : Nat → ω) : Prop :=
  ∀ used, ∃ more, easy (supply (used + more))

theorem Recurring.later {supply : Nat → ω} (recurs : Recurring easy supply) (used : Nat) :
    Recurring easy fun index => supply (used + index) := by
  intro further
  obtain ⟨more, settled⟩ := recurs (used + further)
  refine ⟨more, ?_⟩
  rwa [Nat.add_assoc] at settled

namespace Prog

/-- From every state and with every supply in which easy answers recur, the
program returns, and only good values. -/
structure Returns (easy : ω → Prop) (prog : Prog σ ω α) (good : α → Prop) : Prop where
  yields : ∀ {state answers value after rest}, prog state answers = .returned value after rest → good value
  run : ∀ (state : σ) (supply : Nat → ω), Recurring easy supply → ∃ used value after,
    ∀ rest, prog state (supplied supply used ++ rest) = .returned value after rest

theorem Returns.mono {prog : Prog σ ω α} (returns : Returns easy prog good)
    (weaker : ∀ value, good value → good' value) : Returns easy prog good' :=
  ⟨fun returned => weaker _ (returns.yields returned), returns.run⟩

theorem Returns.wp {prog : Prog σ ω α} (returns : Returns easy prog good) (state : σ) :
    Prog.wp prog (fun value _ => good value) (fun _ => True) state := by
  constructor
  intro answers
  cases run : prog state answers with
  | returned value after rest => exact returns.yields run
  | crashed after => trivial

theorem Returns.completes {prog : Prog σ ω α} (returns : Returns easy prog good) {state : σ} :
    Prog.Completes easy prog (fun value _ => good value) state := by
  constructor
  intro answers supply
  obtain ⟨used, value, after, run⟩ := returns.run state answers fun later => ⟨0, supply later⟩
  exact ⟨used, value, after, returns.yields (run []), run⟩

theorem returns_pure {value : α} (held : good value) : Returns easy (pure value : Prog σ ω α) good := by
  constructor
  · intro state answers result after rest returned
    obtain ⟨rfl, -, -⟩ := Stop.returned.inj returned
    exact held
  · intro state supply recurs
    exact ⟨0, value, state, fun rest => rfl⟩

theorem returns_call {effect : ω → σ → α × σ} (held : ∀ answer state, good (effect answer state).1) :
    Returns easy (call effect) good := by
  constructor
  · intro state answers result after rest returned
    cases answers with
    | nil => cases returned
    | cons answer answers =>
      obtain ⟨rfl, -, -⟩ := Stop.returned.inj returned
      exact held answer state
  · intro state supply recurs
    exact ⟨1, _, _, fun rest => rfl⟩

theorem returns_bind {first : Prog σ ω α} {next : α → Prog σ ω β} {good' : β → Prop}
    (start : Returns easy first good) (continues : ∀ value, good value → Returns easy (next value) good') :
    Returns easy (first >>= next) good' := by
  constructor
  · intro state answers result after rest returned
    rw [bind_apply] at returned
    cases run : first state answers with
    | crashed middle =>
      rw [run] at returned
      cases returned
    | returned value middle left =>
      rw [run] at returned
      exact (continues value (start.yields run)).yields returned
  · intro state supply recurs
    obtain ⟨used, value, middle, run⟩ := start.run state supply recurs
    obtain ⟨more, result, after, rerun⟩ :=
      (continues value (start.yields (run []))).run middle _ (recurs.later used)
    refine ⟨used + more, result, after, fun rest => ?_⟩
    rw [bind_apply, supplied_add, List.append_assoc, run]
    exact rerun rest

/-- How a turn of a retrying loop may go on: one answer is used up, and the work
that is left gets smaller unless the answer put it off. -/
def Retries (easy : ω → Prop) (size : β → Nat) (body : β → Prog σ ω (β ⊕ α)) : Prop :=
  ∀ current state,
    (∃ value, ∀ answers, body current state answers = .returned (.inr value) state answers) ∨
    (∀ answer, ∃ result after,
      (∀ answers, body current state (answer :: answers) = .returned result after answers) ∧
      ∀ next, result = .inl next → size next ≤ size current ∧ (easy answer → size next < size current))

/-- The loop returns after some of the supplied answers. -/
def Ends (body : β → Prog σ ω (β ⊕ α)) (current : β) (state : σ) (supply : Nat → ω) : Prop :=
  ∃ used value after, ∀ rest, loop body current state (supplied supply used ++ rest) = .returned value after rest

theorem Retries.turn {size : β → Nat} {body : β → Prog σ ω (β ⊕ α)} (retries : Retries easy size body)
    {current : β} {state : σ} {supply : Nat → ω}
    (onward : ∀ next after, size next ≤ size current → (easy (supply 0) → size next < size current) →
      Ends body next after fun index => supply (1 + index)) : Ends body current state supply := by
  rcases retries current state with ⟨value, ends⟩ | goes
  · refine ⟨0, value, state, fun rest => ?_⟩
    rw [loop_eq, ends]
    rfl
  · obtain ⟨result, after, turned, smaller⟩ := goes (supply 0)
    cases result with
    | inr value =>
      refine ⟨1, value, after, fun rest => ?_⟩
      change loop body current state (supply 0 :: rest) = _
      rw [loop_eq, turned]
    | inl next =>
      obtain ⟨within, less⟩ := smaller next rfl
      obtain ⟨used, value, final, run⟩ := onward next after within less
      refine ⟨1 + used, value, final, fun rest => ?_⟩
      rw [supplied_add, List.append_assoc]
      change loop body current state (supply 0 :: _) = _
      rw [loop_eq, turned]
      simp only [List.length_cons, Nat.lt_succ_self, ↓reduceIte]
      exact run rest

/-- The induction is on the work that is left and, inside it, on the distance to
the next easy answer. -/
theorem Retries.ends {size : β → Nat} {body : β → Prog σ ω (β ⊕ α)} (retries : Retries easy size body)
    (bound : Nat) : ∀ (wait : Nat) (current : β) (state : σ) (supply : Nat → ω), size current ≤ bound →
      Recurring easy supply → easy (supply wait) → Ends body current state supply := by
  induction bound using Nat.strongRecOn with
  | ind bound smaller =>
    intro wait
    induction wait with
    | zero =>
      intro current state supply within recurs settled
      apply retries.turn
      intro next after _ less
      obtain ⟨more, soon⟩ := (recurs.later 1) 0
      exact smaller (size next) (by have := less settled; omega) (0 + more) next after _ le_rfl (recurs.later 1) soon
    | succ wait ih =>
      intro current state supply within recurs settled
      apply retries.turn
      intro next after same _
      apply ih next after _ (by omega) (recurs.later 1)
      rwa [Nat.add_comm] at settled

theorem returns_loop {body : β → Prog σ ω (β ⊕ α)} (size : β → Nat) (retries : Retries easy size body)
    (start : β) : Returns easy (loop body start) fun _ => True := by
  constructor
  · intros
    trivial
  · intro state supply recurs
    obtain ⟨wait, settled⟩ := recurs 0
    exact retries.ends (size start) (0 + wait) start state supply le_rfl recurs settled

end Prog

end CrashLogic
