import Bloomd.CrashLogic.Progress

/-! Runs whose calls may be put off but not refused. The allowed answers form an
endless supply in which easy ones recur, and a program settles when it returns
after finitely many of them. -/

namespace CrashLogic

variable {σ ω α β : Type} {allowed easy : ω → Prop} {post post' : α → σ → Prop} {state : σ}

/-- A supply of allowed answers in which easy ones recur -/
structure Patient (allowed easy : ω → Prop) (supply : Nat → ω) : Prop where
  allowed : ∀ index, allowed (supply index)
  recurs : Recurring easy supply

theorem Patient.later {supply : Nat → ω} (patient : Patient allowed easy supply) (used : Nat) :
    Patient allowed easy fun index => supply (used + index) :=
  ⟨fun index => patient.allowed (used + index), patient.recurs.later used⟩

namespace Prog

/-- With a patient supply the program returns and its result satisfies `post`. -/
structure Settles (allowed easy : ω → Prop) (prog : Prog σ ω α) (post : α → σ → Prop) (state : σ) : Prop where
  run : ∀ supply, Patient allowed easy supply → ∃ used value after, post value after ∧
    ∀ rest, prog state (supplied supply used ++ rest) = .returned value after rest

theorem Settles.mono {prog : Prog σ ω α} (settles : Settles allowed easy prog post state)
    (weaker : ∀ value after, post value after → post' value after) : Settles allowed easy prog post' state := by
  constructor
  intro supply patient
  obtain ⟨used, value, after, held, run⟩ := settles.run supply patient
  exact ⟨used, value, after, weaker value after held, run⟩

theorem settles_pure (value : α) (held : post value state) :
    Settles allowed easy (pure value : Prog σ ω α) post state :=
  ⟨fun _ _ => ⟨0, value, state, held, fun _ => rfl⟩⟩

theorem settles_call {effect : ω → σ → α × σ}
    (held : ∀ answer, allowed answer → post (effect answer state).1 (effect answer state).2) :
    Settles allowed easy (call effect) post state := by
  constructor
  intro supply patient
  exact ⟨1, _, _, held (supply 0) (patient.allowed 0), fun _ => rfl⟩

theorem settles_bind {first : Prog σ ω α} {next : α → Prog σ ω β} {post : β → σ → Prop}
    (settles : Settles allowed easy first (fun value after => Settles allowed easy (next value) post after) state) :
    Settles allowed easy (first >>= next) post state := by
  constructor
  intro supply patient
  obtain ⟨used, value, middle, continues, run⟩ := settles.run supply patient
  obtain ⟨more, result, after, held, rerun⟩ := continues.run _ (patient.later used)
  refine ⟨used + more, result, after, held, fun rest => ?_⟩
  rw [bind_apply, supplied_add, List.append_assoc, run]
  exact rerun rest

/-- A turn that makes at most one call: an easy answer makes the measure smaller,
and any other allowed answer does not make it larger. -/
def Advances (allowed easy : ω → Prop) (body : β → Prog σ ω (β ⊕ α)) (keep : β → σ → Prop) (size : β → Nat)
    (post : α → σ → Prop) (current : β) (state : σ) : Prop :=
  (∃ value, post value state ∧ ∀ answers, body current state answers = .returned (.inr value) state answers) ∨
  (∀ answer, allowed answer → ∃ result after,
    (∀ answers, body current state (answer :: answers) = .returned result after answers) ∧
    match result with
    | .inl next => keep next after ∧ size next ≤ size current ∧ (easy answer → size next < size current)
    | .inr value => post value after)

section Loop

variable {body : β → Prog σ ω (β ⊕ α)} {keep : β → σ → Prop}

/-- The loop returns after some of the supplied answers. -/
def Reaches (body : β → Prog σ ω (β ⊕ α)) (post : α → σ → Prop) (current : β) (state : σ) (supply : Nat → ω) : Prop :=
  ∃ used value after, post value after ∧
    ∀ rest, loop body current state (supplied supply used ++ rest) = .returned value after rest

theorem Advances.reaches {size : β → Nat} {current : β} {supply : Nat → ω}
    (advances : Advances allowed easy body keep size post current state) (patient : Patient allowed easy supply)
    (onward : ∀ next after, keep next after → size next ≤ size current → (easy (supply 0) → size next < size current) →
      Reaches body post next after fun index => supply (1 + index)) : Reaches body post current state supply := by
  rcases advances with ⟨value, held, ends⟩ | goes
  · refine ⟨0, value, state, held, fun rest => ?_⟩
    rw [loop_eq, ends]
    rfl
  · obtain ⟨result, middle, turned, held⟩ := goes (supply 0) (patient.allowed 0)
    cases result with
    | inr value =>
      refine ⟨1, value, middle, held, fun rest => ?_⟩
      change loop body current state (supply 0 :: rest) = _
      rw [loop_eq, turned]
    | inl next =>
      obtain ⟨kept, within, less⟩ := held
      obtain ⟨used, value, after, final, run⟩ := onward next middle kept within less
      refine ⟨1 + used, value, after, final, fun rest => ?_⟩
      rw [supplied_add, List.append_assoc]
      change loop body current state (supply 0 :: _) = _
      rw [loop_eq, turned]
      simp only [List.length_cons, Nat.lt_succ_self, ↓reduceIte]
      exact run rest

/-- The induction is on the work that is left and, inside it, on the distance to
the next easy answer. -/
theorem reaches_of_advances (size : β → Nat)
    (turn : ∀ current state, keep current state → Advances allowed easy body keep size post current state)
    (bound : Nat) :
    ∀ (wait : Nat) (current : β) (state : σ) (supply : Nat → ω), keep current state → size current ≤ bound →
      Patient allowed easy supply → easy (supply wait) → Reaches body post current state supply := by
  induction bound using Nat.strongRecOn with
  | ind bound smaller =>
    intro wait
    induction wait with
    | zero =>
      intro current state supply ready within patient settled
      apply (turn current state ready).reaches patient
      intro next after kept _ less
      obtain ⟨more, soon⟩ := (patient.later 1).recurs 0
      have shrunk := less settled
      exact smaller (size next) (by omega) (0 + more) next after _ kept le_rfl (patient.later 1) soon
    | succ wait ih =>
      intro current state supply ready within patient settled
      apply (turn current state ready).reaches patient
      intro next after kept same _
      apply ih next after _ kept (by omega) (patient.later 1)
      rwa [Nat.add_comm] at settled

/-- A loop whose turns make one call each settles when easy answers advance it. -/
theorem settles_retry (keep : β → σ → Prop) (size : β → Nat)
    (turn : ∀ current state, keep current state → Advances allowed easy body keep size post current state)
    {start : β} (ready : keep start state) : Settles allowed easy (loop body start) post state := by
  constructor
  intro supply patient
  obtain ⟨wait, settled⟩ := patient.recurs 0
  exact reaches_of_advances size turn (size start) (0 + wait) start state supply ready le_rfl patient settled

/-- A loop settles when each turn settles and, if it goes on, makes the measure
smaller. A turn that has no answer at all must not go on. -/
theorem settles_loop (keep : β → σ → Prop) (size : β → Nat)
    (waits : ∀ current state next after rest, body current state [] ≠ .returned (.inl next) after rest)
    (turn : ∀ current state, keep current state →
      Settles allowed easy (body current) (fun result after => match result with
        | .inl next => keep next after ∧ size next < size current
        | .inr value => post value after) state)
    {start : β} (ready : keep start state) : Settles allowed easy (loop body start) post state := by
  induction measured : size start using Nat.strongRecOn generalizing start state with
  | ind bound ih =>
    constructor
    intro supply patient
    obtain ⟨used, result, middle, held, run⟩ := (turn start state ready).run supply patient
    cases result with
    | inr value => exact ⟨used, value, middle, held, fun rest => by rw [loop_eq, run]⟩
    | inl next =>
      obtain ⟨kept, smaller⟩ := held
      obtain ⟨more, value, after, final, rerun⟩ := (ih _ (by omega) kept rfl).run _ (patient.later used)
      have positive : used ≠ 0 := by
        intro none
        subst none
        exact waits _ _ _ _ _ (run [])
      refine ⟨used + more, value, after, final, fun rest => ?_⟩
      have shorter : (supplied (fun index => supply (used + index)) more ++ rest).length <
          (supplied supply (used + more) ++ rest).length := by
        simp [supplied]
        omega
      rw [loop_eq]
      rw [supplied_add, List.append_assoc] at shorter ⊢
      rw [run]
      simp only [shorter, ↓reduceIte]
      exact rerun rest

end Loop

end Prog

end CrashLogic
