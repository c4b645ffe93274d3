import Bloomd.CrashLogic.Progress

/-! Programs whose accesses are checked: the value is `none` as soon as one of them is
out of range. -/

namespace CrashLogic

variable {σ ω α β γ : Type}

/-- The outcome of an access in the course of a program -/
def access (value : Option α) : OptionT (Prog σ ω) α := OptionT.mk (pure value)

/-- No access goes wrong, and the program is the one without checks. -/
def Safe (checked : OptionT (Prog σ ω) α) (plain : Prog σ ω α) : Prop := checked.run = some <$> plain

theorem access_bind (value : α) (next : α → OptionT (Prog σ ω) β) : access (some value) >>= next = next value := rfl

theorem safe_pure (value : α) : Safe (pure value : OptionT (Prog σ ω) α) (pure value) := by
  simp [Safe]

theorem safe_lift (program : Prog σ ω α) : Safe (OptionT.lift program) program := by
  simp [Safe]

/-- A safe first part that keeps its value in another form; afterwards only the values
that it can yield matter. -/
theorem Safe.bind_through {checked : OptionT (Prog σ ω) γ} {plain : Prog σ ω α} {view : α → γ} {good : α → Prop}
    {next : γ → OptionT (Prog σ ω) β} {plainNext : α → Prog σ ω β} (first : Safe checked (view <$> plain))
    (yields : ∀ {state answers value after rest}, plain state answers = .returned value after rest → good value)
    (later : ∀ value, good value → Safe (next (view value)) (plainNext value)) :
    Safe (checked >>= next) (plain >>= plainNext) := by
  unfold Safe at first later ⊢
  rw [OptionT.run_bind, first, Option.elimM, bind_map_left, bind_map_left, map_eq_pure_bind, bind_assoc]
  funext state answers
  rw [Prog.bind_apply, Prog.bind_apply]
  cases run : plain state answers with
  | crashed after => rfl
  | returned value after rest =>
    simp only [Option.elim]
    rw [later value (yields run), map_eq_pure_bind]

theorem Safe.bind {checked : OptionT (Prog σ ω) α} {plain : Prog σ ω α} {next : α → OptionT (Prog σ ω) β}
    {plainNext : α → Prog σ ω β} (first : Safe checked plain) (later : ∀ value, Safe (next value) (plainNext value)) :
    Safe (checked >>= next) (plain >>= plainNext) := by
  have through : Safe checked (id <$> plain) := by rwa [id_map]
  have nothing : ∀ {state answers value after rest}, plain state answers = .returned value after rest → True :=
    fun _ => trivial
  exact through.bind_through nothing fun value _ => later value

end CrashLogic
