import Mathlib.Algebra.GroupWithZero.Nat
import Mathlib.Data.List.Perm.Basic

/-! Steps that are taken once for each index, in some order. When a step reads and
changes only the view of its own index, the order in which the steps are taken decides
neither whether they all succeed nor what the views show in the end. -/

namespace CrashLogic

variable {ι σ ν : Type} {step step' : ι → σ → σ → Prop} {view : ι → σ → ν} {good : σ → Prop}
  {start state last last' : σ} {indices indices' : List ι}

/-- The steps of these indices, one after another -/
inductive Runs (step : ι → σ → σ → Prop) : List ι → σ → σ → Prop where
  | done (state : σ) : Runs step [] state state
  | next {index : ι} {rest : List ι} {state middle last : σ} (first : step index state middle)
      (others : Runs step rest middle last) : Runs step (index :: rest) state last

/-- A step moves the view of its own index only, and keeps good states good. -/
structure Separate (view : ι → σ → ν) (good : σ → Prop) (step : ι → σ → σ → Prop) : Prop where
  keeps : ∀ {index state after}, step index state after → good state → good after
  frame : ∀ {index state after other}, step index state after → good state → other ≠ index →
    view other after = view other state

theorem Runs.keeps (runs : Runs step indices state last) (separate : Separate view good step) (held : good state) :
    good last := by
  induction runs with
  | done state => exact held
  | next first others ih => exact ih (separate.keeps first held)

theorem Runs.frame (runs : Runs step indices state last) (separate : Separate view good step) (held : good state)
    {other : ι} (missing : other ∉ indices) : view other last = view other state := by
  induction runs with
  | done state => rfl
  | next first others ih =>
    obtain ⟨different, missing⟩ := not_or.mp (mt List.mem_cons.mpr missing)
    rw [ih (separate.keeps first held) missing, separate.frame first held different]

/-- The step of an index is taken from a state that still shows the first view of it, and
what it shows after that step is what it shows in the end. -/
theorem Runs.own (runs : Runs step indices state last) (separate : Separate view good step) (unique : indices.Nodup)
    (held : good state) {index : ι} (member : index ∈ indices) :
    ∃ before after, good before ∧ view index before = view index state ∧ step index before after ∧
      view index last = view index after := by
  induction runs with
  | done state => cases member
  | @next own rest state middle last first others ih =>
    obtain ⟨fresh, unique⟩ := List.nodup_cons.mp unique
    by_cases here : index = own
    · subst here
      exact ⟨state, middle, held, rfl, first, others.frame separate (separate.keeps first held) fresh⟩
    · have later : index ∈ rest := (List.mem_cons.mp member).resolve_left here
      obtain ⟨before, after, fine, same, taken, shown⟩ := ih unique (separate.keeps first held) later
      exact ⟨before, after, fine, same.trans (separate.frame first held here), taken, shown⟩

/-- What one kind of step can do for an index, the other kind can do as well, wherever
the index still shows its first view. -/
def Enables (view : ι → σ → ν) (good : σ → Prop) (start : σ) (step step' : ι → σ → σ → Prop) : Prop :=
  ∀ {index state after other}, good state → good other → view index state = view index start →
    view index other = view index start → step index state after → ∃ reached, step' index other reached

/-- Both kinds of step lead an index from its first view to the same view. -/
def Agrees (view : ι → σ → ν) (good : σ → Prop) (start : σ) (step step' : ι → σ → σ → Prop) : Prop :=
  ∀ {index state after other reached}, good state → good other → view index state = view index start →
    view index other = view index start → step index state after → step' index other reached →
    view index after = view index reached

theorem Runs.permuted (runs : Runs step indices start last) (separate : Separate view good step)
    (separate' : Separate view good step') (enables : Enables view good start step step') (held : good start)
    (unique : indices.Nodup) (permuted : indices.Perm indices') : ∃ last', Runs step' indices' start last' := by
  have enabled : ∀ (rest : List ι), rest.Nodup → (∀ index ∈ rest, index ∈ indices) → ∀ state, good state →
      (∀ index ∈ rest, view index state = view index start) → ∃ last', Runs step' rest state last' := by
    intro rest
    induction rest with
    | nil => exact fun _ _ state _ _ => ⟨state, .done state⟩
    | cons index rest ih =>
      intro unique' known state fine shown
      obtain ⟨fresh, unique'⟩ := List.nodup_cons.mp unique'
      obtain ⟨before, after, good', same, taken, _⟩ := runs.own separate unique held (known index List.mem_cons_self)
      obtain ⟨middle, first⟩ := enables good' fine same (shown index List.mem_cons_self) taken
      have onward : ∀ other ∈ rest, view other middle = view other start := by
        intro other member
        have different : other ≠ index := fun same => fresh (same ▸ member)
        rw [separate'.frame first fine different, shown other (List.mem_cons_of_mem _ member)]
      obtain ⟨last', others⟩ := ih unique' (fun other member => known other (List.mem_cons_of_mem _ member)) middle
        (separate'.keeps first fine) onward
      exact ⟨last', .next first others⟩
  exact enabled indices' (permuted.nodup_iff.mp unique) (fun index member => permuted.mem_iff.mpr member) start held
    fun _ _ => rfl

theorem Runs.agree (runs : Runs step indices start last) (runs' : Runs step' indices' start last')
    (separate : Separate view good step) (separate' : Separate view good step')
    (agrees : Agrees view good start step step')
    (held : good start) (unique : indices.Nodup) (permuted : indices.Perm indices') (index : ι) :
    view index last = view index last' := by
  by_cases member : index ∈ indices
  · obtain ⟨before, after, fine, same, taken, shown⟩ := runs.own separate unique held member
    obtain ⟨before', after', fine', same', taken', shown'⟩ :=
      runs'.own separate' (permuted.nodup_iff.mp unique) held (permuted.mem_iff.mp member)
    rw [shown, shown', agrees fine fine' same same' taken taken']
  · rw [runs.frame separate held member, runs'.frame separate' held (mt permuted.mem_iff.mpr member)]

variable (start) in
/-- A counter that each step moves by what its own view shows afterwards -/
theorem Runs.count (count : σ → Nat) (weight : ν → Nat) (separate : Separate view good step)
    (counted : ∀ {index state after}, good state → view index state = view index start → step index state after →
      count after = count state + weight (view index after))
    (runs : Runs step indices state last) (held : good state) (unique : indices.Nodup)
    (shown : ∀ index ∈ indices, view index state = view index start) :
    count last = count state + (indices.map fun index => weight (view index last)).sum := by
  induction runs with
  | done state => simp
  | @next index rest state middle last first others ih =>
    obtain ⟨fresh, unique⟩ := List.nodup_cons.mp unique
    have fine := separate.keeps first held
    have onward : ∀ other ∈ rest, view other middle = view other start := by
      intro other member
      have different : other ≠ index := fun same => fresh (same ▸ member)
      rw [separate.frame first held different, shown other (List.mem_cons_of_mem _ member)]
    rw [ih fine unique onward, counted held (shown index List.mem_cons_self) first, List.map_cons, List.sum_cons,
      others.frame separate fine fresh, Nat.add_assoc]

end CrashLogic
