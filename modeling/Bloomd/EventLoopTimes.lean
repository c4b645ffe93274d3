import Bloomd.EventLoopSemantics

/-! Idle clients: the turns of the main loop close those that moved nothing for longer than the
timeout, and no others. -/

namespace Bloomd

open CrashLogic

namespace Loop

section Times

variable {loop last : Loop} {index now early late : Nat}

/-- Nobody was active after a time, and who is connected was active shortly before it. -/
def Fresh (loop : Loop) (now : Nat) : Prop :=
  ∀ slot ∈ loop.slots, slot.lastActivity ≤ now ∧ (slot.connected = true → now ≤ slot.lastActivity + reqTimeoutMs)

def Before (loop : Loop) (now : Nat) : Prop := ∀ slot ∈ loop.slots, slot.lastActivity ≤ now

/-- The times that a run reads do not go back from one turn to the next, and the last ones of a
turn are its test for idle clients and the one of the sync. -/
inductive Clocked : Nat → List Wakeup → Nat → Prop where
  | done {now : Nat} : Clocked now [] now
  | interrupted {early late : Nat} {turns : List Wakeup} (clocked : Clocked early turns late) :
      Clocked early (.interrupted :: turns) late
  | polled {early expiry late syncNow : Nat} {listening : Bool} {arrivals : List Arrival} {readiness : Nat → Readiness}
      {answers : List Answer} {turns : List Wakeup} (forward : early ≤ expiry)
      (arrived : ∀ arrival ∈ arrivals, arrival.time ≤ expiry) (served : ∀ index, (readiness index).now ≤ expiry)
      (clocked : Clocked expiry turns late) :
      Clocked early (.polled listening arrivals readiness expiry syncNow answers :: turns) late

theorem Clocked.forward {turns : List Wakeup} (clocked : Clocked early turns late) : early ≤ late := by
  induction clocked with
  | done => exact Nat.le_refl _
  | interrupted clocked ih => exact ih
  | polled forward arrived served clocked ih => exact Nat.le_trans forward ih

theorem Before.set (before : loop.Before now) {slot : Slot} (bound : slot.lastActivity ≤ now) :
    ∀ other ∈ loop.slots.set index slot, other.lastActivity ≤ now := by
  intro other member
  rcases List.mem_or_eq_of_mem_set member with kept | rfl
  · exact before other kept
  · exact bound

theorem Before.closeClient (before : loop.Before now) (index : Nat) : (loop.closeClient index).Before now := by
  unfold Before
  cases found : loop.slots[index]? with
  | none =>
    rw [closeClient_none found]
    exact before
  | some slot =>
    rw [(closeClient_some found).1]
    exact before.set (Nat.zero_le now)

theorem Before.closeFd (before : loop.Before now) (fd : Nat) : (loop.closeFd fd).Before now := by
  unfold Before
  rw [(closeFd_same loop fd).1]
  exact before

theorem Before.acceptReady (before : loop.Before now) {arrivals : List Arrival}
    (arrived : ∀ arrival ∈ arrivals, arrival.time ≤ now) : (acceptReady arrivals loop).Before now := by
  apply @acceptReady_keeps (Before · now) arrivals _ _ loop before
  · intro loop fd held
    exact @Before.closeFd { loop with opened := fd :: loop.opened } now held fd
  · intro loop index fd time taken stream member fresh free held
    exact held.set (arrived _ member)

theorem Before.serveClient [Libm] (before : loop.Before now) {readiness : Readiness} (bound : readiness.now ≤ now)
    (served : loop.serveClient index readiness = some last) : last.Before now := by
  rcases serveClient_cases served with rfl | rfl |
    ⟨slot, code, client, socket, daemon, world, rest, found, state, run, ends⟩
  · exact before
  · exact before.closeClient index
  · have still : (loop.driven index slot client socket daemon world readiness.now).Before now := by
      apply before.set
      simp only
      split
      · exact bound
      · exact before slot (List.mem_of_getElem? found)
    rcases ends with ⟨full, rfl, rfl⟩ | ⟨errno, rfl, rfl⟩
    · exact still
    · exact still.closeClient index

/-- The test in 64 bits is the one that is meant. -/
theorem timedOut_iff {slot : Slot} (active : slot.lastActivity ≤ now) (range : now < 2 ^ 64) :
    timedOut slot now = true ↔ slot.connected = true ∧ slot.lastActivity + reqTimeoutMs < now := by
  have difference : (now + 2 ^ 64 - slot.lastActivity) % 2 ^ 64 = now - slot.lastActivity := by omega
  rw [timedOut, difference, Bool.and_eq_true, decide_eq_true_iff]
  refine and_congr_right fun _ => ?_
  omega

theorem Before.fresh (before : loop.Before now) (range : now < 2 ^ 64) :
    (loop.closeTimedOutClients now).Fresh now := by
  have active : (loop.closeTimedOutClients now).Before now :=
    @closeWhere_keeps (Before · now) (fun index held => held.closeClient index) _ _ loop before
  intro slot member
  refine ⟨active slot member, ?_⟩
  intro connected
  have kept := @closeWhere_clears (timedOut · now) (fun _ => rfl) loop slot member
  by_contra idle
  have expired := (timedOut_iff (active slot member) range).mpr ⟨connected, Nat.lt_of_not_le idle⟩
  exact Bool.false_ne_true (kept.symm.trans expired)

theorem Fresh.run [Libm] {turns : List Wakeup} (clocked : Clocked early turns late) (range : late < 2 ^ 64) :
    ∀ {loop : Loop}, loop.Fresh early → loop.run turns = some last → last.Fresh late := by
  induction clocked with
  | done =>
    intro loop fresh ran
    obtain rfl := Option.some.inj ran
    exact fresh
  | interrupted clocked ih => exact ih range
  | @polled early expiry late syncNow listening arrivals readiness answers turns forward arrived served clocked ih =>
    intro loop fresh ran
    simp only [Loop.run, Loop.turn] at ran
    split at ran
    · cases ran
    · rename_i reached turned
      split at turned
      · cases turned
      · rename_i middle stepped
        have before : loop.Before expiry := fun slot member => Nat.le_trans (fresh slot member).1 forward
        have accepted : (if listening then Loop.acceptReady arrivals loop else loop).Before expiry := by
          split
          · exact before.acceptReady arrived
          · exact before
        have driven : middle.Before expiry := @serveClients_keeps middle (Before · expiry) _ readiness
          (fun held serves => held.serveClient (served _) serves) _ _ accepted stepped
        have expired := driven.fresh (Nat.lt_of_le_of_lt clocked.forward range)
        obtain ⟨set, world, rest, _, rfl⟩ := syncLogs_some turned
        refine ih range ?_ ran
        exact expired

end Times

section Main

variable {daemon : Daemon} {world : World} {listenFd : Nat} {turns : List Wakeup} {loop : Loop}

/-- While the clock does not go back, whoever is connected after a turn was active within the
timeout before it; and the next test closes those, and only those, who were not by then. -/
theorem idle_clients_expire [Libm] {early late : Nat} (clocked : Clocked early turns late) (range : late < 2 ^ 64)
    (ran : (start daemon world listenFd).run turns = some loop) :
    (∀ slot ∈ loop.slots, slot.connected = true → slot.lastActivity ≤ late ∧ late ≤ slot.lastActivity + reqTimeoutMs) ∧
    ∀ now, late ≤ now → now < 2 ^ 64 → ∀ (index : Nat) (slot : Slot), loop.slots[index]? = some slot →
      (loop.closeTimedOutClients now).slots[index]? =
        some (if slot.connected = true ∧
          slot.lastActivity + reqTimeoutMs < now then .empty slot.socket else slot) := by
  have begun : (start daemon world listenFd).Fresh early := by
    intro slot member
    rw [List.eq_of_mem_replicate member]
    exact ⟨Nat.zero_le early, fun connected => absurd connected Bool.false_ne_true⟩
  have fresh := begun.run clocked range ran
  refine ⟨fun slot member connected => ⟨(fresh slot member).1, (fresh slot member).2 connected⟩, ?_⟩
  intro now later bound index slot found
  have active := Nat.le_trans (fresh slot (List.mem_of_getElem? found)).1 later
  have inside := List.mem_range.mpr (List.getElem?_eq_some_iff.mp found).1
  rw [closeTimedOutClients, closeWhere_slot, found]
  simp only [Option.map_some, inside, true_and, timedOut_iff active bound]

theorem clocked_demo : Clocked 0 demoTurns 5200 := by
  have waits : ∀ (index time : Nat) (readiness : Readiness), readiness.now ≤ time →
      (if index = 0 then readiness else quiet).now ≤ time := by
    intro index time readiness bound
    split
    · exact bound
    · exact Nat.zero_le time
  refine .polled (by decide) (by decide) (fun _ => Nat.zero_le _) (.interrupted ?_)
  refine .polled (by decide) (List.forall_mem_nil _) (fun index => waits index 3000 _ (by decide)) ?_
  refine .polled (by decide) (List.forall_mem_nil _) (fun index => waits index 5101 _ (by decide)) ?_
  exact .polled (by decide) (by decide) (fun index => waits index 5200 _ (by decide)) .done

theorem idle_clients_expire_demo : ∃ loop, @run exactLibm demoTurns (start emptyDaemon .empty 3) = some loop ∧
    demoEnd loop = ([5, 4, 3], some [66, 76, 77, 49, 1, 2, 1, 0, 7, 0, 0, 0, 0, 0, 0, 0]) ∧
    ∀ slot ∈ loop.slots, slot.connected = true → slot.lastActivity ≤ 5200 ∧
      5200 ≤ slot.lastActivity + reqTimeoutMs := by
  obtain ⟨loop, last, ran, same, _⟩ := ran_demo
  exact ⟨loop, ran, same, (@idle_clients_expire _ _ _ _ _ exactLibm 0 5200 clocked_demo (by decide) ran).1⟩

end Main

end Loop

end Bloomd
