import Bloomd.EventLoopSemantics
import Mathlib.Data.List.Perm.Basic

/-! The main loop keeps account of its sockets: every descriptor that `accept` gave is closed once,
and none that is not there is closed, though the system gives the same descriptors again. -/

namespace Bloomd

open CrashLogic

namespace Loop

section Descriptors

variable {loop last : Loop} {index : Nat} {slot other : Slot}

/-- The account of the sockets: open are the listening one and one for each connected client,
and nothing else was ever closed. -/
structure Tidy (loop : Loop) : Prop where
  unmisused : loop.misused = 0
  distinct : loop.opened.Nodup
  owned : loop.opened.Perm (loop.listenFd :: loop.slots.filterMap Slot.fd)
  held : ∀ slot ∈ loop.slots, slot.connected = slot.fd.isSome

/-- The descriptors of the other slots -/
theorem filterMap_set (found : loop.slots[index]? = some slot) (other : Slot) : ∃ rest,
    (loop.slots.filterMap Slot.fd).Perm (slot.fd.toList ++ rest) ∧
    ((loop.slots.set index other).filterMap Slot.fd).Perm (other.fd.toList ++ rest) := by
  obtain ⟨inside, same⟩ := List.getElem?_eq_some_iff.mp found
  have front : ∀ slot : Slot, (slot :: loop.slots.eraseIdx index).filterMap Slot.fd =
      slot.fd.toList ++ (loop.slots.eraseIdx index).filterMap Slot.fd := by
    intro slot
    rw [List.filterMap_cons]
    cases slot.fd <;> rfl
  refine ⟨(loop.slots.eraseIdx index).filterMap Slot.fd, ?_, ?_⟩
  · have split := (List.getElem_cons_eraseIdx_perm inside).filterMap Slot.fd
    rw [same, front] at split
    exact split.symm
  · have split := (List.set_perm_cons_eraseIdx inside other).filterMap Slot.fd
    rw [front] at split
    exact split

theorem Tidy.closeClient (tidy : loop.Tidy) (index : Nat) : (loop.closeClient index).Tidy := by
  cases found : loop.slots[index]? with
  | none =>
    rw [closeClient_none found]
    exact tidy
  | some slot =>
    obtain ⟨rest, before, after⟩ := filterMap_set found (.empty slot.socket)
    have held : ∀ other ∈ loop.slots.set index (.empty slot.socket), other.connected = other.fd.isSome := by
      intro other member
      rcases List.mem_or_eq_of_mem_set member with kept | rfl
      · exact tidy.held other kept
      · rfl
    simp only [Loop.closeClient, found]
    cases descriptor : slot.fd with
    | none =>
      rw [descriptor] at before
      exact ⟨tidy.unmisused, tidy.distinct, tidy.owned.trans ((before.trans after.symm).cons _), held⟩
    | some fd =>
      rw [descriptor] at before
      have order := tidy.owned.trans (before.cons _)
      have opened : fd ∈ loop.opened := order.mem_iff.mpr (List.mem_cons_of_mem _ List.mem_cons_self)
      have unlike : loop.listenFd ≠ fd := by
        have separate := (order.nodup_iff.mp tidy.distinct)
        rintro same
        exact (List.nodup_cons.mp separate).1 (same ▸ List.mem_cons_self)
      simp only [Option.elim_some, Loop.closeFd, opened, ↓reduceIte]
      refine ⟨tidy.unmisused, tidy.distinct.erase fd, ?_, held⟩
      have erased := order.erase fd
      rw [List.erase_cons_tail (by simpa using unlike)] at erased
      simp only [Option.toList_some, List.singleton_append, List.erase_cons_head] at erased
      exact erased.trans (after.symm.cons _)

/-- A descriptor that was just given can be closed again. -/
theorem Tidy.dropped (tidy : loop.Tidy) (fd : Nat) :
    (Loop.closeFd { loop with opened := fd :: loop.opened } fd).Tidy := by
  simp only [Loop.closeFd, List.mem_cons_self, ↓reduceIte, List.erase_cons_head]
  exact ⟨tidy.unmisused, tidy.distinct, tidy.owned, tidy.held⟩

theorem Tidy.initClient (tidy : loop.Tidy) {fd : Nat} (fresh : fd ∉ loop.opened)
    (found : loop.slots[index]? = some slot) (free : slot.connected = false) (stream : Bytes) (now : Nat) :
    (Loop.initClient { loop with opened := fd :: loop.opened } index fd stream now).Tidy := by
  have none : slot.fd = none := by
    have held := tidy.held slot (List.mem_of_getElem? found)
    rw [free] at held
    exact Option.isSome_eq_false_iff.mp held.symm |> Option.isNone_iff_eq_none.mp
  obtain ⟨rest, before, after⟩ := filterMap_set found ⟨(accepted stream).1, (accepted stream).2, some fd, now⟩
  rw [none] at before
  refine ⟨tidy.unmisused, List.nodup_cons.mpr ⟨fresh, tidy.distinct⟩, ?_, ?_⟩
  · have order := (tidy.owned.trans (before.cons _)).cons fd
    exact (order.trans (List.Perm.swap _ _ _)).trans (after.symm.cons _)
  · intro other member
    rcases List.mem_or_eq_of_mem_set member with kept | rfl
    · exact tidy.held other kept
    · rfl

theorem Tidy.serveClient [Libm] (tidy : loop.Tidy) {readiness : Readiness}
    (served : loop.serveClient index readiness = some last) : last.Tidy := by
  rcases serveClient_cases served with rfl | rfl |
    ⟨slot, code, client, socket, daemon, world, rest, found, state, run, ends⟩
  · exact tidy
  · exact tidy.closeClient index
  · have kept := (wp_driveClient_open state).returned run
    have still : (loop.driven index slot client socket daemon world readiness.now).Tidy := by
      obtain ⟨others, before, after⟩ := filterMap_set found
        ⟨client, socket, slot.fd, if moved slot.socket socket then readiness.now else slot.lastActivity⟩
      refine ⟨tidy.unmisused, tidy.distinct, tidy.owned.trans ((before.trans after.symm).cons _), ?_⟩
      intro other member
      rcases List.mem_or_eq_of_mem_set member with same | rfl
      · exact tidy.held other same
      · have held := tidy.held slot (List.mem_of_getElem? found)
        have connected : slot.connected = true := by simpa [Slot.connected] using state
        rw [← held, connected]
        simpa [Slot.connected] using kept
    rcases ends with ⟨full, rfl, rfl⟩ | ⟨errno, rfl, rfl⟩
    · exact still
    · exact still.closeClient index

theorem Tidy.syncLogs (tidy : loop.Tidy) {now : Nat} {force : Bool} {answers : List Answer}
    (synced : loop.syncLogs now force answers = some last) : last.Tidy := by
  obtain ⟨set, world, rest, run, rfl⟩ := syncLogs_some synced
  exact ⟨tidy.unmisused, tidy.distinct, tidy.owned, tidy.held⟩

theorem Tidy.admit (tidy : loop.Tidy) {fd : Nat} (fresh : fd ∉ loop.opened) (free : loop.findFreeClient = some index)
    (stream : Bytes) (now : Nat) :
    (Loop.initClient { loop with opened := fd :: loop.opened } index fd stream now).Tidy := by
  obtain ⟨inside, idle, _⟩ := List.findIdx?_eq_some_iff_getElem.mp free
  apply tidy.initClient fresh (List.getElem?_eq_getElem inside)
  simpa [Slot.connected] using idle

theorem tidy_kept [Libm] : Kept Tidy where
  accepts _ tidy := acceptReady_keeps (fun fd held => held.dropped fd)
    (fun _ fresh free held => held.admit fresh free _ _) tidy
  serves tidy served := tidy.serveClient served
  closes index tidy := tidy.closeClient index
  syncs tidy synced := tidy.syncLogs synced

theorem start_tidy (daemon : Daemon) (world : World) (listenFd : Nat) : (start daemon world listenFd).Tidy := by
  have none : (List.replicate maxClients (Slot.empty ⟨[], [], []⟩)).filterMap Slot.fd = [] := by
    rw [List.filterMap_eq_nil_iff]
    intro slot member
    rw [List.eq_of_mem_replicate member]
    rfl
  refine ⟨rfl, List.nodup_singleton _, ?_, ?_⟩
  · simp only [start, none]
    exact List.Perm.refl _
  · intro slot member
    rw [List.eq_of_mem_replicate member]
    rfl

/-- The end of `main` leaves no socket open. -/
theorem Tidy.shutdown [Libm] (tidy : loop.Tidy) {now : Nat} {answers : List Answer}
    (ended : loop.shutdown now answers = some last) : last.opened = [] ∧ last.misused = 0 := by
  obtain ⟨middle, rfl, still, idle⟩ := tidy_kept.shutdown tidy ended
  have none : middle.slots.filterMap Slot.fd = [] := by
    rw [List.filterMap_eq_nil_iff]
    intro slot member
    have held := still.held slot member
    rw [idle slot member] at held
    exact Option.isNone_iff_eq_none.mp (Option.isSome_eq_false_iff.mp held.symm)
  have owned := still.owned
  rw [none] at owned
  have alone := List.perm_singleton.mp owned
  simp only [Loop.closeFd, alone, List.mem_singleton, ↓reduceIte, List.erase_cons_head, still.unmisused, and_self]

end Descriptors

section Main

variable {daemon : Daemon} {world : World} {listenFd : Nat} {turns : List Wakeup} {loop : Loop}

/-- In every run open are the listening socket and one of each connected client, each of them
once, and no other descriptor was ever closed; and the end of `main` closes them all. -/
theorem sockets_accounted [Libm] (ran : (start daemon world listenFd).run turns = some loop) :
    loop.misused = 0 ∧ loop.opened.Nodup ∧ loop.opened.Perm (loop.listenFd :: loop.slots.filterMap Slot.fd) ∧
    (∀ slot ∈ loop.slots, slot.connected = slot.fd.isSome) ∧
    ∀ now outcomes last, loop.shutdown now outcomes = some last → last.opened = [] ∧ last.misused = 0 := by
  have tidy := tidy_kept.run (start_tidy daemon world listenFd) ran
  exact ⟨tidy.unmisused, tidy.distinct, tidy.owned, tidy.held, fun now outcomes last ended => tidy.shutdown ended⟩

theorem sockets_accounted_demo : ∃ loop last, @run exactLibm demoTurns (start emptyDaemon .empty 3) = some loop ∧
    loop.opened = [5, 4, 3] ∧ loop.misused = 0 ∧ loop.shutdown 5300 plenty = some last ∧ last.opened = [] := by
  obtain ⟨loop, last, ran, same, ended⟩ := ran_demo
  obtain ⟨unmisused, _, _, _, closes⟩ := @sockets_accounted _ _ _ _ _ exactLibm ran
  exact ⟨loop, last, ran, (Prod.mk.inj same).1, unmisused, ended, (closes 5300 plenty last ended).1⟩

end Main

end Loop

end Bloomd
