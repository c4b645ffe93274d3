import Bloomd.CrashLogic.Relation
import Bloomd.CrashLogic.Completion
import Bloomd.PathSemantics

/-! How the calls move the world: what each view shows after a change, the rules
for a call that may be refused, and the part of the world that the work on one
filter leaves alone. -/

namespace Bloomd

open CrashLogic

/-- An error that the state of the paths does not explain -/
def Transient (errno : Errno) : Prop := ∃ answer : Answer, answer.refusal = some errno

theorem Transient.ne_enoent (transient : Transient errno) : errno ≠ .enoent := by
  obtain ⟨answer, refused⟩ := transient
  rintro rfl
  cases answer with
  | fail fault => cases fault <;> simp [Answer.refusal, Fault.errno] at refused
  | interrupted => simp [Answer.refusal] at refused
  | ok => simp [Answer.refusal] at refused
  | count n => simp [Answer.refusal] at refused
  | time now => simp [Answer.refusal] at refused

/-- A refused call changes nothing; otherwise its effect takes place. -/
theorem wp_attempt {effect : World → Except Errno α × World} {post : Except Errno α → World → Prop}
    {crash : World → Prop} {world : World} (before : crash world)
    (refused : ∀ errno, Transient errno → post (.error errno) world)
    (done : post (effect world).1 (effect world).2) : Prog.wp (attempt effect) post crash world := by
  refine (Prog.wp_call _).mpr ⟨before, fun answer => ?_⟩
  cases refusal : answer.refusal with
  | some errno => simpa [refusal] using refused errno ⟨answer, refusal⟩
  | none => simpa [refusal] using done

/-- Answers of a machine without faults: full transfers, shorter ones that still
move something, and clock readings -/
def Answer.easy : Answer → Prop
  | .ok | .time _ => True
  | .count n => 0 < n
  | .fail _ | .interrupted => False

theorem Answer.easy.refusal {answer : Answer} (easy : answer.easy) : answer.refusal = none := by
  cases answer with
  | ok => rfl
  | time now => rfl
  | count n => rfl
  | fail fault => exact easy.elim
  | interrupted => exact easy.elim

abbrev Completes (prog : Sys α) (post : α → World → Prop) (world : World) : Prop :=
  Prog.Completes Answer.easy prog post world

theorem completes_attempt {effect : World → Except Errno α × World}
    {post : Except Errno α → World → Prop} {world : World}
    (done : post (effect world).1 (effect world).2) : Completes (attempt effect) post world := by
  refine Prog.completes_call fun answer easy => ?_
  rw [easy.refusal]
  exact done

namespace World

variable (world : World)

@[simp] theorem changeLog_files : (world.changeLog path change).files = world.files := by
  unfold changeLog
  split <;> rfl

@[simp] theorem changeLog_pins : (world.changeLog path change).pins = world.pins := by
  unfold changeLog
  split <;> rfl

@[simp] theorem changeLog_maps : (world.changeLog path change).maps = world.maps := by
  unfold changeLog
  split <;> rfl

@[simp] theorem changeLog_pid : (world.changeLog path change).pid = world.pid := by
  unfold changeLog
  split <;> rfl

theorem logAt_changeLog :
    (world.changeLog path change).logAt path = (world.logAt path).map change := by
  unfold changeLog
  split
  · rename_i log found
    rw [found]
    simp [logAt]
  · rename_i missing
    simp [missing]

theorem contents_addDigest_same (present : map < world.maps.length) (digest : Digest) :
    (world.addDigest map digest).contents map = world.contents map ++ [digest] := by
  simp [contents, present]

theorem contents_addMap_old (kernel : KernelMap) (present : map < world.maps.length) :
    (world.addMap kernel).contents map = world.contents map := by
  simp [contents, List.getElem?_append_left present]

theorem contents_addMap_new (kernel : KernelMap) :
    (world.addMap kernel).contents world.maps.length = kernel.contents := by
  simp [contents]

end World

/-- Kernel maps never forget and never change their parameters. -/
def Grown (before after : List KernelMap) : Prop :=
  ∀ (map : Nat) (kernel : KernelMap), before[map]? = some kernel →
    ∃ later : KernelMap, after[map]? = some later ∧ later.info = kernel.info ∧ kernel.contents <+: later.contents

theorem Grown.refl (maps : List KernelMap) : Grown maps maps :=
  fun _ kernel found => ⟨kernel, found, rfl, List.prefix_refl _⟩

theorem Grown.trans (first : Grown before middle) (second : Grown middle after) :
    Grown before after := by
  intro map kernel found
  obtain ⟨next, foundNext, sameNext, grownNext⟩ := first map kernel found
  obtain ⟨last, foundLast, sameLast, grownLast⟩ := second map next foundNext
  exact ⟨last, foundLast, sameLast.trans sameNext, grownNext.trans grownLast⟩

theorem Grown.addMap (maps : List KernelMap) (kernel : KernelMap) : Grown maps (maps ++ [kernel]) := by
  intro map old found
  exact ⟨old, by rw [List.getElem?_append_left (List.getElem?_eq_some_iff.mp found).1, found], rfl,
    List.prefix_refl _⟩

theorem Grown.addDigest (world : World) (map : Nat) (digest : Digest) :
    Grown world.maps (world.addDigest map digest).maps := by
  intro index kernel found
  by_cases same : map = index
  · subst same
    exact ⟨{ kernel with contents := kernel.contents ++ [digest] }, by simp [found], rfl,
      List.prefix_append _ _⟩
  · exact ⟨kernel, by simp [same, found], rfl, List.prefix_refl _⟩

/-- Between the two worlds nothing of the filter `name` was touched: not its
metadata file, its log or its pin, maps only grew, and it is the same process. -/
structure Apart (name : Bytes) (before after : World) : Prop where
  files : ∀ loc, loc.leaf = metaLeaf name → after.files.lookup loc = before.files.lookup loc
  logs : ∀ loc, loc.leaf = logLeaf name → after.logs.lookup loc = before.logs.lookup loc
  pins : ∀ loc, loc.leaf = name → after.pins.lookup loc = before.pins.lookup loc
  maps : Grown before.maps after.maps
  pid : after.pid = before.pid

instance : IsPreorder World (Apart name) where
  refl _ := ⟨fun _ _ => rfl, fun _ _ => rfl, fun _ _ => rfl, .refl _, rfl⟩
  trans _ _ _ first second :=
    ⟨fun loc leaf => (second.files loc leaf).trans (first.files loc leaf),
      fun loc leaf => (second.logs loc leaf).trans (first.logs loc leaf),
      fun loc leaf => (second.pins loc leaf).trans (first.pins loc leaf),
      first.maps.trans second.maps, second.pid.trans first.pid⟩

theorem Apart.addMap (name : Bytes) (world : World) (kernel : KernelMap) :
    Apart name world (world.addMap kernel) :=
  ⟨fun _ _ => rfl, fun _ _ => rfl, fun _ _ => rfl, .addMap _ _, rfl⟩

/-- A name that ends in a number, as those of temporary and quarantined files do -/
def Numbered (leaf : Bytes) : Prop := ∃ front n, leaf = front ++ natText n

/-- Between the two worlds only the paths of the filter `name` were touched. -/
structure Within (name : Bytes) (before after : World) : Prop where
  files : ∀ loc, loc.leaf ≠ metaLeaf name → ¬ Numbered loc.leaf →
    after.files.lookup loc = before.files.lookup loc
  logs : ∀ loc, loc.leaf ≠ logLeaf name → after.logs.lookup loc = before.logs.lookup loc
  pins : ∀ loc, loc.leaf ≠ name → after.pins.lookup loc = before.pins.lookup loc
  maps : Grown before.maps after.maps
  pid : after.pid = before.pid

instance : IsPreorder World (Within name) where
  refl _ := ⟨fun _ _ _ => rfl, fun _ _ => rfl, fun _ _ => rfl, .refl _, rfl⟩
  trans _ _ _ first second :=
    ⟨fun loc leaf plain => (second.files loc leaf plain).trans (first.files loc leaf plain),
      fun loc leaf => (second.logs loc leaf).trans (first.logs loc leaf),
      fun loc leaf => (second.pins loc leaf).trans (first.pins loc leaf),
      first.maps.trans second.maps, second.pid.trans first.pid⟩

/-- Work on one filter leaves every other filter alone. -/
theorem Within.apart (within : Within name before after) (different : other ≠ name) :
    Apart other before after where
  files loc leaf := within.files loc
    (fun same => different (metaLeaf_injective (leaf.symm.trans same)))
    fun ⟨front, n, numbered⟩ => copy_ne_metaLeaf front n other (numbered.symm.trans leaf)
  logs loc leaf := within.logs loc fun same => different (logLeaf_injective (leaf.symm.trans same))
  pins loc leaf := within.pins loc fun same => different (leaf.symm.trans same)
  maps := within.maps
  pid := within.pid

namespace Within

variable (world : World)

theorem setFile (leaf : (resolve path).leaf = metaLeaf name ∨ Numbered (resolve path).leaf)
    (file : Option MetaRecord) : Within name world (world.setFile path file) where
  files loc other plain := by
    have apart : loc ≠ resolve path := by
      rintro rfl
      exact leaf.elim other plain
    rw [World.setFile_files, AList.lookup_insert_ne apart]
  logs _ _ := rfl
  pins _ _ := rfl
  maps := .refl _
  pid := rfl

theorem dropFile (leaf : (resolve path).leaf = metaLeaf name ∨ Numbered (resolve path).leaf) :
    Within name world (world.dropFile path) where
  files loc other plain := by
    have apart : loc ≠ resolve path := by
      rintro rfl
      exact leaf.elim other plain
    rw [World.dropFile_files, AList.lookup_erase_ne apart]
  logs _ _ := rfl
  pins _ _ := rfl
  maps := .refl _
  pid := rfl

theorem setLog (leaf : (resolve path).leaf = logLeaf name) (log : LogFile) :
    Within name world (world.setLog path log) where
  files _ _ _ := rfl
  logs loc other := by
    have apart : loc ≠ resolve path := fun same => other (same ▸ leaf)
    rw [World.setLog_logs, AList.lookup_insert_ne apart]
  pins _ _ := rfl
  maps := .refl _
  pid := rfl

theorem changeLog (leaf : (resolve path).leaf = logLeaf name) (change : LogFile → LogFile) :
    Within name world (world.changeLog path change) := by
  unfold World.changeLog
  split
  · exact .setLog world leaf _
  · exact refl world

theorem dropLog (leaf : (resolve path).leaf = logLeaf name) :
    Within name world (world.dropLog path) where
  files _ _ _ := rfl
  logs loc other := by
    have apart : loc ≠ resolve path := fun same => other (same ▸ leaf)
    rw [World.dropLog_logs, AList.lookup_erase_ne apart]
  pins _ _ := rfl
  maps := .refl _
  pid := rfl

theorem setPin (leaf : (resolve path).leaf = name) (map : Nat) :
    Within name world (world.setPin path map) where
  files _ _ _ := rfl
  logs _ _ := rfl
  pins loc other := by
    have apart : loc ≠ resolve path := fun same => other (same ▸ leaf)
    rw [World.setPin_pins, AList.lookup_insert_ne apart]
  maps := .refl _
  pid := rfl

theorem dropPin (leaf : (resolve path).leaf = name) : Within name world (world.dropPin path) where
  files _ _ _ := rfl
  logs _ _ := rfl
  pins loc other := by
    have apart : loc ≠ resolve path := fun same => other (same ▸ leaf)
    rw [World.dropPin_pins, AList.lookup_erase_ne apart]
  maps := .refl _
  pid := rfl

theorem addMap (kernel : KernelMap) : Within name world (world.addMap kernel) where
  files _ _ _ := rfl
  logs _ _ := rfl
  pins _ _ := rfl
  maps := .addMap _ _
  pid := rfl

theorem addDigest (map : Nat) (digest : Digest) : Within name world (world.addDigest map digest) where
  files _ _ _ := rfl
  logs _ _ := rfl
  pins _ _ := rfl
  maps := .addDigest _ _ _
  pid := rfl

end Within

end Bloomd
