import SandboxIpc.Shm.Map

/-!
# What `sync.rs` uses of the platform

`sync::Mutex` wraps `platform::Mutex`, which `cfg` picks at compile time. `Platform` is that choice
as a record: the items of the module that `sync.rs` uses, and what they do in a release build.

* `assertRoom` — the assertions both platform modules begin with
* `Platform` — the record; `Unix.platform` and `Windows.platform` are its instances
-/

namespace SandboxIpc

variable {p : PointerWidth}

/-- The assertions about `size` bytes at `offset`. -/
def assertRoom (b : Build) (map : SharedMemMap p) (offset size : Usize p) : Outcome Unit := do
  assert ((← b.add offset size) ≤ map.len) "insufficient space for mutex"
  assert ((← b.add map.pointer offset) % usizeSize p = 0)
    "shared memory for IPC mutex must be aligned"

/-- The same in release arithmetic. -/
def Roomy (map : SharedMemMap p) (offset size : Usize p) : Prop :=
  offset + size ≤ map.len ∧ (map.pointer + offset) % usizeSize p = 0

instance (map : SharedMemMap p) (offset size : Usize p) : Decidable (Roomy map offset size) :=
  inferInstanceAs (Decidable (_ ∧ _))

theorem assertRoom_of_roomy {map : SharedMemMap p} {offset size : Usize p}
    (h : Roomy map offset size) : assertRoom .release map offset size = .ok () := by
  unfold assertRoom assert
  rw [Build.add_release, Build.add_release]
  dsimp only [bind, Except.bind]
  rw [if_pos h.1]
  exact if_pos h.2

theorem assertRoom_of_not {map : SharedMemMap p} {offset size : Usize p}
    (h : ¬ Roomy map offset size) :
    ∃ message, assertRoom .release map offset size = .error (.panic message) := by
  unfold assertRoom assert
  rw [Build.add_release, Build.add_release]
  dsimp only [bind, Except.bind]
  by_cases hroom : offset + size ≤ map.len
  · rw [if_pos hroom]
    exact ⟨_, if_neg fun haligned => h ⟨hroom, haligned⟩⟩
  · rw [if_neg hroom]
    exact ⟨_, rfl⟩

namespace Sync

/-- A part of a mutex that all its instances share: a byte of the shared memory object, or a kernel
object. -/
inductive Part
  | byte (index : Nat)
  | kernel (object : Nat)
  deriving DecidableEq

structure Platform (p : PointerWidth) where
  /-- `platform::Mutex`. -/
  Inner : Type
  /-- `platform::MutexHandle`. -/
  Handle : Type
  /-- What the OS answers when a mutex is made. -/
  Os : Type
  /-- `platform::MUTEX_SHM_SIZE`. -/
  mutexShmSize : Usize p
  newWithMemory : Build → Os → SharedMemMap p → Usize p → Memory p → Outcome Inner × Memory p
  fromHandle : Build → Handle → SharedMemMap p → Usize p → Memory p → Outcome Inner × Memory p
  rawOffset : Handle → Usize p
  memory : Inner → SharedMemMap p
  /-- `Mutex::handle`; the argument is what the OS answers where a handle has to be duplicated. -/
  handle : Except IoError Unit → Inner → Outcome Handle
  /-- The lock word and the OS mutex of an instance, and those a handle stands for. -/
  parts : Inner → List Part
  named : Handle → List Part
  size_bounds : (usizeSize p).toNat < mutexShmSize.toNat ∧ mutexShmSize.toNat ≤ 128
  fromHandle_roomy : ∀ {h map offset} bytes, Roomy map offset mutexShmSize →
    ∃ inner bytes', fromHandle .release h map offset bytes = (.ok inner, bytes')
  fromHandle_not_roomy : ∀ {h map offset} bytes, ¬ Roomy map offset mutexShmSize →
    ∃ message, fromHandle .release h map offset bytes = (.error (.panic message), bytes)
  /-- A new instance has the parts that its handle names, and the handle says where they are. -/
  newWithMemory_sits : ∀ {os map offset bytes inner bytes' answer h},
    newWithMemory .release os map offset bytes = (.ok inner, bytes') →
    offset.toNat + mutexShmSize.toNat ≤ map.len.toNat → handle answer inner = .ok h →
    memory inner = map ∧ (rawOffset h).toNat = map.offset.toNat + offset.toNat ∧
      parts inner = named h
  memory_fromHandle : ∀ {h map offset bytes inner bytes'},
    fromHandle .release h map offset bytes = (.ok inner, bytes') → memory inner = map
  /-- An instance attached at the place its handle names has the parts its handle names. -/
  parts_fromHandle : ∀ {h map offset bytes inner bytes'},
    fromHandle .release h map offset bytes = (.ok inner, bytes') →
    (rawOffset h).toNat = map.offset.toNat + offset.toNat →
    offset.toNat + mutexShmSize.toNat ≤ map.len.toNat → parts inner = named h
  /-- It hands out the handle it was made from. -/
  handle_fromHandle : ∀ {h map offset bytes inner bytes' answer h'},
    fromHandle .release h map offset bytes = (.ok inner, bytes') →
    handle answer inner = .ok h' → h' = h

end Sync

end SandboxIpc
