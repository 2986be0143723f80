import SandboxIpc.Sync.Platform

/-!
# The platform mutex of `windows/sync.rs`

A counter in shared memory and a semaphore of the kernel. How the two make a lock is the subject of
`Windows/ThinLock.lean`; here it is where they are.

* `platform` — what `sync.rs` sees of it
-/

namespace SandboxIpc.Windows

open Infra

variable {p : PointerWidth}

/-- `Mutex`. The semaphore is named by the kernel object its handle refers to, which duplicating the
handle does not change. -/
structure Mutex (p : PointerWidth) where
  mem : SharedMemMap p
  rawOffset : Usize p
  atomic : Usize p
  semaphore : Nat

structure MutexHandle (p : PointerWidth) where
  semaphore : Nat
  rawOffset : Usize p

/-- `MUTEX_SHM_SIZE`. -/
def mutexShmSize (p : PointerWidth) : Usize p := cacheLine p

namespace Mutex

/-- `new_with_memory`; `create` is what `CreateSemaphoreW` answers. -/
def newWithMemory (b : Build) (create : Except IoError Nat) (map : SharedMemMap p)
    (offset : Usize p) (memory : Memory p) : Outcome (Mutex p) × Memory p :=
  match assertRoom b map offset (mutexShmSize p) with
  | .error stop => (.error stop, memory)
  | .ok () =>
    let atomic := map.pointer + offset
    let memory := memory.storeUsize atomic 0
    match create, b.add map.offset offset with
    | .error e, _ => (.error (.err e), memory)
    | .ok _, .error stop => (.error stop, memory)
    | .ok semaphore, .ok rawOffset => (.ok { mem := map, rawOffset, atomic, semaphore }, memory)

def fromHandle (b : Build) (handle : MutexHandle p) (map : SharedMemMap p) (offset : Usize p)
    (memory : Memory p) : Outcome (Mutex p) × Memory p :=
  match assertRoom b map offset (mutexShmSize p) with
  | .error stop => (.error stop, memory)
  | .ok () =>
    (.ok {
      mem := map
      rawOffset := handle.rawOffset
      atomic := map.pointer + offset
      semaphore := handle.semaphore }, memory)

/-- `handle`; `clone` is what `DuplicateHandle` answers. -/
def handle (clone : Except IoError Unit) (m : Mutex p) : Outcome (MutexHandle p) :=
  match clone with
  | .error e => .error (.err e)
  | .ok () => .ok { semaphore := m.semaphore, rawOffset := m.rawOffset }

/-- The byte of the object where the counter begins, and the semaphore. -/
def parts (m : Mutex p) : List Sync.Part := [.byte (m.mem.object m.atomic), .kernel m.semaphore]

/-- What `new_with_memory` returns. -/
theorem eq_of_newWithMemory {create : Except IoError Nat} {map : SharedMemMap p} {offset : Usize p}
    {memory memory' : Memory p} {m : Mutex p}
    (hm : newWithMemory .release create map offset memory = (.ok m, memory')) :
    m = ⟨map, map.offset + offset, map.pointer + offset, m.semaphore⟩ := by
  unfold newWithMemory at hm
  rw [Build.add_release] at hm
  split at hm
  · cases hm
  · dsimp only at hm
    split at hm
    · cases hm
    · next h => cases h
    · next h =>
      obtain rfl := Except.ok.inj h
      rw [← Except.ok.inj (congrArg Prod.fst hm)]

/-- The parts of an instance that lies at `offset` of its map. -/
theorem parts_at {map : SharedMemMap p} {rawOffset offset : Usize p} {semaphore : Nat}
    (hlen : offset.toNat + (mutexShmSize p).toNat ≤ map.len.toNat) :
    parts ⟨map, rawOffset, map.pointer + offset, semaphore⟩
      = [.byte (map.offset.toNat + offset.toNat), .kernel semaphore] := by
  have hsize : 0 < (mutexShmSize p).toNat := by cases p <;> decide
  unfold parts
  dsimp only
  rw [SharedMemMap.object_pointer_add (by omega)]

/-- What `from_handle` returns. -/
theorem eq_of_fromHandle {h : MutexHandle p} {map : SharedMemMap p} {offset : Usize p}
    {memory memory' : Memory p} {m : Mutex p}
    (hm : fromHandle .release h map offset memory = (.ok m, memory')) :
    m = ⟨map, h.rawOffset, map.pointer + offset, h.semaphore⟩ := by
  unfold fromHandle at hm
  split at hm
  · cases hm
  · exact (Except.ok.inj (congrArg Prod.fst hm)).symm

end Mutex

/-- The part of `windows/sync.rs` that `sync.rs` uses. -/
def platform (p : PointerWidth) : Sync.Platform p where
  Inner := Mutex p
  Handle := MutexHandle p
  Os := Except IoError Nat
  mutexShmSize := mutexShmSize p
  newWithMemory := Mutex.newWithMemory
  fromHandle := Mutex.fromHandle
  rawOffset := MutexHandle.rawOffset
  memory := Mutex.mem
  handle := Mutex.handle
  parts := Mutex.parts
  named h := [.byte h.rawOffset.toNat, .kernel h.semaphore]
  size_bounds := by cases p <;> decide
  fromHandle_roomy memory hroomy := by
    unfold Mutex.fromHandle
    rw [assertRoom_of_roomy hroomy]
    exact ⟨_, _, rfl⟩
  fromHandle_not_roomy memory hroomy := by
    obtain ⟨message, h⟩ := assertRoom_of_not hroomy
    unfold Mutex.fromHandle
    rw [h]
    exact ⟨message, rfl⟩
  memory_fromHandle hm := by rw [Mutex.eq_of_fromHandle hm]
  newWithMemory_sits {os map offset bytes inner bytes' answer h} hm hlen hh := by
    rw [Mutex.eq_of_newWithMemory hm] at hh ⊢
    cases answer with
    | error e => cases hh
    | ok u =>
      obtain rfl := Except.ok.inj hh
      have hlt := map.in_object
      have hsum := BitVec.toNat_add_of_lt (x := map.offset) (y := offset) (by omega)
      refine ⟨rfl, hsum, ?_⟩
      rw [Mutex.parts_at hlen, hsum]
  parts_fromHandle hm hraw hlen := by
    rw [Mutex.eq_of_fromHandle hm, Mutex.parts_at hlen, hraw]
  handle_fromHandle {h map offset memory inner memory' answer h'} hm hh := by
    rw [Mutex.eq_of_fromHandle hm] at hh
    cases answer with
    | error e => cases hh
    | ok u => exact (Except.ok.inj hh).symm

end SandboxIpc.Windows
