import SandboxIpc.Sync.Platform

/-!
# The platform mutex of `unix/sync.rs`

A reference count and a `pthread_mutex_t` next to each other in shared memory.

* `platform` — what `sync.rs` sees of it
-/

namespace SandboxIpc.Unix

open Infra

variable {p : PointerWidth}

/-- `Mutex`. -/
structure Mutex (p : PointerWidth) where
  mem : SharedMemMap p
  rawOffset : Usize p
  refcount : Usize p
  pthreadMutex : Usize p

structure MutexHandle (p : PointerWidth) where
  rawOffset : Usize p

/-- `PTHREAD_MUTEX_SIZE_BOUND`. -/
def pthreadMutexSizeBound (p : PointerWidth) : Usize p := 128 - usizeSize p

/-- `MUTEX_SHM_SIZE`. -/
def mutexShmSize (p : PointerWidth) : Usize p := usizeSize p + pthreadMutexSizeBound p

/-- `mem::size_of::<libc::pthread_mutex_t>()`, on a platform the crate can be used on. -/
structure PthreadMutexSize (p : PointerWidth) where
  val : Usize p
  le : val ≤ pthreadMutexSizeBound p

namespace Mutex

/-- The assertions at the head of `new_with_memory` and `from_handle`. -/
def assertions (b : Build) (size : PthreadMutexSize p) (map : SharedMemMap p) (offset : Usize p) :
    Outcome Unit := do
  assertRoom b map offset (mutexShmSize p)
  assert (size.val ≤ pthreadMutexSizeBound p) "pthread_mutex_t too large on this platform"

/-- `new_with_memory`; `init` is what the `pthread_mutexattr` and `pthread_mutex_init` calls answer
and do to the memory. -/
def newWithMemory (b : Build) (size : PthreadMutexSize p)
    (init : Memory p → Except IoError (Memory p)) (map : SharedMemMap p) (offset : Usize p)
    (memory : Memory p) : Outcome (Mutex p) × Memory p :=
  match assertions b size map offset, b.add map.offset offset with
  | .error stop, _ => (.error stop, memory)
  | .ok (), .error stop => (.error stop, memory)
  | .ok (), .ok rawOffset =>
    let refcount := map.pointer + offset
    let memory := memory.storeUsize refcount 1
    match init memory with
    | .error e => (.error (.err e), memory)
    | .ok memory =>
      (.ok { mem := map, rawOffset, refcount, pthreadMutex := refcount + usizeSize p }, memory)

def fromHandle (b : Build) (size : PthreadMutexSize p) (handle : MutexHandle p)
    (map : SharedMemMap p) (offset : Usize p) (memory : Memory p) : Outcome (Mutex p) × Memory p :=
  match assertions b size map offset with
  | .error stop => (.error stop, memory)
  | .ok () =>
    let refcount := map.pointer + offset
    (.ok {
      mem := map
      rawOffset := handle.rawOffset
      refcount
      pthreadMutex := refcount + usizeSize p },
      memory.storeUsize refcount (memory.loadUsize refcount + 1))

def handle (m : Mutex p) : Outcome (MutexHandle p) := .ok ⟨m.rawOffset⟩

/-- The bytes of the object where the reference count and the pthread mutex begin. -/
def parts (m : Mutex p) : List Sync.Part :=
  [.byte (m.mem.object m.refcount), .byte (m.mem.object m.pthreadMutex)]

theorem assertions_of_roomy {size : PthreadMutexSize p} {map : SharedMemMap p} {offset : Usize p}
    (h : Roomy map offset (mutexShmSize p)) : assertions .release size map offset = .ok () := by
  unfold assertions
  rw [assertRoom_of_roomy h]
  exact if_pos size.le

theorem assertions_of_not (size : PthreadMutexSize p) {map : SharedMemMap p} {offset : Usize p}
    (h : ¬ Roomy map offset (mutexShmSize p)) :
    ∃ message, assertions .release size map offset = .error (.panic message) := by
  obtain ⟨message, hroom⟩ := assertRoom_of_not h
  unfold assertions
  rw [hroom]
  exact ⟨message, rfl⟩

/-- What `new_with_memory` returns. -/
theorem eq_of_newWithMemory {size : PthreadMutexSize p}
    {init : Memory p → Except IoError (Memory p)} {map : SharedMemMap p} {offset : Usize p}
    {memory memory' : Memory p} {m : Mutex p}
    (hm : newWithMemory .release size init map offset memory = (.ok m, memory')) :
    m = ⟨map, map.offset + offset, map.pointer + offset, map.pointer + offset + usizeSize p⟩ := by
  unfold newWithMemory at hm
  rw [Build.add_release] at hm
  split at hm
  · cases hm
  · next h => cases h
  · next h =>
    obtain rfl := Except.ok.inj h
    dsimp only at hm
    split at hm
    · cases hm
    · exact (Except.ok.inj (congrArg Prod.fst hm)).symm

/-- The parts of an instance that lies at `offset` of its map. -/
theorem parts_at {map : SharedMemMap p} {rawOffset offset : Usize p}
    (hlen : offset.toNat + (mutexShmSize p).toNat ≤ map.len.toNat) :
    parts ⟨map, rawOffset, map.pointer + offset, map.pointer + offset + usizeSize p⟩
      = [.byte (map.offset.toNat + offset.toNat),
        .byte (map.offset.toNat + offset.toNat + (usizeSize p).toNat)] := by
  have hsize : (usizeSize p).toNat < (mutexShmSize p).toNat := by cases p <;> decide
  have hlt : offset.toNat + (usizeSize p).toNat < map.len.toNat := by omega
  have hsum := BitVec.toNat_add_of_lt (x := offset) (y := usizeSize p) (Nat.lt_trans hlt map.len.isLt)
  unfold parts
  dsimp only
  rw [BitVec.add_assoc, SharedMemMap.object_pointer_add (by omega),
    SharedMemMap.object_pointer_add (by omega), hsum, Nat.add_assoc]

/-- What `from_handle` returns. -/
theorem eq_of_fromHandle {size : PthreadMutexSize p} {h : MutexHandle p} {map : SharedMemMap p}
    {offset : Usize p} {memory memory' : Memory p} {m : Mutex p}
    (hm : fromHandle .release size h map offset memory = (.ok m, memory')) :
    m = ⟨map, h.rawOffset, map.pointer + offset, map.pointer + offset + usizeSize p⟩ := by
  unfold fromHandle at hm
  split at hm
  · cases hm
  · exact (Except.ok.inj (congrArg Prod.fst hm)).symm

end Mutex

/-- The part of `unix/sync.rs` that `sync.rs` uses. -/
def platform (size : PthreadMutexSize p) : Sync.Platform p where
  Inner := Mutex p
  Handle := MutexHandle p
  Os := Memory p → Except IoError (Memory p)
  mutexShmSize := mutexShmSize p
  newWithMemory b init := Mutex.newWithMemory b size init
  fromHandle b := Mutex.fromHandle b size
  rawOffset := MutexHandle.rawOffset
  memory := Mutex.mem
  handle _ m := m.handle
  parts := Mutex.parts
  named h := [.byte h.rawOffset.toNat, .byte (h.rawOffset.toNat + (usizeSize p).toNat)]
  size_bounds := by cases p <;> decide
  fromHandle_roomy memory hroomy := by
    unfold Mutex.fromHandle
    rw [Mutex.assertions_of_roomy hroomy]
    exact ⟨_, _, rfl⟩
  fromHandle_not_roomy memory hroomy := by
    obtain ⟨message, h⟩ := Mutex.assertions_of_not size hroomy
    unfold Mutex.fromHandle
    rw [h]
    exact ⟨message, rfl⟩
  memory_fromHandle hm := by rw [Mutex.eq_of_fromHandle hm]
  newWithMemory_sits {os map offset bytes inner bytes' answer h} hm hlen hh := by
    obtain rfl := Mutex.eq_of_newWithMemory hm
    obtain rfl := Except.ok.inj hh
    have hlt := map.in_object
    have hsum := BitVec.toNat_add_of_lt (x := map.offset) (y := offset) (by omega)
    refine ⟨rfl, hsum, ?_⟩
    rw [Mutex.parts_at hlen, hsum]
  parts_fromHandle hm hraw hlen := by
    rw [Mutex.eq_of_fromHandle hm, Mutex.parts_at hlen, hraw]
  handle_fromHandle hm hh := by
    rw [Mutex.eq_of_fromHandle hm] at hh
    exact (Except.ok.inj hh).symm

end SandboxIpc.Unix
