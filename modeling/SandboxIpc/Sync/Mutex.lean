import SandboxIpc.Unix.Mutex
import SandboxIpc.Windows.Mutex

/-!
# Attaching to a mutex, `sync.rs`

`Mutex::from_handle` gets an offset into the shared memory object from a peer, and a map of the
object. It translates the offset to one into the map, checks it, and leaves the rest to the
platform.

* `Fits` — what the checks are for: the bytes lie in the map, aligned, and may be written
* `WrapsThrough` — the offsets for which the sums of the checks wrap around and come out small
* `Safe` — `from_handle` returns an instance exactly for the offsets that fit, every instance has
  the same parts, and a rejected handle leaves no trace
* `safe_iff` — it is safe for all offsets that do not wrap through
-/

namespace SandboxIpc.Sync

open Infra

variable {p : PointerWidth}

structure MutexHandle (pf : Platform p) where
  inner : pf.Handle
  shmToken : Uuid

structure Mutex (pf : Platform p) where
  inner : pf.Inner
  poison : Usize p

/-- `MUTEX_SHM_SIZE`. -/
def mutexShmSize (pf : Platform p) : Usize p := pf.mutexShmSize + usizeSize p

namespace Mutex

variable (b : Build) (pf : Platform p)

/-- The checks of `with_inner`, and the address of the poison flag. -/
def checkInner (map : SharedMemMap p) (offset : Usize p) : Outcome (Usize p) := do
  if map.len < (← b.add offset (mutexShmSize pf)) then
    fail .invalidInput "out of range offset for mutex shared memory"
  if (← b.add map.pointer offset) % usizeSize p ≠ 0 then
    fail .invalidInput "memory for mutex must be aligned"
  if map.access ≠ .readWrite then
    fail .invalidInput "memory for mutex must be read-write"
  return map.pointer + (← b.add offset pf.mutexShmSize)

/-- `with_inner`. The flag is cleared before the platform gets its turn. -/
def withInner (map : SharedMemMap p) (offset : Usize p)
    (f : SharedMemMap p → Memory p → Outcome pf.Inner × Memory p) (memory : Memory p) :
    Outcome (Mutex pf) × Memory p :=
  match checkInner b pf map offset with
  | .error stop => (.error stop, memory)
  | .ok poison =>
    match f map (memory.storeBool poison false) with
    | (.error stop, memory) => (.error stop, memory)
    | (.ok inner, memory) => (.ok { inner, poison }, memory)

def newWithMemory (os : pf.Os) (map : SharedMemMap p) (offset : Usize p) (memory : Memory p) :
    Outcome (Mutex pf) × Memory p :=
  withInner b pf map offset (fun map => pf.newWithMemory b os map offset) memory

/-- The checks of `from_handle`, and the offset into the map. -/
def localOffset (handle : MutexHandle pf) (map : SharedMemMap p) : Outcome (Usize p) := do
  if map.token ≠ handle.shmToken then
    fail .invalidInput "the mutex is not associated with the given shared memory"
  let localOffset ← match checkedSub (pf.rawOffset handle.inner) map.offset with
    | some localOffset => .ok localOffset
    | none => fail .invalidInput "mapping does not contain memory of shared mutex"
  if map.len < (← b.add localOffset (mutexShmSize pf)) then
    fail .invalidInput "mapping does not contain memory of shared mutex"
  return localOffset

def fromHandle (handle : MutexHandle pf) (map : SharedMemMap p) (memory : Memory p) :
    Outcome (Mutex pf) × Memory p :=
  match localOffset b pf handle map with
  | .error stop => (.error stop, memory)
  | .ok localOffset =>
    withInner b pf map localOffset
      (fun map => pf.fromHandle b handle.inner map localOffset) memory

/-- `handle`; `answer` is what the OS answers where a handle has to be duplicated. -/
def handle (answer : Except IoError Unit) (m : Mutex pf) : Outcome (MutexHandle pf) := do
  let inner ← pf.handle answer m.inner
  return { inner, shmToken := (pf.memory m.inner).token }

end Mutex

section Offsets

variable {pf : Platform p} (raw : Usize p) (map : SharedMemMap p)

/-- The address is aligned and may be written to. -/
def Usable : Prop :=
  (map.pointer + (raw - map.offset)) % usizeSize p = 0 ∧ map.access = .readWrite

instance : Decidable (Usable raw map) := inferInstanceAs (Decidable (_ ∧ _))

variable (pf)

/-- The `MUTEX_SHM_SIZE` bytes at `raw` lie in the map, in exact arithmetic, and are usable. -/
structure Fits : Prop where
  contains : map.Contains raw.toNat (mutexShmSize pf).toNat
  usable : Usable raw map

/-- The checks of `from_handle` and `with_inner` as a release build makes them. -/
structure Passes : Prop where
  le : map.offset.toNat ≤ raw.toNat
  room : raw - map.offset + mutexShmSize pf ≤ map.len
  usable : Usable raw map

/-- The end of the mutex lies past the address space, and both sums that are compared with the
length of the map come out small. -/
structure WrapsThrough : Prop where
  le : map.offset.toNat ≤ raw.toNat
  wraps : 2 ^ p.bits ≤ (raw.toNat - map.offset.toNat) + (mutexShmSize pf).toNat
  room : raw.toNat - map.offset.toNat + (mutexShmSize pf).toNat ≤ 2 ^ p.bits + map.len.toNat
  roomInner : (raw.toNat - map.offset.toNat + pf.mutexShmSize.toNat) % 2 ^ p.bits ≤ map.len.toNat
  usable : Usable raw map

theorem toNat_mutexShmSize :
    (mutexShmSize pf).toNat = pf.mutexShmSize.toNat + (usizeSize p).toNat ∧
      (mutexShmSize pf).toNat < 2 ^ (p.bits - 1) := by
  obtain ⟨hsize, hbound⟩ := pf.size_bounds
  have hbits := p.two_pow_bits
  have hsmall := p.lt_two_pow_bits (k := 256) (by decide)
  have hsum : (mutexShmSize pf).toNat = pf.mutexShmSize.toNat + (usizeSize p).toNat :=
    BitVec.toNat_add_of_lt (by omega)
  exact ⟨hsum, by omega⟩

variable {pf raw map}

/-- Checks that pass without wrapping mean what they say. -/
theorem Passes.fits (h : Passes pf raw map)
    (hlt : raw.toNat - map.offset.toNat + (mutexShmSize pf).toNat < 2 ^ p.bits) :
    Fits pf raw map := by
  have hsub := BitVec.toNat_sub_of_le (BitVec.le_def.mpr h.le)
  have hroom := h.room
  have hle := h.le
  rw [BitVec.le_def, BitVec.toNat_add_of_lt (by omega), hsub] at hroom
  exact ⟨⟨hle, by omega⟩, h.usable⟩

theorem Fits.passes (h : Fits pf raw map) :
    Passes pf raw map ∧ Roomy map (raw - map.offset) pf.mutexShmSize := by
  have hlocal := SharedMemMap.local_of_contains h.contains
  have hlen := map.len.isLt
  obtain ⟨hsize, -⟩ := toNat_mutexShmSize pf
  have hroom : raw - map.offset + mutexShmSize pf ≤ map.len := by
    rw [BitVec.le_def, BitVec.toNat_add_of_lt (by omega)]
    omega
  have hroomInner : raw - map.offset + pf.mutexShmSize ≤ map.len := by
    rw [BitVec.le_def, BitVec.toNat_add_of_lt (by omega)]
    omega
  exact ⟨⟨h.contains.1, hroom, h.usable⟩, hroomInner, h.usable.1⟩

/-- What passes all checks but does not fit has wrapped through. -/
theorem wrapsThrough_iff : WrapsThrough pf raw map ↔
    Passes pf raw map ∧ Roomy map (raw - map.offset) pf.mutexShmSize ∧ ¬ Fits pf raw map := by
  have hbits := raw.isLt
  have hlen := map.len.isLt
  obtain ⟨hsize, hsmall⟩ := toNat_mutexShmSize pf
  have hpow := p.two_pow_bits
  constructor
  · intro h
    have hsub := BitVec.toNat_sub_of_le (BitVec.le_def.mpr h.le)
    have hwraps := h.wraps
    have hroom := h.room
    refine ⟨⟨h.le, ?_, h.usable⟩, ⟨?_, h.usable.1⟩, fun hfits => ?_⟩
    · -- one turn around the address space is taken off before the comparison
      rw [BitVec.le_def, BitVec.toNat_add, hsub, Nat.mod_eq_sub_mod hwraps,
        Nat.mod_eq_of_lt (by omega)]
      omega
    · rw [BitVec.le_def, BitVec.toNat_add, hsub]
      exact h.roomInner
    · have hlocal := SharedMemMap.local_of_contains hfits.contains
      omega
  · rintro ⟨hpasses, hroomy, hnot⟩
    have hsub := BitVec.toNat_sub_of_le (BitVec.le_def.mpr hpasses.le)
    have hroom := hpasses.room
    have hroomInner := hroomy.1
    have hwraps : 2 ^ p.bits ≤ raw.toNat - map.offset.toNat + (mutexShmSize pf).toNat :=
      Nat.le_of_not_lt fun hlt => hnot (hpasses.fits hlt)
    rw [BitVec.le_def, BitVec.toNat_add, hsub, Nat.mod_eq_sub_mod hwraps,
      Nat.mod_eq_of_lt (by omega)] at hroom
    rw [BitVec.le_def, BitVec.toNat_add, hsub] at hroomInner
    exact ⟨hpasses.le, hwraps, by omega, hroomInner, hpasses.usable⟩

end Offsets

/-! ## What `from_handle` does in a release build -/

namespace Mutex

variable {pf : Platform p} {handle : MutexHandle pf} {map : SharedMemMap p}

theorem localOffset_release (htoken : map.token = handle.shmToken) :
    localOffset .release pf handle map =
      if map.offset.toNat ≤ (pf.rawOffset handle.inner).toNat ∧
          pf.rawOffset handle.inner - map.offset + mutexShmSize pf ≤ map.len then
        .ok (pf.rawOffset handle.inner - map.offset)
      else fail .invalidInput "mapping does not contain memory of shared mutex" := by
  unfold localOffset checkedSub
  rw [if_neg (not_not.mpr htoken)]
  by_cases hle : map.offset.toNat ≤ (pf.rawOffset handle.inner).toNat
  · rw [if_pos hle]
    simp only [bind, Except.bind, pure, Except.pure, Build.add_release]
    by_cases hroom : pf.rawOffset handle.inner - map.offset + mutexShmSize pf ≤ map.len
    · rw [if_neg (BitVec.not_lt.mpr hroom), if_pos ⟨hle, hroom⟩]
    · rw [if_pos (BitVec.not_le.mp hroom), if_neg fun h => hroom h.2]
      rfl
  · rw [if_neg hle, if_neg fun h => hle h.1]
    rfl

theorem checkInner_release {offset : Usize p} (hroom : offset + mutexShmSize pf ≤ map.len) :
    checkInner .release pf map offset =
      if (map.pointer + offset) % usizeSize p = 0 then
        if map.access = .readWrite then .ok (map.pointer + (offset + pf.mutexShmSize))
        else fail .invalidInput "memory for mutex must be read-write"
      else fail .invalidInput "memory for mutex must be aligned" := by
  unfold checkInner
  simp only [bind, Except.bind, pure, Except.pure, Build.add_release]
  rw [if_neg (BitVec.not_lt.mpr hroom)]
  by_cases haligned : (map.pointer + offset) % usizeSize p = 0
  · rw [if_neg (not_not.mpr haligned), if_pos haligned]
    by_cases haccess : map.access = .readWrite
    · rw [if_neg (not_not.mpr haccess), if_pos haccess]
    · rw [if_pos haccess, if_neg haccess]
      rfl
  · rw [if_pos haligned, if_neg haligned]
    rfl

/-- Where `with_inner` puts the poison flag. -/
def poisonAddr (pf : Platform p) (raw : Usize p) (map : SharedMemMap p) : Usize p :=
  map.pointer + (raw - map.offset + pf.mutexShmSize)

/-- Once the checks have passed the platform has the last word. -/
theorem fromHandle_of_passes (htoken : map.token = handle.shmToken)
    (h : Passes pf (pf.rawOffset handle.inner) map) (memory : Memory p) :
    fromHandle .release pf handle map memory =
      match pf.fromHandle .release handle.inner map (pf.rawOffset handle.inner - map.offset)
        (memory.storeBool (poisonAddr pf (pf.rawOffset handle.inner) map) false) with
      | (.error stop, memory) => (.error stop, memory)
      | (.ok inner, memory) =>
        (.ok { inner, poison := poisonAddr pf (pf.rawOffset handle.inner) map }, memory) := by
  unfold fromHandle
  rw [localOffset_release htoken, if_pos ⟨h.le, h.room⟩]
  dsimp only
  unfold withInner
  rw [checkInner_release h.room, if_pos h.usable.1, if_pos h.usable.2]
  rfl

/-- A handle that does not pass the checks is rejected before anything is written. -/
theorem fromHandle_of_not_passes (htoken : map.token = handle.shmToken)
    (h : ¬ Passes pf (pf.rawOffset handle.inner) map) (memory : Memory p) :
    ∃ message, fromHandle .release pf handle map memory = (fail .invalidInput message, memory) := by
  unfold fromHandle
  rw [localOffset_release htoken]
  by_cases hroom : map.offset.toNat ≤ (pf.rawOffset handle.inner).toNat ∧
      pf.rawOffset handle.inner - map.offset + mutexShmSize pf ≤ map.len
  · rw [if_pos hroom]
    dsimp only
    unfold withInner
    rw [checkInner_release hroom.2]
    by_cases haligned : (map.pointer + (pf.rawOffset handle.inner - map.offset)) % usizeSize p = 0
    · have haccess : map.access ≠ .readWrite := fun hrw =>
        h ⟨hroom.1, hroom.2, haligned, hrw⟩
      rw [if_pos haligned, if_neg haccess]
      exact ⟨_, rfl⟩
    · rw [if_neg haligned]
      exact ⟨_, rfl⟩
  · rw [if_neg hroom]
    exact ⟨_, rfl⟩

/-- What an accepted handle says about the map and the instance. -/
theorem of_fromHandle_ok {memory memory' : Memory p} {m : Mutex pf}
    (htoken : map.token = handle.shmToken)
    (hm : fromHandle .release pf handle map memory = (.ok m, memory')) :
    Passes pf (pf.rawOffset handle.inner) map ∧
      Roomy map (pf.rawOffset handle.inner - map.offset) pf.mutexShmSize ∧
      m.poison = poisonAddr pf (pf.rawOffset handle.inner) map ∧
      ∃ bytes bytes', pf.fromHandle .release handle.inner map
        (pf.rawOffset handle.inner - map.offset) bytes = (.ok m.inner, bytes') := by
  have hpasses : Passes pf (pf.rawOffset handle.inner) map := by
    by_contra hnot
    obtain ⟨message, herr⟩ := fromHandle_of_not_passes htoken hnot memory
    rw [herr] at hm
    cases hm
  rw [fromHandle_of_passes htoken hpasses] at hm
  have hroomy : Roomy map (pf.rawOffset handle.inner - map.offset) pf.mutexShmSize := by
    by_contra hnot
    obtain ⟨message, hpanic⟩ := pf.fromHandle_not_roomy (h := handle.inner)
      (memory.storeBool (poisonAddr pf (pf.rawOffset handle.inner) map) false) hnot
    rw [hpanic] at hm
    cases hm
  obtain ⟨inner, bytes', hinner⟩ := pf.fromHandle_roomy (h := handle.inner)
    (memory.storeBool (poisonAddr pf (pf.rawOffset handle.inner) map) false) hroomy
  rw [hinner] at hm
  obtain rfl := Except.ok.inj (congrArg Prod.fst hm)
  exact ⟨hpasses, hroomy, rfl, _, bytes', hinner⟩

end Mutex

/-! ## Where the parts of a mutex are -/

section Places

variable {pf : Platform p}

/-- The parts of the instance are the parts of the mutex that the handle names. -/
structure SitsAt (m : Mutex pf) (handle : pf.Handle) : Prop where
  parts : pf.parts m.inner = pf.named handle
  poison : (pf.memory m.inner).object m.poison
    = (pf.rawOffset handle).toNat + pf.mutexShmSize.toNat

/-- Two instances share the lock word, the OS mutex and the poison flag. -/
def SameParts (m m' : Mutex pf) : Prop :=
  pf.parts m.inner = pf.parts m'.inner ∧
    (pf.memory m.inner).object m.poison = (pf.memory m'.inner).object m'.poison

/-- The instances that are attached with the handle, or with a handle of one of them. -/
inductive Chain (handle : MutexHandle pf) : Mutex pf → Prop
  | attach {map memory m memory'} : map.token = handle.shmToken →
      Mutex.fromHandle .release pf handle map memory = (.ok m, memory') → Chain handle m
  | relay {m answer h map memory m' memory'} : Chain handle m → m.handle pf answer = .ok h →
      map.token = h.shmToken →
      Mutex.fromHandle .release pf h map memory = (.ok m', memory') → Chain handle m'

variable {handle : MutexHandle pf} {map : SharedMemMap p} {memory memory' : Memory p} {m : Mutex pf}

/-- An instance that fits sits where the handle says. -/
theorem sitsAt_of_fits (htoken : map.token = handle.shmToken)
    (hm : Mutex.fromHandle .release pf handle map memory = (.ok m, memory'))
    (hfits : Fits pf (pf.rawOffset handle.inner) map) : SitsAt m handle.inner := by
  obtain ⟨hpasses, -, hpoison, bytes, bytes', hinner⟩ := Mutex.of_fromHandle_ok htoken hm
  have hsub := BitVec.toNat_sub_of_le (BitVec.le_def.mpr hpasses.le)
  have hlocal := SharedMemMap.local_of_contains hfits.contains
  have hle := hpasses.le
  have hlen := map.len.isLt
  have hpos : 0 < (usizeSize p).toNat := by cases p <;> decide
  obtain ⟨hsize, -⟩ := toNat_mutexShmSize pf
  have hsum : (pf.rawOffset handle.inner - map.offset + pf.mutexShmSize).toNat
      = (pf.rawOffset handle.inner - map.offset).toNat + pf.mutexShmSize.toNat :=
    BitVec.toNat_add_of_lt (by omega)
  constructor
  · exact pf.parts_fromHandle hinner (by omega) (by omega)
  · rw [hpoison, pf.memory_fromHandle hinner, Mutex.poisonAddr,
      SharedMemMap.object_pointer_add (by omega), hsum]
    omega

/-- Every handle in a chain is the first one, as far as the platform is concerned. -/
theorem Chain.origin (h : Chain handle m) : ∃ g map memory memory', g.inner = handle.inner ∧
    map.token = g.shmToken ∧ Mutex.fromHandle .release pf g map memory = (.ok m, memory') := by
  induction h with
  | attach htoken hm => exact ⟨handle, _, _, _, rfl, htoken, hm⟩
  | @relay m answer h map memory m' memory' _ hh htoken hm' ih =>
    obtain ⟨g, gmap, gmemory, gmemory', hg, hgtoken, hm⟩ := ih
    obtain ⟨-, -, -, bytes, bytes', hinner⟩ := Mutex.of_fromHandle_ok hgtoken hm
    refine ⟨h, map, memory, memory', ?_, htoken, hm'⟩
    unfold Mutex.handle at hh
    cases hp : pf.handle answer m.inner with
    | error stop =>
      rw [hp] at hh
      cases hh
    | ok h' =>
      rw [hp] at hh
      obtain rfl := Except.ok.inj hh
      exact (pf.handle_fromHandle hinner hp).trans hg

/-- All instances of a chain share the parts of the instance the handle came from. -/
theorem Chain.sameParts (h : Chain handle m) {m₀ : Mutex pf} (hsits : SitsAt m₀ handle.inner)
    (hcontains : (pf.memory m₀.inner).Contains (pf.rawOffset handle.inner).toNat
      (mutexShmSize pf).toNat) : SameParts m m₀ := by
  obtain ⟨g, map, memory, memory', hg, htoken, hm⟩ := h.origin
  obtain ⟨hpasses, -⟩ := Mutex.of_fromHandle_ok htoken hm
  -- the first instance lies in its map, so the offset is far from the end of the address space
  have hend := hcontains.2
  have hobject := (pf.memory m₀.inner).in_object
  rw [← hg] at hsits hend
  have hsits' := sitsAt_of_fits htoken hm (hpasses.fits (by omega))
  exact ⟨hsits'.parts.trans hsits.parts.symm, hsits'.poison.trans hsits.poison.symm⟩

/-- A new mutex that fits its map sits where its handles say. -/
theorem sitsAt_of_newWithMemory {os : pf.Os} {offset : Usize p} {answer : Except IoError Unit}
    (hm : Mutex.newWithMemory .release pf os map offset memory = (.ok m, memory'))
    (hlen : offset.toNat + (mutexShmSize pf).toNat ≤ map.len.toNat)
    (hh : m.handle pf answer = .ok handle) : SitsAt m handle.inner ∧
      (pf.memory m.inner).Contains (pf.rawOffset handle.inner).toNat (mutexShmSize pf).toNat := by
  obtain ⟨hsize, -⟩ := toNat_mutexShmSize pf
  have hlt := map.len.isLt
  have hpos : 0 < (usizeSize p).toNat := by cases p <;> decide
  have hroom : offset + mutexShmSize pf ≤ map.len := by
    rw [BitVec.le_def, BitVec.toNat_add_of_lt (by omega)]
    exact hlen
  have hsum : (offset + pf.mutexShmSize).toNat = offset.toNat + pf.mutexShmSize.toNat :=
    BitVec.toNat_add_of_lt (by omega)
  unfold Mutex.newWithMemory Mutex.withInner at hm
  rw [Mutex.checkInner_release hroom] at hm
  split at hm
  · cases hm
  · next poison hpoison =>
    split at hm
    · cases hm
    · next inner bytes hinner =>
      obtain rfl := Except.ok.inj (congrArg Prod.fst hm)
      have hplace : poison = map.pointer + (offset + pf.mutexShmSize) := by
        split at hpoison
        · split at hpoison
          · exact (Except.ok.inj hpoison).symm
          · cases hpoison
        · cases hpoison
      unfold Mutex.handle at hh
      cases hp : pf.handle answer inner with
      | error stop =>
        rw [hp] at hh
        cases hh
      | ok h =>
        rw [hp] at hh
        obtain rfl := Except.ok.inj hh
        obtain ⟨hmemory, hraw, hparts⟩ := pf.newWithMemory_sits hinner (by omega) hp
        refine ⟨⟨hparts, ?_⟩, ?_⟩
        · rw [hmemory, hplace, SharedMemMap.object_pointer_add (by omega), hsum, hraw]
          omega
        · rw [hmemory, hraw]
          exact ⟨Nat.le_add_right _ _, by omega⟩

end Places

/-! ## When `from_handle` is safe -/

/-- What is expected of `from_handle` for a handle of the map's object, sent by anybody. A call that
panics returns no error and is not `clean`: where the first sum alone wraps, the poison byte, which
then lies below the map, has been cleared before the platform finds no room. -/
structure Safe (pf : Platform p) (h : pf.Handle) (map : SharedMemMap p) : Prop where
  /-- It accepts nothing that does not fit. -/
  only_fits : ∀ memory m memory',
    Mutex.fromHandle .release pf ⟨h, map.token⟩ map memory = (.ok m, memory') →
    Fits pf (pf.rawOffset h) map
  /-- It accepts what fits, and the instance sits where the handle says. -/
  accepts : Fits pf (pf.rawOffset h) map → ∀ memory, ∃ m memory',
    Mutex.fromHandle .release pf ⟨h, map.token⟩ map memory = (.ok m, memory') ∧ SitsAt m h
  /-- All instances that descend from the handle share the parts of the one that gave it out. -/
  relocates : ∀ (m₀ : Mutex pf) answer, m₀.handle pf answer = .ok ⟨h, map.token⟩ → SitsAt m₀ h →
    (pf.memory m₀.inner).Contains (pf.rawOffset h).toNat (mutexShmSize pf).toNat →
    ∀ m, Chain ⟨h, map.token⟩ m → SameParts m m₀
  /-- What it rejects leaves no trace in memory. -/
  clean : ∀ memory e memory',
    Mutex.fromHandle .release pf ⟨h, map.token⟩ map memory = (.error (.err e), memory') →
    memory' = memory

section Exact

variable {pf : Platform p} {h : pf.Handle} {map : SharedMemMap p}

/-- Where the checks pass and the platform finds room, an instance is returned. -/
theorem exists_of_passes (hpasses : Passes pf (pf.rawOffset h) map)
    (hroomy : Roomy map (pf.rawOffset h - map.offset) pf.mutexShmSize) (memory : Memory p) :
    ∃ m memory', Mutex.fromHandle .release pf ⟨h, map.token⟩ map memory = (.ok m, memory') := by
  obtain ⟨inner, bytes', hinner⟩ := pf.fromHandle_roomy (h := h)
    (memory.storeBool (Mutex.poisonAddr pf (pf.rawOffset h) map) false) hroomy
  rw [Mutex.fromHandle_of_passes rfl hpasses]
  dsimp only
  rw [hinner]
  exact ⟨_, _, rfl⟩

/-- An offset that wraps through gets an instance outside the map. -/
theorem not_safe_of_wrapsThrough (hwraps : WrapsThrough pf (pf.rawOffset h) map) :
    ¬ Safe pf h map := by
  intro hsafe
  obtain ⟨hpasses, hroomy, hnot⟩ := wrapsThrough_iff.mp hwraps
  obtain ⟨m, memory', hm⟩ := exists_of_passes hpasses hroomy (fun _ => 0)
  exact hnot (hsafe.only_fits _ m memory' hm)

theorem clean_of_fromHandle {memory memory' : Memory p} {e : IoError}
    (hm : Mutex.fromHandle .release pf ⟨h, map.token⟩ map memory = (.error (.err e), memory')) :
    memory' = memory := by
  by_cases hpasses : Passes pf (pf.rawOffset h) map
  · -- the platform panics, or it succeeds
    by_cases hroomy : Roomy map (pf.rawOffset h - map.offset) pf.mutexShmSize
    · obtain ⟨m, memory'', hok⟩ := exists_of_passes hpasses hroomy memory
      rw [hok] at hm
      cases hm
    · obtain ⟨message, hpanic⟩ := pf.fromHandle_not_roomy (h := h)
        (memory.storeBool (Mutex.poisonAddr pf (pf.rawOffset h) map) false) hroomy
      rw [Mutex.fromHandle_of_passes rfl hpasses] at hm
      dsimp only at hm
      rw [hpanic] at hm
      cases hm
  · have htoken : map.token = (⟨h, map.token⟩ : MutexHandle pf).shmToken := rfl
    obtain ⟨message, herr⟩ := Mutex.fromHandle_of_not_passes htoken hpasses memory
    rw [herr] at hm
    exact (congrArg Prod.snd hm).symm

end Exact

/-- The platform the crate is compiled for. -/
inductive Target (p : PointerWidth)
  | unix (size : Unix.PthreadMutexSize p)
  | windows

def Target.platform : Target p → Platform p
  | .unix size => Unix.platform size
  | .windows => Windows.platform p

/--
`Mutex::from_handle` is safe for any handle, unless the sums in its checks wrap through.

`WrapsThrough` needs an offset so close to the end of the address space that the end of the mutex
lies beyond it. If only the sum with the poison flag does, the call panics and no instance is made,
which is safe in this sense.
-/
theorem safe_iff (target : Target p) (h : target.platform.Handle) (map : SharedMemMap p) :
    Safe target.platform h map ↔
      ¬ WrapsThrough target.platform (target.platform.rawOffset h) map := by
  constructor
  · intro hsafe hwraps
    exact not_safe_of_wrapsThrough hwraps hsafe
  · intro hnot
    constructor
    · intro memory m memory' hm
      obtain ⟨hpasses, hroomy, -⟩ := Mutex.of_fromHandle_ok rfl hm
      by_contra hfits
      exact hnot (wrapsThrough_iff.mpr ⟨hpasses, hroomy, hfits⟩)
    · intro hfits memory
      obtain ⟨hpasses, hroomy⟩ := hfits.passes
      obtain ⟨m, memory', hm⟩ := exists_of_passes hpasses hroomy memory
      exact ⟨m, memory', hm, sitsAt_of_fits rfl hm hfits⟩
    · intro m₀ answer hh hsits hcontains m hchain
      exact hchain.sameParts hsits hcontains
    · intro memory e memory' hm
      exact clean_of_fromHandle hm

/-- A page of shared memory, mapped at the address `0x10000`. -/
def onePage : SharedMemMap .w64 where
  pointer := 0x10000
  len := 4096
  access := .readWrite
  offset := 0
  token := 0
  in_object := by decide
  in_space := by decide

/-- On either platform the offset `2 ^ 64 - 8` gets an instance eight bytes below the map. -/
theorem not_safe_below_map :
    ¬ Safe (Unix.platform ⟨40, by decide⟩) (⟨-8⟩ : Unix.MutexHandle .w64) onePage ∧
      ¬ Safe (Windows.platform .w64) (⟨0, -8⟩ : Windows.MutexHandle .w64) onePage := by
  constructor
  · exact not_safe_of_wrapsThrough ⟨by decide, by decide, by decide, by decide, by decide⟩
  · exact not_safe_of_wrapsThrough ⟨by decide, by decide, by decide, by decide, by decide⟩

end SandboxIpc.Sync
