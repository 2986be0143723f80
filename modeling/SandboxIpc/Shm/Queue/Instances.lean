import SandboxIpc.Shm.Queue.Access
import SandboxIpc.Shm.Queue.Step
import SandboxIpc.Shm.Queue.Invariant

/-!
# The instances of a queue, `shm/queue.rs`

A queue lies somewhere in a shared memory object, and every process that works on it has an instance
of its own, with addresses in its own map.

* `Site` — where the queue is; `Site.bytes`, `Site.put` — the bytes of a slot
* `Opened` — how a process comes by an instance
* `Attached` — what all of them have in common; `attached_of_opened`
* `Attached.fromRawParts_view`, `Attached.written_stored` — what a guard does to its slice it does
  to the slot in the object
-/

namespace SandboxIpc

open Infra

variable {p : PointerWidth}

/-! ## The object behind a map -/

namespace SharedMemMap

/-- The memory of a process, where this map is: the bytes of the object. -/
def view (map : SharedMemMap p) (object : Nat → UInt8) : Usize p → UInt8 :=
  fun addr => object (map.object addr)

/-- The object once the process has brought its memory, where this map is, into the given state. -/
def written (map : SharedMemMap p) (memory : Usize p → UInt8) (object : Nat → UInt8) :
    Nat → UInt8 := fun k =>
  if map.offset.toNat ≤ k ∧ k < map.offset.toNat + map.len.toNat then
    memory (map.pointer + BitVec.ofNat _ (k - map.offset.toNat))
  else object k

end SharedMemMap

namespace Queue

/-! ## Instances of one queue -/

/-- Where a queue is in its object, and its sizes. -/
structure Site (p : PointerWidth) where
  rawOffset : Usize p
  itemSize : Usize p
  itemCount : ItemCount p

namespace Site

variable (w : Site p)

/-- Where slot `i` begins in the object. -/
def start (i : Nat) : Nat := w.rawOffset.toNat + i * stride w.itemSize

/-- The bytes of slot `i`. -/
def bytes (object : Nat → UInt8) (i : Nat) : List UInt8 :=
  (List.range w.itemSize.toNat).map fun k => object (w.start i + k)

/-- `k` is a byte of one of the slots. -/
def InSlot (k : Nat) : Prop :=
  ∃ i < w.itemCount.toNat, w.start i ≤ k ∧ k < w.start i + w.itemSize.toNat

end Site

/-- How a process comes by an instance of the queue at `w`: it has made the queue in a map where
there is room for it, or it has attached to it in a map that contains it. -/
inductive Opened (w : Site p) (q : Queue p) : Prop
  | new {b : Build} {map : SharedMemMap p} {offset : Usize p} :
      newWithMemory b w.itemSize w.itemCount.val map offset = .ok q →
      offset.toNat + required w.itemSize w.itemCount.val ≤ map.len.toNat →
      q.rawOffset = w.rawOffset → Opened w q
  | attached {b : Build} {map : SharedMemMap p} {handle : Handle p} :
      fromHandle b handle map = .ok q → map.Contains handle.rawOffset.toNat handle.required →
      handle.rawOffset = w.rawOffset → handle.itemSize = w.itemSize →
      handle.itemCount = w.itemCount.val → Opened w q

/-- The instance finds the slots of the queue at `w` in its map. -/
structure Attached (w : Site p) (q : Queue p) : Prop where
  itemSize : q.itemSize = w.itemSize
  contains : q.mem.Contains w.rawOffset.toNat (required w.itemSize w.itemCount.val)
  slotAddr : ∀ index, q.slotAddr index = q.mem.pointer
    + BitVec.ofNat _ (w.start (slot w.itemCount index) - q.mem.offset.toNat)

section Attaching

variable {b : Build} {w : Site p} {q : Queue p} {map : SharedMemMap p}

theorem exists_of_bind_eq_ok {α β : Type} {x : Outcome α} {f : α → Outcome β} {r : β}
    (h : x.bind f = .ok r) : ∃ a, x = .ok a ∧ f a = .ok r := by
  cases x with
  | error stop => cases h
  | ok a => exact ⟨a, rfl, h⟩

theorem newWithMemory_ok {itemSize itemCount offset : Usize p}
    (h : newWithMemory b itemSize itemCount map offset = .ok q) :
    Valid itemSize itemCount ∧ itemOffsetFor b itemSize = .ok q.itemOffset ∧
      q = ⟨map, map.offset + offset, q.control, map.pointer + offset, itemSize, q.itemOffset,
        itemCount⟩ := by
  have hvalid : Valid itemSize itemCount := by
    by_contra hnot
    obtain ⟨message, hpanic⟩ := requiredSize_of_not_valid (b := b) hnot
    unfold newWithMemory at h
    rw [hpanic] at h
    cases h
  unfold newWithMemory at h
  obtain ⟨size, -, h⟩ := exists_of_bind_eq_ok h
  obtain ⟨past, -, h⟩ := exists_of_bind_eq_ok h
  split at h
  · cases h
  obtain ⟨-, -, h⟩ := exists_of_bind_eq_ok h
  obtain ⟨first, -, h⟩ := exists_of_bind_eq_ok h
  split at h
  · cases h
  obtain ⟨-, -, h⟩ := exists_of_bind_eq_ok h
  obtain ⟨rawOffset, hraw, h⟩ := exists_of_bind_eq_ok h
  obtain ⟨itemOffset, hitem, h⟩ := exists_of_bind_eq_ok h
  obtain ⟨items, -, h⟩ := exists_of_bind_eq_ok h
  obtain rfl := Build.eq_of_add hraw
  obtain rfl := Except.ok.inj h
  exact ⟨hvalid, hitem, rfl⟩

theorem fromHandle_ok {handle : Handle p} (h : fromHandle b handle map = .ok q)
    (hcontains : map.Contains handle.rawOffset.toNat handle.required) :
    Valid handle.itemSize handle.itemCount ∧ itemOffsetFor b handle.itemSize = .ok q.itemOffset ∧
      q = ⟨map, handle.rawOffset, q.control, map.pointer + (handle.rawOffset - map.offset),
        handle.itemSize, q.itemOffset, handle.itemCount⟩ := by
  have htoken : handle.shmToken = map.token := by
    by_contra hnot
    unfold fromHandle at h
    rw [if_pos hnot] at h
    cases h
  have hle : handle.rawOffset.toNat ≤ map.offset.toNat := by
    by_contra hnot
    rw [fromHandle_of_gt htoken (Nat.lt_of_not_le hnot)] at h
    cases h
  have hvalid : Valid handle.itemSize handle.itemCount := by
    by_contra hnot
    obtain ⟨message, hpanic⟩ := fromHandle_of_not_valid (b := b) htoken hle hnot
    rw [hpanic] at h
    cases h
  rw [fromHandle_of_le htoken hle] at h
  obtain ⟨size, -, h⟩ := exists_of_bind_eq_ok h
  obtain ⟨stop, -, h⟩ := exists_of_bind_eq_ok h
  split at h
  · obtain ⟨localOffset, hlocal, h⟩ := exists_of_bind_eq_ok h
    obtain ⟨itemOffset, hitem, h⟩ := exists_of_bind_eq_ok h
    obtain ⟨items, -, h⟩ := exists_of_bind_eq_ok h
    rw [Build.sub_of_le hcontains.1] at hlocal
    obtain rfl := Except.ok.inj hlocal
    obtain rfl := Except.ok.inj h
    exact ⟨hvalid, hitem, rfl⟩
  · cases h

/-- The items of a queue that is in the map do not overflow. -/
theorem attached_of_base {control itemsBase itemOffset : Usize p} {rawOffset : Usize p}
    (hitem : itemOffsetFor b w.itemSize = .ok itemOffset)
    (hvalid : Valid w.itemSize w.itemCount.val)
    (hcontains : map.Contains w.rawOffset.toNat (required w.itemSize w.itemCount.val))
    (hbase : itemsBase = map.pointer + BitVec.ofNat _ (w.rawOffset.toNat - map.offset.toNat)) :
    Attached w ⟨map, rawOffset, control, itemsBase, w.itemSize, itemOffset, w.itemCount.val⟩ := by
  have hlen := map.len.isLt
  obtain ⟨hlo, hhi⟩ := hcontains
  have hrequired : required w.itemSize w.itemCount.val
      = stride w.itemSize * w.itemCount.val.toNat + (ctrlSize p).toNat := rfl
  have hstride : stride w.itemSize ≤ stride w.itemSize * w.itemCount.val.toNat :=
    Nat.le_mul_of_pos_right _ hvalid.1
  obtain ⟨itemOffset', hitem', hoffset⟩ := itemOffsetFor_of_lt (b := b) hvalid.2.1 (by omega)
  obtain rfl : itemOffset = itemOffset' := Except.ok.inj (hitem.symm.trans hitem')
  refine ⟨rfl, ⟨hlo, hhi⟩, fun index => ?_⟩
  have hslot : slot w.itemCount index < w.itemCount.val.toNat := by
    rw [slot_eq]
    exact Nat.mod_lt _ hvalid.1
  have hle : slot w.itemCount index * stride w.itemSize
      ≤ stride w.itemSize * w.itemCount.val.toNat := by
    rw [Nat.mul_comm]
    exact Nat.mul_le_mul_left _ (Nat.le_of_lt hslot)
  have hmul : (index % w.itemCount.val * itemOffset).toNat
      = slot w.itemCount index * stride w.itemSize := by
    rw [BitVec.toNat_mul_of_lt, hoffset]
    · rfl
    · rw [hoffset]
      exact Nat.lt_of_le_of_lt hle (by omega)
  show itemsBase + index % w.itemCount.val * itemOffset
    = map.pointer + BitVec.ofNat _ (w.start (slot w.itemCount index) - map.offset.toNat)
  rw [hbase, BitVec.add_assoc]
  refine congrArg (map.pointer + ·) (BitVec.eq_of_toNat_eq ?_)
  have hlocal : (BitVec.ofNat p.bits (w.rawOffset.toNat - map.offset.toNat)).toNat
      = w.rawOffset.toNat - map.offset.toNat := by
    rw [BitVec.toNat_ofNat, Nat.mod_eq_of_lt (by omega)]
  unfold Site.start
  rw [BitVec.toNat_add_of_lt (by rw [hlocal, hmul]; omega), hlocal, hmul, BitVec.toNat_ofNat,
    Nat.mod_eq_of_lt (by omega)]
  omega

theorem attached_of_opened (h : Opened w q) : Attached w q := by
  cases h with
  | @new b map offset hnew hroom hraw =>
    obtain ⟨hvalid, hitem, heq⟩ := newWithMemory_ok hnew
    have hobject := map.in_object
    rw [heq] at hraw
    have hsum : w.rawOffset.toNat = map.offset.toNat + offset.toNat := by
      rw [← hraw]
      refine BitVec.toNat_add_of_lt ?_
      omega
    rw [heq]
    refine attached_of_base hitem hvalid ⟨by omega, by omega⟩ ?_
    rw [hsum, Nat.add_sub_cancel_left, BitVec.ofNat_toNat, BitVec.setWidth_eq]
  | @attached b map handle hfrom hcontains hraw hsize hcount =>
    obtain ⟨hvalid, hitem, heq⟩ := fromHandle_ok hfrom hcontains
    obtain ⟨hlo, hhi⟩ := hcontains
    have hrequired : handle.required = required w.itemSize w.itemCount.val := by
      rw [← hsize, ← hcount]
      rfl
    rw [heq, hsize, hcount]
    rw [hsize] at hitem hvalid
    rw [hcount] at hvalid
    rw [hrequired, hraw] at hhi
    rw [hraw] at hlo
    refine attached_of_base hitem hvalid ⟨hlo, hhi⟩ ?_
    rw [hraw]
    refine congrArg (map.pointer + ·) (BitVec.eq_of_toNat_eq ?_)
    rw [BitVec.toNat_sub_of_le (BitVec.le_def.mpr hlo), BitVec.toNat_ofNat, Nat.mod_eq_of_lt]
    have := w.rawOffset.isLt
    omega

end Attaching

/-! ## The bytes of a slot -/

namespace Site

variable (w : Site p) (object : Nat → UInt8)

/-- The object with these bytes in slot `i`. -/
def put (i : Nat) (bytes : List UInt8) : Nat → UInt8 := fun k =>
  if w.start i ≤ k then bytes.getD (k - w.start i) (object k) else object k

variable {w object} {i j : Nat} {bytes : List UInt8}

@[simp] theorem length_bytes : (w.bytes object i).length = w.itemSize.toNat := by
  simp [Site.bytes]

theorem le_stride (itemSize : Usize p) : itemSize.toNat ≤ stride itemSize := by
  unfold stride
  omega

/-- Different slots have no byte in common. -/
theorem start_disjoint (h : i < j) : w.start i + w.itemSize.toNat ≤ w.start j := by
  have hle : (i + 1) * stride w.itemSize ≤ j * stride w.itemSize := Nat.mul_le_mul_right _ h
  have hstride := le_stride w.itemSize
  rw [Nat.add_mul, Nat.one_mul] at hle
  unfold start
  omega

/-- Behind the last slot there is none. -/
theorem not_inSlot_of_le {k : Nat} (h : w.start w.itemCount.toNat ≤ k) : ¬ w.InSlot k := by
  rintro ⟨i, hi, -, hlt⟩
  have := start_disjoint (w := w) hi
  omega

theorem put_of_mem {k : Nat} (hk : k < bytes.length) :
    w.put object i bytes (w.start i + k) = bytes[k] := by
  unfold put
  rw [if_pos (Nat.le_add_right _ _), Nat.add_sub_cancel_left, List.getD_eq_getElem?_getD,
    List.getElem?_eq_getElem hk, Option.getD_some]

theorem put_of_notMem {k : Nat} (hk : k < w.start i ∨ w.start i + bytes.length ≤ k) :
    w.put object i bytes k = object k := by
  unfold put
  split
  · rw [List.getD_eq_getElem?_getD, List.getElem?_eq_none (by omega), Option.getD_none]
  · rfl

theorem bytes_put_self (h : bytes.length = w.itemSize.toNat) :
    w.bytes (w.put object i bytes) i = bytes := by
  refine List.ext_getElem (by rw [length_bytes, h]) fun k hk hk' => ?_
  simp only [Site.bytes, List.getElem_map, List.getElem_range]
  exact put_of_mem hk'

theorem bytes_put_of_ne (h : bytes.length = w.itemSize.toNat) (hij : j ≠ i) :
    w.bytes (w.put object i bytes) j = w.bytes object j := by
  refine List.map_congr_left fun k hk => put_of_notMem ?_
  have hk := List.mem_range.mp hk
  rcases Nat.lt_or_gt_of_ne hij with hlt | hlt
  · have := start_disjoint (w := w) hlt
    omega
  · have := start_disjoint (w := w) hlt
    omega

end Site

namespace Attached

variable {w : Site p} {q : Queue p} {object : Nat → UInt8} {index : Usize p}

/-- The slot of an index is in the map. -/
theorem start_le (h : Attached w q) (index : Usize p) :
    q.mem.offset.toNat ≤ w.start (slot w.itemCount index) ∧
    w.start (slot w.itemCount index) + w.itemSize.toNat
      < q.mem.offset.toNat + q.mem.len.toNat := by
  obtain ⟨hlo, hhi⟩ := h.contains
  have hctrl : 0 < (ctrlSize p).toNat := by cases p <;> decide
  have hslot : slot w.itemCount index < w.itemCount.val.toNat := by
    rw [slot_eq]
    exact Nat.mod_lt _ w.itemCount.pos
  have hle : (slot w.itemCount index + 1) * stride w.itemSize
      ≤ w.itemCount.val.toNat * stride w.itemSize := Nat.mul_le_mul_right _ hslot
  have hrequired : required w.itemSize w.itemCount.val
      = w.itemCount.val.toNat * stride w.itemSize + (ctrlSize p).toNat := by
    rw [Nat.mul_comm]
    rfl
  have hstride := Site.le_stride w.itemSize
  rw [Nat.add_mul, Nat.one_mul] at hle
  unfold Site.start
  omega

/-- The slice of a guard is the bytes of its slot. -/
theorem fromRawParts_view (h : Attached w q) :
    (Chunk.fromRawParts (q.mem.view object) (q.slotAddr index) q.itemSize).bytes
      = w.bytes object (slot w.itemCount index) := by
  have hlen := q.mem.len.isLt
  obtain ⟨hlo, hhi⟩ := h.start_le index
  unfold Chunk.fromRawParts Site.bytes
  dsimp only
  rw [h.itemSize]
  refine List.map_congr_left fun k hk => congrArg object ?_
  have hk := List.mem_range.mp hk
  rw [h.slotAddr, BitVec.add_assoc, ← BitVec.ofNat_add, SharedMemMap.object_pointer_add,
    BitVec.toNat_ofNat, Nat.mod_eq_of_lt]
  · omega
  · omega
  · rw [BitVec.toNat_ofNat, Nat.mod_eq_of_lt (by omega)]
    omega

/-- What a push guard leaves in the memory of its process is what is in its slot of the object. -/
theorem written_stored (h : Attached w q) {slice : Chunk p}
    (hlength : slice.bytes.length = w.itemSize.toNat) :
    q.mem.written (slice.stored (q.mem.view object) (q.slotAddr index)) object
      = w.put object (slot w.itemCount index) slice.bytes := by
  have hlen := q.mem.len.isLt
  obtain ⟨hlo, hhi⟩ := h.start_le index
  funext k
  unfold SharedMemMap.written
  split
  · next hk =>
    have hobject : q.mem.view object (q.mem.pointer + BitVec.ofNat _ (k - q.mem.offset.toNat))
        = object k := by
      refine congrArg object ?_
      rw [SharedMemMap.object_pointer_add, BitVec.toNat_ofNat, Nat.mod_eq_of_lt]
      · omega
      · omega
      · rw [BitVec.toNat_ofNat, Nat.mod_eq_of_lt (by omega)]
        omega
    unfold Chunk.stored Site.put
    rw [hobject, h.slotAddr, ← BitVec.sub_sub, BitVec.add_comm q.mem.pointer,
      BitVec.add_sub_cancel]
    have hfrom : (BitVec.ofNat p.bits (w.start (slot w.itemCount index)
        - q.mem.offset.toNat)).toNat = w.start (slot w.itemCount index) - q.mem.offset.toNat := by
      rw [BitVec.toNat_ofNat, Nat.mod_eq_of_lt (by omega)]
    have hto : (BitVec.ofNat p.bits (k - q.mem.offset.toNat)).toNat = k - q.mem.offset.toNat := by
      rw [BitVec.toNat_ofNat, Nat.mod_eq_of_lt (by omega)]
    by_cases hle : w.start (slot w.itemCount index) ≤ k
    · rw [if_pos hle, BitVec.toNat_sub_of_le (by rw [BitVec.le_def, hfrom, hto]; omega), hfrom, hto]
      congr 1
      omega
    · -- in front of the slice the distance wraps around, and is too large for the slice
      rw [if_neg hle, List.getD_eq_getElem?_getD, List.getElem?_eq_none, Option.getD_none]
      rw [BitVec.toNat_sub, hfrom, hto, Nat.mod_eq_of_lt (by omega)]
      omega
  · next hk =>
    rw [Site.put_of_notMem]
    omega

end Attached

end Queue

end SandboxIpc
