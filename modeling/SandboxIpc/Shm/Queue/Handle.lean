import SandboxIpc.Shm.Map

/-!
# Attaching to a queue, `shm/queue.rs`

`Queue::from_handle` gets three numbers from a peer: where the queue lies in the shared memory
object, how large its items are and how many there are.

* `required` — the exact size of a queue, of which `requiredSize` is the machine version
* `Fits` — the queue lies in the map, aligned, and may be written
* `Right` — `from_handle` accepts what fits and nothing else, and never panics or wraps
* `RightFor` — the handles and maps for which it is right
* `right_iff` — these are the ones
-/

namespace SandboxIpc

open Infra

variable {p : PointerWidth}

/-- An instance of the queue in one process. -/
structure Queue (p : PointerWidth) where
  mem : SharedMemMap p
  rawOffset : Usize p
  control : Usize p
  itemsBase : Usize p
  itemSize : Usize p
  itemOffset : Usize p
  itemCount : Usize p

/-- `align` of `lib.rs`. -/
def align (b : Build) (x y : Usize p) : Outcome (Usize p) :=
  if 0 < x ∧ 0 < y then do
    let mask ← b.sub y 1
    return (← b.add x mask) &&& ~~~mask
  else .ok 0

namespace Queue

structure Handle (p : PointerWidth) where
  rawOffset : Usize p
  itemSize : Usize p
  itemCount : Usize p
  shmToken : Uuid

/-- The function `item_offset`. -/
def itemOffsetFor (b : Build) (itemSize : Usize p) : Outcome (Usize p) :=
  align b itemSize (cacheLine p)

/-- `mem::size_of::<SharedMemQueueCtrl>()`: four cache lines and a flag, padded to a `usize`. -/
def ctrlSize (p : PointerWidth) : Usize p := 4 * cacheLine p + usizeSize p

def requiredSize (b : Build) (itemSize itemCount : Usize p) : Outcome (Usize p) := do
  assert (0 < itemCount) "item count must be positive"
  assert (0 < itemSize) "item size must be positive"
  assert (itemCount < isizeMax p) "implementation cannot handle buffer sizes >= isize::MAX"
  let itemOffset ← itemOffsetFor b itemSize
  b.add (← b.mul itemOffset itemCount) (ctrlSize p)

/-- The place of a new queue; the control block that `new_with_memory` writes is `Ctrl.new`. -/
def newWithMemory (b : Build) (itemSize itemCount : Usize p) (map : SharedMemMap p)
    (offset : Usize p) : Outcome (Queue p) := do
  let requiredSize ← requiredSize b itemSize itemCount
  if map.len < (← b.add offset requiredSize) then
    fail .invalidInput "insufficient space for shared memory queue of requested size"
  if (← b.add map.pointer offset) % usizeSize p ≠ 0 then
    fail .invalidInput "mapped memory for shared memory queue must be aligned"
  let rawOffset ← b.add map.offset offset
  let itemOffset ← itemOffsetFor b itemSize
  let itemsBase := map.pointer + offset
  let control := itemsBase + (← b.mul itemCount itemOffset)
  return { mem := map, rawOffset, control, itemsBase, itemSize, itemOffset, itemCount }

/-- The condition under the negation in `from_handle`. -/
def contained (b : Build) (handle : Handle p) (map : SharedMemMap p) : Outcome Bool :=
  -- the source asks that the queue begin at or before the map; nothing else is computed if not
  if handle.rawOffset ≤ map.offset then do
    let requiredSize ← requiredSize b handle.itemSize handle.itemCount
    return decide ((← b.add handle.rawOffset requiredSize) ≤ (← b.add map.offset map.len))
  else .ok false

def fromHandle (b : Build) (handle : Handle p) (map : SharedMemMap p) : Outcome (Queue p) := do
  if handle.shmToken ≠ map.token then
    fail .invalidInput "the queue is not associated with the given shared memory"
  if (← contained b handle map) = false then
    fail .invalidInput "the queue is not contained within this shared memory mapping"
  -- zero at best: for a queue that begins before the map the subtraction underflows
  let localOffset ← b.sub handle.rawOffset map.offset
  let itemOffset ← itemOffsetFor b handle.itemSize
  let itemsBase := map.pointer + localOffset
  let control := itemsBase + (← b.mul handle.itemCount itemOffset)
  return {
    mem := map
    rawOffset := handle.rawOffset
    control
    itemsBase
    itemSize := handle.itemSize
    itemOffset
    itemCount := handle.itemCount }

def handle (q : Queue p) : Handle p where
  rawOffset := q.rawOffset
  itemSize := q.itemSize
  itemCount := q.itemCount
  shmToken := q.mem.token

/-- Where the slot of an index begins. -/
def slotAddr (q : Queue p) (index : Usize p) : Usize p :=
  q.itemsBase + index % q.itemCount * q.itemOffset

/-! ## The size of a queue -/

/-- The distance of two slots. -/
def stride (itemSize : Usize p) : Nat := (itemSize.toNat + 63) / 64 * 64

/-- The size of a queue. -/
def required (itemSize itemCount : Usize p) : Nat :=
  stride itemSize * itemCount.toNat + (ctrlSize p).toNat

/-- The assertions of `required_size`. -/
def Valid (itemSize itemCount : Usize p) : Prop :=
  0 < itemCount.toNat ∧ 0 < itemSize.toNat ∧ itemCount.toNat < (isizeMax p).toNat

instance (itemSize itemCount : Usize p) : Decidable (Valid itemSize itemCount) :=
  inferInstanceAs (Decidable (_ ∧ _))

variable {b : Build} {itemSize itemCount : Usize p}

/-- Rounding up to a cache line overflows no later than the rounded value does. -/
theorem add_lt_of_stride_lt (h : stride itemSize < 2 ^ p.bits) :
    itemSize.toNat + 63 < 2 ^ p.bits := by
  unfold stride at h
  cases p with
  | w32 =>
    change _ < 2 ^ 32 at h
    change _ < 2 ^ 32
    omega
  | w64 =>
    change _ < 2 ^ 64 at h
    change _ < 2 ^ 64
    omega

theorem cacheLine_sub_one : cacheLine p - 1 = BitVec.ofNat p.bits (2 ^ 6 - 1) ∧
    (BitVec.ofNat p.bits (2 ^ 6 - 1)).toNat = 63 ∧ (1 : Usize p).toNat ≤ (cacheLine p).toNat := by
  cases p <;> decide

theorem itemOffsetFor_eq (hpos : 0 < itemSize.toNat) : itemOffsetFor b itemSize =
    (b.add itemSize (BitVec.ofNat p.bits (2 ^ 6 - 1))).bind fun sum =>
      .ok (sum &&& ~~~BitVec.ofNat p.bits (2 ^ 6 - 1)) := by
  obtain ⟨hmask, -, hone⟩ := cacheLine_sub_one (p := p)
  have hline : 0 < cacheLine p := by cases p <;> decide
  unfold itemOffsetFor align
  rw [if_pos ⟨by rw [BitVec.lt_def, toNat_zero]; exact hpos, hline⟩, Build.sub_of_le hone, hmask]
  rfl

theorem itemOffsetFor_of_lt (hpos : 0 < itemSize.toNat) (h : stride itemSize < 2 ^ p.bits) :
    ∃ r, itemOffsetFor b itemSize = .ok r ∧ r.toNat = stride itemSize := by
  obtain ⟨-, hmask, -⟩ := cacheLine_sub_one (p := p)
  have hsum := add_lt_of_stride_lt h
  rw [itemOffsetFor_eq hpos, Build.add_of_lt (by rw [hmask]; exact hsum)]
  refine ⟨_, rfl, ?_⟩
  rw [toNat_and_not_mask, BitVec.toNat_add_of_lt (by rw [hmask]; exact hsum), hmask]
  rfl

/-- If the rounded value is too large, a debug build panics when it rounds. -/
theorem itemOffsetFor_debug (hpos : 0 < itemSize.toNat)
    (h : 2 ^ p.bits ≤ itemSize.toNat + 63) :
    ∃ message, itemOffsetFor .debug itemSize = .error (.panic message) := by
  obtain ⟨-, hmask, -⟩ := cacheLine_sub_one (p := p)
  rw [itemOffsetFor_eq hpos, Build.add_debug (by rw [hmask]; exact h)]
  exact ⟨_, rfl⟩

/-- The assertions of `required_size` are checked first. -/
theorem requiredSize_of_valid (hvalid : Valid itemSize itemCount) : requiredSize b itemSize itemCount =
    (itemOffsetFor b itemSize).bind fun itemOffset =>
      (b.mul itemOffset itemCount).bind fun items => b.add items (ctrlSize p) := by
  have hcount : 0 < itemCount := by rw [BitVec.lt_def, toNat_zero]; exact hvalid.1
  have hsize : 0 < itemSize := by rw [BitVec.lt_def, toNat_zero]; exact hvalid.2.1
  unfold requiredSize assert
  rw [if_pos hcount, if_pos hsize, if_pos (BitVec.lt_def.mpr hvalid.2.2)]
  rfl

theorem requiredSize_of_not_valid (hvalid : ¬ Valid itemSize itemCount) :
    ∃ message, requiredSize b itemSize itemCount = .error (.panic message) := by
  unfold requiredSize assert
  by_cases hcount : 0 < itemCount
  · rw [if_pos hcount]
    by_cases hsize : 0 < itemSize
    · rw [if_pos hsize]
      have hlarge : ¬ itemCount < isizeMax p := by
        rw [BitVec.lt_def, toNat_zero] at hcount hsize
        exact fun hlt => hvalid ⟨hcount, hsize, BitVec.lt_def.mp hlt⟩
      rw [if_neg hlarge]
      exact ⟨_, rfl⟩
    · rw [if_neg hsize]
      exact ⟨_, rfl⟩
  · rw [if_neg hcount]
    exact ⟨_, rfl⟩

/-- While the exact size fits, nothing overflows on the way to it. -/
theorem requiredSize_of_lt (hvalid : Valid itemSize itemCount)
    (h : required itemSize itemCount < 2 ^ p.bits) :
    ∃ r, requiredSize b itemSize itemCount = .ok r ∧ r.toNat = required itemSize itemCount := by
  have hitems : stride itemSize * itemCount.toNat < 2 ^ p.bits :=
    Nat.lt_of_le_of_lt (Nat.le_add_right _ _) h
  have hstride : stride itemSize < 2 ^ p.bits :=
    Nat.lt_of_le_of_lt (Nat.le_mul_of_pos_right _ hvalid.1) hitems
  obtain ⟨offset, hoffset, htoNat⟩ := itemOffsetFor_of_lt (b := b) hvalid.2.1 hstride
  rw [← htoNat] at hitems
  have hmul := BitVec.toNat_mul_of_lt hitems
  have hsum : (offset * itemCount).toNat + (ctrlSize p).toNat < 2 ^ p.bits := by
    rw [hmul, htoNat]
    exact h
  rw [requiredSize_of_valid hvalid, hoffset]
  dsimp only [Except.bind]
  rw [Build.mul_of_lt hitems]
  dsimp only
  rw [Build.add_of_lt hsum]
  refine ⟨_, rfl, ?_⟩
  rw [BitVec.toNat_add_of_lt hsum, hmul, htoNat]
  rfl

/-- Once it does not, a debug build panics. -/
theorem requiredSize_debug (hvalid : Valid itemSize itemCount)
    (h : 2 ^ p.bits ≤ required itemSize itemCount) :
    ∃ message, requiredSize .debug itemSize itemCount = .error (.panic message) := by
  rw [requiredSize_of_valid hvalid]
  by_cases hstride : itemSize.toNat + 63 < 2 ^ p.bits
  · have hlt : stride itemSize < 2 ^ p.bits :=
      Nat.lt_of_le_of_lt (Nat.div_mul_le_self _ _) hstride
    obtain ⟨offset, hoffset, htoNat⟩ := itemOffsetFor_of_lt (b := .debug) hvalid.2.1 hlt
    rw [hoffset]
    dsimp only [Except.bind]
    by_cases hitems : offset.toNat * itemCount.toNat < 2 ^ p.bits
    · have hmul := BitVec.toNat_mul_of_lt hitems
      rw [Build.mul_of_lt hitems]
      dsimp only
      rw [Build.add_debug (by rw [hmul, htoNat]; exact h)]
      exact ⟨_, rfl⟩
    · rw [Build.mul_debug (Nat.le_of_not_lt hitems)]
      exact ⟨_, rfl⟩
  · obtain ⟨message, hpanic⟩ := itemOffsetFor_debug hvalid.2.1 (Nat.le_of_not_lt hstride)
    rw [hpanic]
    exact ⟨message, rfl⟩

/-! ## What `from_handle` does -/

section FromHandle

variable {handle : Handle p} {map : SharedMemMap p}

/-- A queue that begins above the start of the map is rejected, wherever the map ends. -/
theorem fromHandle_of_gt (htoken : handle.shmToken = map.token)
    (h : map.offset.toNat < handle.rawOffset.toNat) :
    fromHandle b handle map = fail .invalidInput
      "the queue is not contained within this shared memory mapping" := by
  unfold fromHandle contained
  rw [if_neg (not_not.mpr htoken), if_neg (by rw [BitVec.le_def]; omega)]
  rfl

/-- For all others `required_size` is called. -/
theorem fromHandle_of_le (htoken : handle.shmToken = map.token)
    (h : handle.rawOffset.toNat ≤ map.offset.toNat) : fromHandle b handle map =
    (requiredSize b handle.itemSize handle.itemCount).bind fun requiredSize =>
      (b.add handle.rawOffset requiredSize).bind fun end_ =>
        if end_ ≤ map.offset + map.len then
          (b.sub handle.rawOffset map.offset).bind fun localOffset =>
            (itemOffsetFor b handle.itemSize).bind fun itemOffset =>
              (b.mul handle.itemCount itemOffset).bind fun items =>
                .ok ⟨map, handle.rawOffset, map.pointer + localOffset + items,
                  map.pointer + localOffset, handle.itemSize, itemOffset, handle.itemCount⟩
        else fail .invalidInput "the queue is not contained within this shared memory mapping" := by
  unfold fromHandle contained
  rw [if_neg (not_not.mpr htoken), if_pos (BitVec.le_def.mpr h),
    Build.add_of_lt map.in_object]
  simp only [bind, Except.bind, pure, Except.pure]
  cases hrequired : requiredSize b handle.itemSize handle.itemCount with
  | error stop => rfl
  | ok requiredSize =>
    dsimp only
    cases hend : b.add handle.rawOffset requiredSize with
    | error stop => rfl
    | ok end_ =>
      dsimp only
      by_cases hle : end_ ≤ map.offset + map.len
      · rw [if_pos hle, if_neg (by simpa using hle)]
      · rw [if_neg hle, if_pos (by simpa using hle)]
        rfl

/-- The size of the queue of a handle. -/
def Handle.required (handle : Handle p) : Nat := Queue.required handle.itemSize handle.itemCount

variable (handle map)

/-- The control block is aligned and may be written to. -/
def Usable : Prop :=
  (map.pointer.toNat + (handle.rawOffset.toNat - map.offset.toNat)
    + stride handle.itemSize * handle.itemCount.toNat) % (usizeSize p).toNat = 0 ∧
  map.access = .readWrite

instance : Decidable (Usable handle map) := inferInstanceAs (Decidable (_ ∧ _))

/-- The queue lies in the map, in exact arithmetic, and is usable. -/
structure Fits : Prop where
  valid : Valid handle.itemSize handle.itemCount
  contains : map.Contains handle.rawOffset.toNat handle.required
  usable : Usable handle map

/-- The slots and the control block of the instance are the bytes of the object the handle names. -/
structure SitsAt (q : Queue p) : Prop where
  slots : ∀ index, q.mem.object (q.slotAddr index) = handle.rawOffset.toNat
    + index.toNat % handle.itemCount.toNat * stride handle.itemSize
  control : q.mem.object q.control = handle.rawOffset.toNat
    + stride handle.itemSize * handle.itemCount.toNat

variable {handle map}

/-- A debug or release build alike panics on sizes that are not valid. -/
theorem fromHandle_of_not_valid (htoken : handle.shmToken = map.token)
    (hle : handle.rawOffset.toNat ≤ map.offset.toNat)
    (h : ¬ Valid handle.itemSize handle.itemCount) :
    ∃ message, fromHandle b handle map = .error (.panic message) := by
  obtain ⟨message, hpanic⟩ := requiredSize_of_not_valid (b := b) h
  rw [fromHandle_of_le htoken hle, hpanic]
  exact ⟨message, rfl⟩

/-- A debug build panics where the end of the queue does not fit a `usize`. -/
theorem fromHandle_debug_overflow (htoken : handle.shmToken = map.token)
    (hle : handle.rawOffset.toNat ≤ map.offset.toNat)
    (hvalid : Valid handle.itemSize handle.itemCount)
    (h : 2 ^ p.bits ≤ handle.rawOffset.toNat + handle.required) :
    ∃ message, fromHandle .debug handle map = .error (.panic message) := by
  rw [fromHandle_of_le htoken hle]
  by_cases hlt : handle.required < 2 ^ p.bits
  · obtain ⟨r, hr, htoNat⟩ := requiredSize_of_lt (b := .debug) hvalid hlt
    have htoNat : r.toNat = handle.required := htoNat
    rw [hr]
    dsimp only [Except.bind]
    rw [Build.add_debug (by rw [htoNat]; exact h)]
    exact ⟨_, rfl⟩
  · obtain ⟨message, hpanic⟩ := requiredSize_debug hvalid (Nat.le_of_not_lt hlt)
    rw [hpanic]
    exact ⟨message, rfl⟩

/-- From here on the sizes are valid and the end of the queue fits a `usize`. -/
theorem fromHandle_of_lt (htoken : handle.shmToken = map.token)
    (hle : handle.rawOffset.toNat ≤ map.offset.toNat)
    (hvalid : Valid handle.itemSize handle.itemCount)
    (hlt : handle.rawOffset.toNat + handle.required < 2 ^ p.bits) :
    ∃ itemOffset : Usize p, itemOffset.toNat = stride handle.itemSize ∧
      ∀ b, fromHandle b handle map =
        if handle.rawOffset.toNat + handle.required ≤ map.offset.toNat + map.len.toNat then
          (b.sub handle.rawOffset map.offset).bind fun localOffset =>
            .ok ⟨map, handle.rawOffset, map.pointer + localOffset + handle.itemCount * itemOffset,
              map.pointer + localOffset, handle.itemSize, itemOffset, handle.itemCount⟩
        else fail .invalidInput "the queue is not contained within this shared memory mapping" := by
  have hrequired : handle.required < 2 ^ p.bits :=
    Nat.lt_of_le_of_lt (Nat.le_add_left _ _) hlt
  have hitems : stride handle.itemSize * handle.itemCount.toNat < 2 ^ p.bits :=
    Nat.lt_of_le_of_lt (Nat.le_add_right _ _) hrequired
  have hstride : stride handle.itemSize < 2 ^ p.bits :=
    Nat.lt_of_le_of_lt (Nat.le_mul_of_pos_right _ hvalid.1) hitems
  obtain ⟨itemOffset, -, hoffset⟩ := itemOffsetFor_of_lt (b := .release) hvalid.2.1 hstride
  refine ⟨itemOffset, hoffset, fun b => ?_⟩
  obtain ⟨r, hr, hrNat⟩ := requiredSize_of_lt (b := b) hvalid hrequired
  have hrNat : r.toNat = handle.required := hrNat
  -- the builds agree on the distance of the slots, because nothing overflows
  obtain ⟨itemOffset', hitem, hoffset'⟩ := itemOffsetFor_of_lt (b := b) hvalid.2.1 hstride
  obtain rfl : itemOffset = itemOffset' := BitVec.eq_of_toNat_eq (hoffset.trans hoffset'.symm)
  have hmul : handle.itemCount.toNat * itemOffset.toNat < 2 ^ p.bits := by
    rw [hoffset, Nat.mul_comm]
    exact hitems
  rw [fromHandle_of_le htoken hle, hr]
  dsimp only [Except.bind]
  rw [Build.add_of_lt (by rw [hrNat]; exact hlt)]
  dsimp only
  refine if_congr ?_ ?_ rfl
  · rw [BitVec.le_def, BitVec.toNat_add_of_lt (by rw [hrNat]; exact hlt), hrNat,
      BitVec.toNat_add_of_lt map.in_object]
  · rw [hitem]
    dsimp only
    rw [Build.mul_of_lt hmul]

/-- A queue that begins below the start of the map, which cannot contain it, is not rejected: a debug
build panics. -/
theorem fromHandle_debug_below (htoken : handle.shmToken = map.token)
    (hlow : handle.rawOffset.toNat < map.offset.toNat)
    (hvalid : Valid handle.itemSize handle.itemCount)
    (hlt : handle.rawOffset.toNat + handle.required < 2 ^ p.bits)
    (hin : handle.rawOffset.toNat + handle.required ≤ map.offset.toNat + map.len.toNat) :
    ∃ message, fromHandle .debug handle map = .error (.panic message) := by
  obtain ⟨itemOffset, -, heq⟩ := fromHandle_of_lt htoken (Nat.le_of_lt hlow) hvalid hlt
  rw [heq, if_pos hin, Build.sub_debug hlow]
  exact ⟨_, rfl⟩

/-- The byte of the object at `k` bytes from the start of a queue inside the map. -/
theorem object_add {localOffset k : Usize p}
    (h : localOffset.toNat + k.toNat < map.len.toNat) :
    map.object (map.pointer + localOffset + k)
      = map.offset.toNat + localOffset.toNat + k.toNat := by
  have hlen := map.len.isLt
  have hsum : (localOffset + k).toNat = localOffset.toNat + k.toNat :=
    BitVec.toNat_add_of_lt (by omega)
  rw [BitVec.add_assoc, SharedMemMap.object_pointer_add (by omega), hsum, Nat.add_assoc]

/-- An instance whose queue lies in its map, at the place the handle names, sits there. -/
theorem sitsAt_of_room {localOffset itemOffset : Usize p}
    (hoffset : itemOffset.toNat = stride handle.itemSize)
    (hcount : 0 < handle.itemCount.toNat)
    (hlocal : map.offset.toNat + localOffset.toNat = handle.rawOffset.toNat)
    (hroom : localOffset.toNat + handle.required ≤ map.len.toNat) :
    SitsAt handle ⟨map, handle.rawOffset,
      map.pointer + localOffset + handle.itemCount * itemOffset, map.pointer + localOffset,
      handle.itemSize, itemOffset, handle.itemCount⟩ := by
  have hlen := map.len.isLt
  have hctrl : 0 < (ctrlSize p).toNat := by cases p <;> decide
  have hrequired : handle.required
      = handle.itemCount.toNat * itemOffset.toNat + (ctrlSize p).toNat := by
    rw [hoffset, Nat.mul_comm]
    rfl
  have hcontrol := BitVec.toNat_mul_of_lt (x := handle.itemCount) (y := itemOffset) (by omega)
  constructor
  · intro index
    have hmod : (index % handle.itemCount).toNat = index.toNat % handle.itemCount.toNat :=
      BitVec.toNat_umod
    have hlt : index.toNat % handle.itemCount.toNat * itemOffset.toNat
        ≤ handle.itemCount.toNat * itemOffset.toNat :=
      Nat.mul_le_mul_right _ (Nat.le_of_lt (Nat.mod_lt _ hcount))
    have hitem : (index % handle.itemCount * itemOffset).toNat
        = index.toNat % handle.itemCount.toNat * itemOffset.toNat := by
      rw [BitVec.toNat_mul_of_lt (by rw [hmod]; omega), hmod]
    show map.object (map.pointer + localOffset + index % handle.itemCount * itemOffset) = _
    rw [object_add (by omega), hitem, hlocal, hoffset]
  · show map.object (map.pointer + localOffset + handle.itemCount * itemOffset) = _
    rw [object_add (by omega), hcontrol, hlocal, hoffset, Nat.mul_comm]

/-- A queue at the very start of the map is accepted, and sits where the handle says. -/
theorem fromHandle_at (htoken : handle.shmToken = map.token)
    (heq : handle.rawOffset = map.offset) (hvalid : Valid handle.itemSize handle.itemCount)
    (hlt : handle.rawOffset.toNat + handle.required < 2 ^ p.bits)
    (hin : handle.rawOffset.toNat + handle.required ≤ map.offset.toNat + map.len.toNat) :
    ∃ q, SitsAt handle q ∧ ∀ b, fromHandle b handle map = .ok q := by
  have hle : map.offset.toNat ≤ handle.rawOffset.toNat :=
    Nat.le_of_eq (congrArg BitVec.toNat heq).symm
  have hsub : (handle.rawOffset - map.offset).toNat = 0 := by
    rw [heq, BitVec.sub_self]
    exact toNat_zero
  obtain ⟨itemOffset, hoffset, hfrom⟩ := fromHandle_of_lt htoken
    (Nat.le_of_eq (congrArg BitVec.toNat heq)) hvalid hlt
  refine ⟨_, sitsAt_of_room hoffset hvalid.1
    (by rw [hsub, heq]; rfl) (by rw [heq] at hin; omega), fun b => ?_⟩
  rw [hfrom, if_pos hin, Build.sub_of_le hle]
  rfl

/-- A new queue with room in its map sits where its handle says. -/
theorem sitsAt_of_newWithMemory {offset : Usize p} {q : Queue p}
    (hnew : newWithMemory b itemSize itemCount map offset = .ok q)
    (hroom : offset.toNat + Queue.required itemSize itemCount ≤ map.len.toNat) :
    SitsAt q.handle q := by
  have hlen := map.len.isLt
  have hspace := map.in_space
  have hctrl : 0 < (ctrlSize p).toNat := by cases p <;> decide
  have hsplit : Queue.required itemSize itemCount
      = stride itemSize * itemCount.toNat + (ctrlSize p).toNat := rfl
  unfold newWithMemory at hnew
  by_cases hvalid : Valid itemSize itemCount
  · obtain ⟨r, hr, hrNat⟩ := requiredSize_of_lt (b := b) hvalid (by omega)
    have hstride : stride itemSize ≤ stride itemSize * itemCount.toNat :=
      Nat.le_mul_of_pos_right _ hvalid.1
    obtain ⟨itemOffset, hitem, hoffset⟩ := itemOffsetFor_of_lt (b := b) hvalid.2.1 (by omega)
    have hitems : itemCount.toNat * itemOffset.toNat < 2 ^ p.bits := by
      rw [hoffset, Nat.mul_comm]
      omega
    have hend : ¬ map.len < offset + r := by
      rw [BitVec.lt_def, BitVec.toNat_add_of_lt (by omega)]
      omega
    rw [hr] at hnew
    simp only [bind, Except.bind, pure, Except.pure] at hnew
    rw [Build.add_of_lt (by omega), Build.add_of_lt (by omega)] at hnew
    dsimp only at hnew
    rw [if_neg hend] at hnew
    split at hnew
    · cases hnew
    · rw [Build.add_of_lt (by have := map.in_object; omega), hitem] at hnew
      dsimp only at hnew
      rw [Build.mul_of_lt hitems] at hnew
      obtain rfl := Except.ok.inj hnew
      refine sitsAt_of_room hoffset hvalid.1 ?_ hroom
      exact (BitVec.toNat_add_of_lt (by have := map.in_object; omega)).symm
  · obtain ⟨message, hpanic⟩ := requiredSize_of_not_valid (b := b) hvalid
    rw [hpanic] at hnew
    cases hnew

end FromHandle

/-! ## When `from_handle` is right -/

/-- Two instances resolve every slot and the control block to the same bytes of the object. -/
def SamePlaces (q q' : Queue p) : Prop :=
  (∀ index, q.mem.object (q.slotAddr index) = q'.mem.object (q'.slotAddr index)) ∧
    q.mem.object q.control = q'.mem.object q'.control

theorem SitsAt.samePlaces {handle : Handle p} {q q' : Queue p} (h : SitsAt handle q)
    (h' : SitsAt handle q') : SamePlaces q q' :=
  ⟨fun index => (h.slots index).trans (h'.slots index).symm, h.control.trans h'.control.symm⟩

/-- What is expected of `from_handle` for a handle with the token of the map. -/
structure Right (handle : Handle p) (map : SharedMemMap p) : Prop where
  /-- It accepts exactly what fits. -/
  accepts : ∀ b, (∃ q, fromHandle b handle map = .ok q) ↔ Fits handle map
  /-- It never panics, and in a debug build that means it never wraps. -/
  no_panic : ∀ b message, fromHandle b handle map ≠ .error (.panic message)
  sits : ∀ b q, fromHandle b handle map = .ok q → SitsAt handle q
  /-- The instance finds everything where the one that gave out the handle has it (a new queue sits
  where its handle says, see `sitsAt_of_newWithMemory`). -/
  relocates : ∀ q₀, q₀.handle = handle → SitsAt handle q₀ → ∀ b q, fromHandle b handle map = .ok q →
    SamePlaces q q₀

/-- The handles and maps for which `from_handle` is right. A queue above the start of the map is
rejected, whether it fits or not. For the others the numbers must be harmless; then the queue must
end past the map, or begin at its start and be usable there. -/
def RightFor (handle : Handle p) (map : SharedMemMap p) : Prop :=
  if map.offset.toNat < handle.rawOffset.toNat then ¬ Fits handle map
  else Valid handle.itemSize handle.itemCount ∧
    handle.rawOffset.toNat + handle.required < 2 ^ p.bits ∧
    (map.offset.toNat + map.len.toNat < handle.rawOffset.toNat + handle.required ∨
      handle.rawOffset = map.offset ∧ Usable handle map)

section Exact

variable {handle : Handle p} {map : SharedMemMap p}

theorem right_of_rejected {kind : ErrorKind} {message : String}
    (h : ∀ b, fromHandle b handle map = fail kind message) : Right handle map ↔ ¬ Fits handle map := by
  constructor
  · intro hright hfits
    obtain ⟨q, hq⟩ := (hright.accepts .release).mpr hfits
    rw [h] at hq
    cases hq
  · intro hnot
    constructor
    · intro b
      constructor
      · rintro ⟨q, hq⟩
        rw [h] at hq
        cases hq
      · intro hfits
        exact absurd hfits hnot
    · intro b message' hpanic
      rw [h] at hpanic
      cases hpanic
    · intro b q hq
      rw [h] at hq
      cases hq
    · intro q₀ _ _ b q hq
      rw [h] at hq
      cases hq

theorem right_of_accepted {q : Queue p} (hsits : SitsAt handle q)
    (h : ∀ b, fromHandle b handle map = .ok q) : Right handle map ↔ Fits handle map := by
  constructor
  · intro hright
    exact (hright.accepts .release).mp ⟨q, h .release⟩
  · intro hfits
    constructor
    · intro b
      exact ⟨fun _ => hfits, fun _ => ⟨q, h b⟩⟩
    · intro b message hpanic
      rw [h] at hpanic
      cases hpanic
    · intro b q' hq
      rw [h] at hq
      obtain rfl := Except.ok.inj hq
      exact hsits
    · intro q₀ _ hsits₀ b q' hq
      rw [h] at hq
      obtain rfl := Except.ok.inj hq
      exact hsits.samePlaces hsits₀

theorem not_right_of_panic (h : ∃ message, fromHandle b handle map = .error (.panic message)) :
    ¬ Right handle map := by
  intro hright
  obtain ⟨message, hpanic⟩ := h
  exact hright.no_panic b message hpanic

theorem right_iff_rightFor (htoken : handle.shmToken = map.token) :
    Right handle map ↔ RightFor handle map := by
  unfold RightFor
  by_cases hgt : map.offset.toNat < handle.rawOffset.toNat
  · rw [if_pos hgt]
    exact right_of_rejected fun b => fromHandle_of_gt htoken hgt
  · rw [if_neg hgt]
    have hle := Nat.le_of_not_lt hgt
    by_cases hvalid : Valid handle.itemSize handle.itemCount
    · by_cases hlt : handle.rawOffset.toNat + handle.required < 2 ^ p.bits
      · by_cases hin : handle.rawOffset.toNat + handle.required
            ≤ map.offset.toNat + map.len.toNat
        · by_cases heq : handle.rawOffset = map.offset
          · obtain ⟨q, hsits, hq⟩ := fromHandle_at htoken heq hvalid hlt hin
            rw [right_of_accepted hsits hq]
            constructor
            · intro hfits
              exact ⟨hvalid, hlt, .inr ⟨heq, hfits.usable⟩⟩
            · rintro ⟨-, -, hpast | ⟨-, husable⟩⟩
              · omega
              · exact ⟨hvalid, ⟨Nat.le_of_eq (congrArg BitVec.toNat heq).symm, hin⟩, husable⟩
          · -- the start of the queue is below the map
            have hlow : handle.rawOffset.toNat < map.offset.toNat :=
              Nat.lt_of_le_of_ne hle fun h => heq (BitVec.eq_of_toNat_eq h)
            refine iff_of_false (not_right_of_panic
              (fromHandle_debug_below htoken hlow hvalid hlt hin)) ?_
            rintro ⟨-, -, hpast | ⟨heq', -⟩⟩
            · omega
            · exact heq heq'
        · -- the end of the queue is past the map, and this is noticed
          obtain ⟨itemOffset, -, hfrom⟩ := fromHandle_of_lt htoken hle hvalid hlt
          rw [right_of_rejected fun b => (hfrom b).trans (if_neg hin)]
          refine iff_of_true (fun hfits => hin hfits.contains.2) ⟨hvalid, hlt, .inl ?_⟩
          exact Nat.lt_of_not_le hin
      · refine iff_of_false (not_right_of_panic
          (fromHandle_debug_overflow htoken hle hvalid (Nat.le_of_not_lt hlt))) ?_
        rintro ⟨-, hlt', -⟩
        exact hlt hlt'
    · refine iff_of_false (not_right_of_panic (b := .release)
        (fromHandle_of_not_valid htoken hle hvalid)) ?_
      rintro ⟨hvalid', -⟩
      exact hvalid hvalid'

end Exact

/-- When `Queue::from_handle` is right, for any three numbers and the token of the map. -/
theorem right_iff (rawOffset itemSize itemCount : Usize p) (map : SharedMemMap p) :
    Right ⟨rawOffset, itemSize, itemCount, map.token⟩ map ↔
      RightFor ⟨rawOffset, itemSize, itemCount, map.token⟩ map :=
  right_iff_rightFor rfl

/-- The second page of an object, mapped at the address `0x20000`. -/
def secondPage : SharedMemMap .w64 where
  pointer := 0x20000
  len := 4096
  access := .readWrite
  offset := 4096
  token := 0
  in_object := by decide
  in_space := by decide

/-- A queue of one item inside the second page is rejected, and one that begins in the first page and
ends in the second makes a debug build panic. -/
theorem not_right_secondPage :
    ¬ Right ⟨4160, 8, 1, 0⟩ secondPage ∧ ¬ Right ⟨4032, 8, 1, 0⟩ secondPage := by
  constructor
  · rw [right_iff_rightFor rfl]
    intro h
    exact h ⟨by decide, by decide, by decide⟩
  · rw [right_iff_rightFor rfl]
    rintro ⟨-, -, h⟩
    exact absurd h (by decide)

end Queue

end SandboxIpc
