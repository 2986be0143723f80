import SandboxIpc.Shm.Queue.Handle
import Mathlib.Order.CompletePartialOrder
import Mathlib.Order.Interval.Set.Disjoint

/-!
# Where a new queue lies, `shm/queue.rs`

`new_with_memory` computes the size of the queue and the places of its parts with the arithmetic of
the build. In a release build every step of it may wrap around.

* `LaidOut` — the slots and the control block lie in the map, apart from each other
* `newWithMemory_release` — what a release build makes of any arguments
* `laidOut_iff` — when a queue that is made is laid out so
* `not_laidOut_huge` — a queue of `2 ^ 64` bytes in two pages
-/

namespace SandboxIpc

namespace Queue

open Infra

variable {p : PointerWidth}

/-- The addresses of `size` bytes. -/
def bytes (start size : Nat) : Set Nat := Set.Ico start (start + size)

/-- The queue lies behind `offset` bytes of the map, in exact arithmetic. -/
structure LaidOut (itemSize itemCount : Usize p) (map : SharedMemMap p) (offset : Usize p)
    (q : Queue p) : Prop where
  /-- The addresses the code computes are the exact ones. -/
  slot_exact : ∀ i, i < itemCount → (q.slotAddr i).toNat
    = map.pointer.toNat + offset.toNat + i.toNat * stride itemSize
  control_exact : q.control.toNat
    = map.pointer.toNat + offset.toNat + itemCount.toNat * stride itemSize
  slot_inside : ∀ i, i < itemCount → bytes (q.slotAddr i).toNat itemSize.toNat
    ⊆ Set.Ico (map.pointer.toNat + offset.toNat) (map.pointer.toNat + map.len.toNat)
  control_inside : bytes q.control.toNat (ctrlSize p).toNat
    ⊆ Set.Ico (map.pointer.toNat + offset.toNat) (map.pointer.toNat + map.len.toNat)
  slots_apart : ∀ i j, i < itemCount → j < itemCount → i ≠ j →
    Disjoint (bytes (q.slotAddr i).toNat itemSize.toNat) (bytes (q.slotAddr j).toNat itemSize.toNat)
  control_apart : ∀ i, i < itemCount →
    Disjoint (bytes (q.slotAddr i).toNat itemSize.toNat) (bytes q.control.toNat (ctrlSize p).toNat)
  aligned : q.control.toNat % (usizeSize p).toNat = 0

variable {itemSize itemCount offset itemOffset : Usize p} {map : SharedMemMap p} {q : Queue p}

/-! ## Bytes -/

theorem bytes_subset {start size lo hi : Nat} (hlo : lo ≤ start) (hhi : start + size ≤ hi) :
    bytes start size ⊆ Set.Ico lo hi :=
  Set.Ico_subset_Ico hlo hhi

theorem disjoint_bytes {start size start' size' : Nat} (h : start + size ≤ start') :
    Disjoint (bytes start size) (bytes start' size') :=
  Set.Ico_disjoint_Ico.mpr (by omega)

/-- An item is no larger than the distance of two slots. -/
theorem le_stride (itemSize : Usize p) : itemSize.toNat ≤ stride itemSize := by
  unfold stride
  omega

/-! ## What a release build computes -/

/-- Rounding up to a cache line commutes with wrapping around. -/
theorem itemOffsetFor_release (hpos : 0 < itemSize.toNat) :
    ∃ r, itemOffsetFor .release itemSize = .ok r ∧ r.toNat = stride itemSize % 2 ^ p.bits := by
  obtain ⟨-, hmask, -⟩ := cacheLine_sub_one (p := p)
  refine ⟨_, itemOffsetFor_eq hpos, ?_⟩
  rw [toNat_and_not_mask, BitVec.toNat_add, hmask]
  unfold stride
  cases p with
  | w32 =>
    show (itemSize.toNat + 63) % 2 ^ 32 / 2 ^ 6 * 2 ^ 6 = _ % 2 ^ 32
    omega
  | w64 =>
    show (itemSize.toNat + 63) % 2 ^ 64 / 2 ^ 6 * 2 ^ 6 = _ % 2 ^ 64
    omega

theorem requiredSize_release (hvalid : Valid itemSize itemCount) :
    ∃ r, requiredSize .release itemSize itemCount = .ok r ∧
      r.toNat = required itemSize itemCount % 2 ^ p.bits := by
  obtain ⟨itemOffset, hitem, hoffset⟩ := itemOffsetFor_release hvalid.2.1
  refine ⟨itemOffset * itemCount + ctrlSize p, ?_, ?_⟩
  · rw [requiredSize_of_valid hvalid, hitem]
    rfl
  · rw [BitVec.toNat_add, BitVec.toNat_mul, hoffset, Nat.mod_add_mod, Nat.add_mod, Nat.mod_mul_mod,
      ← Nat.add_mod]
    rfl

/-- The queue that is made unless the arguments are rejected. -/
def made (itemSize itemCount : Usize p) (map : SharedMemMap p) (offset itemOffset : Usize p) :
    Queue p where
  mem := map
  rawOffset := map.offset + offset
  control := map.pointer + offset + itemCount * itemOffset
  itemsBase := map.pointer + offset
  itemSize
  itemOffset
  itemCount

/-- The sums and the product wrap around, and so do the comparisons made with them. -/
theorem newWithMemory_release (map : SharedMemMap p) (offset : Usize p)
    (hvalid : Valid itemSize itemCount) :
    ∃ itemOffset : Usize p, itemOffset.toNat = stride itemSize % 2 ^ p.bits ∧
      newWithMemory .release itemSize itemCount map offset =
        if map.len.toNat < (offset.toNat + required itemSize itemCount) % 2 ^ p.bits then
          fail .invalidInput "insufficient space for shared memory queue of requested size"
        else if (map.pointer.toNat + offset.toNat) % (usizeSize p).toNat ≠ 0 then
          fail .invalidInput "mapped memory for shared memory queue must be aligned"
        else .ok (made itemSize itemCount map offset itemOffset) := by
  obtain ⟨itemOffset, hitem, hoffset⟩ := itemOffsetFor_release hvalid.2.1
  obtain ⟨r, hr, hrNat⟩ := requiredSize_release hvalid
  have hspace : map.len < offset + r
      ↔ map.len.toNat < (offset.toNat + required itemSize itemCount) % 2 ^ p.bits := by
    rw [BitVec.lt_def, BitVec.toNat_add, hrNat, Nat.add_mod_mod]
  have haligned : (map.pointer + offset) % usizeSize p ≠ 0
      ↔ (map.pointer.toNat + offset.toNat) % (usizeSize p).toNat ≠ 0 := by
    rw [Ne, eq_zero_iff, BitVec.toNat_umod, BitVec.toNat_add, Nat.mod_mod_of_dvd]
    cases p <;> decide
  refine ⟨itemOffset, hoffset, ?_⟩
  unfold newWithMemory
  simp only [bind, Except.bind, pure, Except.pure]
  rw [hr, hitem]
  dsimp only [Build.add_release]
  by_cases hroom : map.len.toNat < (offset.toNat + required itemSize itemCount) % 2 ^ p.bits
  · rw [if_pos (hspace.mpr hroom), if_pos hroom]
    rfl
  · rw [if_neg (mt hspace.mp hroom), if_neg hroom]
    by_cases hodd : (map.pointer.toNat + offset.toNat) % (usizeSize p).toNat ≠ 0
    · rw [if_pos (haligned.mpr hodd), if_pos hodd]
      rfl
    · rw [if_neg (mt haligned.mp hodd), if_neg hodd]
      rfl

/-! ## When the queue is laid out -/

theorem required_eq (itemSize itemCount : Usize p) : required itemSize itemCount
    = itemCount.toNat * stride itemSize + (ctrlSize p).toNat := by
  unfold required
  rw [Nat.mul_comm]

/-- With room for the exact size, nothing wraps around and everything is where it should be. -/
theorem laidOut_of_room (hvalid : Valid itemSize itemCount)
    (hoffset : itemOffset.toNat = stride itemSize)
    (hroom : offset.toNat + required itemSize itemCount ≤ map.len.toNat)
    (haligned : (map.pointer.toNat + offset.toNat) % (usizeSize p).toNat = 0) :
    LaidOut itemSize itemCount map offset (made itemSize itemCount map offset itemOffset) := by
  have hspace := map.in_space
  have hlen := map.len.isLt
  have hctrl : 0 < (ctrlSize p).toNat := by cases p <;> decide
  have hsize := required_eq itemSize itemCount
  have hitem := le_stride itemSize
  have hbase : (map.pointer + offset).toNat = map.pointer.toNat + offset.toNat :=
    BitVec.toNat_add_of_lt (by omega)
  -- a multiple of the stride that is not past the control block
  have hplace : ∀ k : Usize p, k.toNat * stride itemSize ≤ itemCount.toNat * stride itemSize →
      (map.pointer + offset + k * itemOffset).toNat
        = map.pointer.toNat + offset.toNat + k.toNat * stride itemSize := by
    intro k hk
    have hmul : (k * itemOffset).toNat = k.toNat * stride itemSize := by
      rw [BitVec.toNat_mul_of_lt (by rw [hoffset]; omega), hoffset]
    rw [BitVec.toNat_add_of_lt (by omega), hbase, hmul]
  have hbelow : ∀ i j : Usize p, i.toNat < j.toNat →
      i.toNat * stride itemSize + stride itemSize ≤ j.toNat * stride itemSize := by
    intro i j hij
    rw [← Nat.succ_mul]
    exact Nat.mul_le_mul_right _ hij
  have hslot : ∀ i, i < itemCount →
      ((made itemSize itemCount map offset itemOffset).slotAddr i).toNat
        = map.pointer.toNat + offset.toNat + i.toNat * stride itemSize := by
    intro i hi
    have hmod : i % itemCount = i := by
      refine BitVec.eq_of_toNat_eq ?_
      rw [BitVec.toNat_umod, Nat.mod_eq_of_lt (BitVec.lt_def.mp hi)]
    show (map.pointer + offset + i % itemCount * itemOffset).toNat = _
    rw [hmod, hplace i (Nat.mul_le_mul_right _ (Nat.le_of_lt (BitVec.lt_def.mp hi)))]
  have hcontrol : (made itemSize itemCount map offset itemOffset).control.toNat
      = map.pointer.toNat + offset.toNat + itemCount.toNat * stride itemSize :=
    hplace itemCount (Nat.le_refl _)
  constructor
  · exact hslot
  · exact hcontrol
  · intro i hi
    have hlt := hbelow i itemCount (BitVec.lt_def.mp hi)
    rw [hslot i hi]
    exact bytes_subset (by omega) (by omega)
  · rw [hcontrol]
    exact bytes_subset (by omega) (by omega)
  · intro i j hi hj hne
    rw [hslot i hi, hslot j hj]
    rcases Nat.lt_or_gt_of_ne fun he => hne (BitVec.eq_of_toNat_eq he) with hlt | hlt
    · have hle := hbelow i j hlt
      exact disjoint_bytes (by omega)
    · have hle := hbelow j i hlt
      exact (disjoint_bytes (by omega)).symm
  · intro i hi
    have hlt := hbelow i itemCount (BitVec.lt_def.mp hi)
    rw [hslot i hi, hcontrol]
    exact disjoint_bytes (by omega)
  · have hword : (usizeSize p).toNat ∣ 64 := by cases p <;> decide
    have hline : (usizeSize p).toNat ∣ itemCount.toNat * stride itemSize :=
      Nat.dvd_trans (Nat.dvd_trans hword (Nat.dvd_mul_left 64 _)) (Nat.dvd_mul_left _ _)
    rw [hcontrol, Nat.add_mod, haligned, Nat.mod_eq_zero_of_dvd hline]
    rfl

/-- What is laid out has room. -/
theorem room_of_laidOut (h : LaidOut itemSize itemCount map offset q) :
    offset.toNat + required itemSize itemCount ≤ map.len.toNat := by
  have hctrl : 0 < (ctrlSize p).toNat := by cases p <;> decide
  have hsize := required_eq itemSize itemCount
  have hexact := h.control_exact
  have hend := ((Set.Ico_subset_Ico_iff (by omega)).mp h.control_inside).2
  omega

/--
When a new queue is laid out as it should be.

The arguments pass the assertions of `required_size`, and the build is a release build. The queue
that is made, if one is, lies in the map if and only if the exact end of the queue is a `usize`, or
what is left of it after wrapping around is too large for the map all the same, or the place is not
aligned.
-/
theorem laidOut_iff (hvalid : Valid itemSize itemCount) :
    (∀ q, newWithMemory .release itemSize itemCount map offset = .ok q →
      LaidOut itemSize itemCount map offset q) ↔
    offset.toNat + required itemSize itemCount < 2 ^ p.bits ∨
      map.len.toNat < (offset.toNat + required itemSize itemCount) % 2 ^ p.bits ∨
      (map.pointer.toNat + offset.toNat) % (usizeSize p).toNat ≠ 0 := by
  have hlen := map.len.isLt
  obtain ⟨itemOffset, hoffset, hnew⟩ := newWithMemory_release map offset hvalid
  rw [hnew]
  by_cases hsmall : map.len.toNat < (offset.toNat + required itemSize itemCount) % 2 ^ p.bits
  · rw [if_pos hsmall]
    exact ⟨fun _ => .inr (.inl hsmall), fun _ => nofun⟩
  rw [if_neg hsmall]
  by_cases hodd : (map.pointer.toNat + offset.toNat) % (usizeSize p).toNat ≠ 0
  · rw [if_pos hodd]
    exact ⟨fun _ => .inr (.inr hodd), fun _ => nofun⟩
  rw [if_neg hodd]
  constructor
  · intro h
    have hroom := room_of_laidOut (h _ rfl)
    exact .inl (by omega)
  · rintro hfits q hq
    obtain rfl := Except.ok.inj hq
    have hlt := (hfits.resolve_right (not_or.mpr ⟨hsmall, hodd⟩))
    rw [Nat.mod_eq_of_lt hlt] at hsmall
    refine laidOut_of_room hvalid ?_ (Nat.le_of_not_lt hsmall) (not_not.mp hodd)
    have hstride : stride itemSize ≤ itemCount.toNat * stride itemSize :=
      Nat.le_mul_of_pos_left _ hvalid.1
    have hsize := required_eq itemSize itemCount
    rw [hoffset, Nat.mod_eq_of_lt (by omega)]

/-- Two pages at the address `0x20000`. -/
def twoPages : SharedMemMap .w64 where
  pointer := 0x20000
  len := 8192
  access := .readWrite
  offset := 0
  token := 0
  in_object := by decide
  in_space := by decide

/-- A queue of three items of 100 bytes is laid out in it. -/
theorem laidOut_three : Valid (100 : Usize .w64) 3 ∧
    ∀ q, newWithMemory .release 100 3 twoPages 64 = .ok q → LaidOut 100 3 twoPages 64 q :=
  ⟨by decide, (laidOut_iff (by decide)).mpr (.inl (by decide))⟩

/-- The size of an item of which 64 are `2 ^ 64` bytes. -/
def hugeItem : Usize .w64 := BitVec.ofNat _ (2 ^ 58)

/-- A queue of 64 such items is made in the two pages. -/
theorem not_laidOut_huge : Valid hugeItem 64 ∧
    ∃ q, newWithMemory .release hugeItem 64 twoPages 0 = .ok q ∧ ¬ LaidOut hugeItem 64 twoPages 0 q := by
  refine ⟨by decide, _, rfl, fun h => ?_⟩
  exact absurd (room_of_laidOut h) (by decide)

end Queue

end SandboxIpc
