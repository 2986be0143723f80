import SandboxIpc.Machine
import Mathlib.Logic.Function.Basic

/-!
# Ranges and maps of shared memory, `shm/mod.rs`

* `RangeArgument` — the trait; `StdRange` — the four range types that implement it
* `StdRange.first`, `StdRange.past` — the interval a range denotes in an object of a given size
* `Obeys` — what `map` should do with a range, in terms of that interval
* `SharedMemMap` — a map as the rest of the crate sees it; `object` is the byte of the object an
  address in the map stands for
* `Memory` — the bytes of the address space
-/

namespace SandboxIpc

variable {p : PointerWidth}

/-- `std::collections::Bound`. -/
inductive Bound (α : Type)
  | included (i : α)
  | excluded (i : α)
  | unbounded
  deriving DecidableEq

/-- The two methods of the trait `RangeArgument<usize>`. -/
structure RangeArgument (p : PointerWidth) where
  start : Bound (Usize p)
  end_ : Bound (Usize p)

/-- A value of type `RangeFull`, `RangeFrom`, `RangeTo` or `Range`. -/
inductive StdRange (p : PointerWidth)
  | rangeFull
  | rangeFrom (start : Usize p)
  | rangeTo (end_ : Usize p)
  | range (start end_ : Usize p)

/-- The implementations of the trait. -/
def StdRange.toRangeArgument : StdRange p → RangeArgument p
  | .rangeFull => ⟨.unbounded, .unbounded⟩
  | .rangeFrom start => ⟨.included start, .unbounded⟩
  | .rangeTo end_ => ⟨.unbounded, .excluded end_⟩
  | .range start end_ => ⟨.included start, .excluded end_⟩

/-- `shm::Access`. -/
inductive Access
  | read
  | readWrite
  deriving DecidableEq

/-! ## What a range means -/

/-- Where the denoted interval starts; a missing start is 0. -/
def StdRange.first : StdRange p → Nat
  | .rangeFull | .rangeTo _ => 0
  | .rangeFrom start | .range start _ => start.toNat

/-- Where the denoted interval ends in an object of `size` bytes; a missing end is `size`. -/
def StdRange.past (size : Usize p) : StdRange p → Nat
  | .rangeFull | .rangeFrom _ => size.toNat
  | .rangeTo end_ | .range _ end_ => end_.toNat

/-- The interval is one of bytes of the object. -/
def StdRange.Inside (size : Usize p) (r : StdRange p) : Prop :=
  r.first ≤ r.past size ∧ r.past size ≤ size.toNat

instance (size : Usize p) (r : StdRange p) : Decidable (r.Inside size) :=
  inferInstanceAs (Decidable (_ ∧ _))

/-- `outcome`, given to a request for `r`, rejects it or describes the window that `r` denotes. -/
structure Obeys {M : Type} (offset len : M → Usize p) (size : Usize p) (r : StdRange p)
    (outcome : Outcome M) : Prop where
  rejects : ¬ r.Inside size → ∃ message, outcome = fail .invalidInput message
  accepts : r.Inside size → ∃ m, outcome = .ok m ∧ (offset m).toNat = r.first ∧
    (len m).toNat = r.past size - r.first

/-! ## A map -/

/-- `Uuid`. -/
abbrev Uuid := BitVec 128

/-- A map as the code outside the platform modules sees it: the methods of `shm::SharedMemMap`.

The two invariants are what `map` has checked and what the operating system guarantees: the window
lies in the object, whose size is a `usize`, and the mapping lies in the address space. -/
structure SharedMemMap (p : PointerWidth) where
  pointer : Usize p
  len : Usize p
  access : Access
  offset : Usize p
  token : Uuid
  in_object : offset.toNat + len.toNat < 2 ^ p.bits
  in_space : pointer.toNat + len.toNat ≤ 2 ^ p.bits

namespace SharedMemMap

variable (map : SharedMemMap p)

/-- The map contains the `size` bytes of the object from `raw` on. -/
def Contains (raw size : Nat) : Prop :=
  map.offset.toNat ≤ raw ∧ raw + size ≤ map.offset.toNat + map.len.toNat

instance (raw size : Nat) : Decidable (map.Contains raw size) :=
  inferInstanceAs (Decidable (_ ∧ _))

/-- The byte of the object that lies at an address in the map. -/
def object (addr : Usize p) : Nat := map.offset.toNat + (addr.toNat - map.pointer.toNat)

variable {map}

/-- An address computed from an offset inside the map is that far above its pointer. -/
theorem toNat_pointer_add {k : Usize p} (h : k.toNat < map.len.toNat) :
    (map.pointer + k).toNat = map.pointer.toNat + k.toNat := by
  have := map.in_space
  exact BitVec.toNat_add_of_lt (by omega)

theorem object_pointer_add {k : Usize p} (h : k.toNat < map.len.toNat) :
    map.object (map.pointer + k) = map.offset.toNat + k.toNat := by
  unfold object
  rw [toNat_pointer_add h, Nat.add_sub_cancel_left]

/-- What the map contains, it contains at an offset that is a `usize`. -/
theorem local_of_contains {raw : Usize p} {size : Nat} (h : map.Contains raw.toNat size) :
    (raw - map.offset).toNat + size ≤ map.len.toNat := by
  have hlo := h.1
  have hhi := h.2
  rw [BitVec.toNat_sub_of_le (BitVec.le_def.mpr hlo)]
  omega

end SharedMemMap

/-! ## Memory -/

/-- The bytes of an address space. -/
abbrev Memory (p : PointerWidth) := Usize p → BitVec 8

namespace Memory

/-- A store to an `AtomicBool`. -/
def storeBool (memory : Memory p) (addr : Usize p) (value : Bool) : Memory p :=
  Function.update memory addr (if value then 1 else 0)

/-- A load from an `AtomicUsize`, least significant byte first. -/
def loadUsize (memory : Memory p) (addr : Usize p) : Usize p :=
  (List.range (usizeSize p).toNat).foldr
    (fun i x => x <<< 8 ||| (memory (addr + BitVec.ofNat _ i)).setWidth p.bits) 0

/-- A store to an `AtomicUsize`. -/
def storeUsize (memory : Memory p) (addr value : Usize p) : Memory p := fun a =>
  if (a - addr).toNat < (usizeSize p).toNat then (value >>> (8 * (a - addr).toNat)).setWidth 8
  else memory a

end Memory

end SandboxIpc
