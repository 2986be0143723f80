import SandboxIpc.Unix.SharedMem
import SandboxIpc.Windows.SharedMem

/-!
# The range law of `SharedMem::map`

* `RangeLaw` — both implementations reject what is out of bounds, and map what is not
* `EndIsFound` — the ranges for which the Unix implementation finds the right end
* `rangeLaw_iff` — these are the ranges that meet the law
* `rangeLaw_half` — the first half of an object is not one of them
-/

namespace SandboxIpc

variable {p : PointerWidth}

/-- On either platform, in an object of `size` bytes, for every access the handle allows and
wherever the operating system puts the mapping, a request for `r` is answered as it should be. -/
structure RangeLaw (b : Build) (page : Unix.PageSize p) (page' : Windows.PageSize p)
    (size : Usize p) (r : StdRange p) : Prop where
  unix : ∀ (m : Unix.SharedMem p) access (ptr : Unix.MmapArgs p → Usize p), m.size = size →
    m.Allows access →
    Obeys Unix.SharedMemMap.offset Unix.SharedMemMap.len size r
      (m.map b page (fun args => .ok (ptr args)) r.toRangeArgument access)
  windows : ∀ (m : Windows.SharedMem p) access (ptr : Windows.MapViewArgs p → Usize p),
    m.size = size →
    Obeys Windows.SharedMemMap.offset Windows.SharedMemMap.len size r
      (m.map b page' (fun args => .ok (ptr args)) r.toRangeArgument access)

/-- What a range must look like for `range.start()` to give away its end. -/
def EndIsFound (b : Build) (page : Unix.PageSize p) (size : Usize p) : StdRange p → Prop
  | .rangeFull => Unix.SharedMem.RoundUpFits b page size
  | .rangeFrom start => size.toNat < start.toNat ∨
      start.toNat + 1 = size.toNat ∧ Unix.SharedMem.RoundUpFits b page size
  | .rangeTo end_ => end_ = size ∧ Unix.SharedMem.RoundUpFits b page size
  | .range start end_ =>
      if start.toNat < size.toNat then
        end_.toNat = start.toNat + 1 ∧ Unix.SharedMem.RoundUpFits b page end_
      else ¬ (start = size ∧ end_ = size)

/-- The Unix implementation follows the ranges whose end it finds. -/
theorem unix_obeys_iff {b : Build} {page : Unix.PageSize p} {m : Unix.SharedMem p} {access : Access}
    {ptr : Unix.MmapArgs p → Usize p} (hallow : m.Allows access) (r : StdRange p) :
    Obeys Unix.SharedMemMap.offset Unix.SharedMemMap.len m.size r
      (m.map b page (fun args => .ok (ptr args)) r.toRangeArgument access) ↔
    EndIsFound b page m.size r := by
  have hsize := m.size.isLt
  cases r with
  | rangeFull =>
    rw [Unix.SharedMem.obeys_of_accepted hallow (Unix.SharedMem.bounds_of_unbounded rfl)
      (Nat.le_trans (Nat.le_of_eq toNat_zero) (Nat.zero_le _))]
    exact and_iff_right ⟨⟨Nat.zero_le _, Nat.le_refl _⟩, toNat_zero, rfl⟩
  | rangeFrom start =>
    have hbounds := Unix.SharedMem.bounds_of_included m (StdRange.rangeFrom start).toRangeArgument rfl
    by_cases hlt : start.toNat < m.size.toNat
    · rw [if_pos hlt] at hbounds
      have hsucc : (start + 1).toNat = start.toNat + 1 := toNat_add_one_of_lt hlt
      rw [Unix.SharedMem.obeys_of_accepted hallow hbounds (by omega)]
      constructor
      · rintro ⟨⟨-, -, hend⟩, hfits⟩
        have heq : start + 1 = m.size := BitVec.eq_of_toNat_eq hend
        rw [heq] at hfits hsucc
        exact .inr ⟨hsucc.symm, hfits⟩
      · rintro (hgt | ⟨hend, hfits⟩)
        · omega
        · have heq : start + 1 = m.size := BitVec.eq_of_toNat_eq (hsucc.trans hend)
          rw [heq]
          exact ⟨⟨⟨Nat.le_of_lt hlt, Nat.le_refl _⟩, rfl, rfl⟩, hfits⟩
    · rw [if_neg hlt] at hbounds
      rw [Unix.SharedMem.obeys_of_rejected hallow hbounds]
      constructor
      · intro hout
        exact .inl (Nat.lt_of_not_le fun hle => hout ⟨hle, Nat.le_refl _⟩)
      · rintro (hgt | ⟨hend, -⟩) ⟨hle, -⟩
        · exact absurd hle (Nat.not_le.mpr hgt)
        · omega
  | rangeTo end_ =>
    -- `range.start()` is unbounded, so the end comes out as the size
    rw [Unix.SharedMem.obeys_of_accepted hallow (Unix.SharedMem.bounds_of_unbounded rfl)
      (Nat.le_trans (Nat.le_of_eq toNat_zero) (Nat.zero_le _))]
    constructor
    · rintro ⟨⟨-, -, hend⟩, hfits⟩
      exact ⟨BitVec.eq_of_toNat_eq hend.symm, hfits⟩
    · rintro ⟨rfl, hfits⟩
      exact ⟨⟨⟨Nat.zero_le _, Nat.le_refl _⟩, toNat_zero, rfl⟩, hfits⟩
  | range start end_ =>
    have hbounds := Unix.SharedMem.bounds_of_included m (StdRange.range start end_).toRangeArgument rfl
    dsimp only [EndIsFound]
    by_cases hlt : start.toNat < m.size.toNat
    · rw [if_pos hlt] at hbounds ⊢
      have hsucc : (start + 1).toNat = start.toNat + 1 := toNat_add_one_of_lt hlt
      rw [Unix.SharedMem.obeys_of_accepted hallow hbounds (by omega)]
      constructor
      · rintro ⟨⟨-, -, hend⟩, hfits⟩
        have heq : start + 1 = end_ := BitVec.eq_of_toNat_eq hend
        rw [heq] at hfits hsucc
        exact ⟨hsucc, hfits⟩
      · rintro ⟨hend, hfits⟩
        have heq : start + 1 = end_ := BitVec.eq_of_toNat_eq (hsucc.trans hend.symm)
        rw [heq]
        exact ⟨⟨⟨Nat.le_trans (Nat.le_succ _) (Nat.le_of_eq hend.symm),
          Nat.le_trans (Nat.le_of_eq hend) hlt⟩, rfl, rfl⟩, hfits⟩
    · -- rejected; the empty range at the end of the object should not have been
      rw [if_neg hlt] at hbounds ⊢
      rw [Unix.SharedMem.obeys_of_rejected hallow hbounds, not_iff_not]
      constructor
      · rintro ⟨hle, hend⟩
        have hle : start.toNat ≤ end_.toNat := hle
        have hend : end_.toNat ≤ m.size.toNat := hend
        exact ⟨BitVec.eq_of_toNat_eq (by omega), BitVec.eq_of_toNat_eq (by omega)⟩
      · rintro ⟨rfl, rfl⟩
        exact ⟨Nat.le_refl _, Nat.le_refl _⟩

/-- The law forces the ranges: a read-only handle and any mapping will do to see it. -/
theorem endIsFound_of_rangeLaw {b : Build} {page : Unix.PageSize p} {page' : Windows.PageSize p}
    {size : Usize p} {r : StdRange p} (hlaw : RangeLaw b page page' size r) :
    EndIsFound b page size r := by
  have hread : Unix.SharedMem.Allows ⟨none, 0, size⟩ .read := by
    intro h
    cases h
  exact (unix_obeys_iff hread r).mp (hlaw.unix ⟨none, 0, size⟩ .read (fun _ => 0) rfl hread)

/--
When `SharedMem::map` follows the range it is given.

The Windows implementation always does. The Unix implementation takes the end of the range from its
start, and a debug build panics where rounding the end up to a page overflows.
-/
theorem rangeLaw_iff (b : Build) (page : Unix.PageSize p) (page' : Windows.PageSize p)
    (size : Usize p) (r : StdRange p) :
    RangeLaw b page page' size r ↔ EndIsFound b page size r := by
  constructor
  · exact endIsFound_of_rangeLaw
  · intro hfound
    constructor
    · rintro m access ptr rfl hallow
      exact (unix_obeys_iff hallow r).mpr hfound
    · rintro m access ptr rfl
      exact Windows.SharedMem.obeys r

/-- On Unix the first half of an object is mapped as the whole object. -/
theorem rangeLaw_half : ¬ RangeLaw (p := .w64) .release ⟨4096, by decide⟩ ⟨4096, by decide⟩ 8192
    (.rangeTo 4096) := by
  intro hlaw
  exact absurd (endIsFound_of_rangeLaw hlaw).1 (by decide)

end SandboxIpc
