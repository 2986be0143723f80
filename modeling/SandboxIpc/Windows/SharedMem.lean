import SandboxIpc.Shm.Map

/-!
# Mapping shared memory, `windows/sharedmem.rs`

* `SharedMem.map_of_bounds` — what passes the bounds check is mapped as the check found it
* `SharedMem.obeys` — `map` follows the range it is given
-/

namespace SandboxIpc.Windows

open Infra

variable {p : PointerWidth}

/-- `SharedMem`; the handle of the file mapping plays no part in `map`. -/
structure SharedMem (p : PointerWidth) where
  size : Usize p

structure SharedMemMap (p : PointerWidth) where
  mappingPointer : Usize p
  mappingLen : Usize p
  userPointer : Usize p
  userLen : Usize p
  access : Access
  userOffset : Usize p

/-- `SharedMemMap::offset` and `SharedMemMap::len`. -/
def SharedMemMap.offset (m : SharedMemMap p) : Usize p := m.userOffset

def SharedMemMap.len (m : SharedMemMap p) : Usize p := m.userLen

/-- `*PAGE_SIZE`. -/
structure PageSize (p : PointerWidth) where
  val : Usize p
  pos : 0 < val.toNat

/-- `high_bits`. -/
def highBits (x : Usize p) : BitVec 32 :=
  match p with
  | .w32 => 0
  | .w64 => (x >>> 32).setWidth 32

/-- The arguments of `MapViewOfFile` that vary; `access` is `FILE_MAP_READ` or `FILE_MAP_WRITE`. -/
structure MapViewArgs (p : PointerWidth) where
  access : Access
  offsetHigh : BitVec 32
  offsetLow : BitVec 32
  len : Usize p

/-- What `MapViewOfFile` answers: an error, or where it put the view. -/
abbrev MapView (p : PointerWidth) := MapViewArgs p → Except IoError (Usize p)

namespace SharedMem

/-- The first index of the range. -/
def startIndex (range : RangeArgument p) : Option (Usize p) :=
  match range.start with
  | .included i => some i
  | .excluded i => checkedAdd i 1
  | .unbounded => some 0

/-- How many bytes the range has from `offset` on. -/
def length (m : SharedMem p) (range : RangeArgument p) (offset : Usize p) : Option (Usize p) :=
  match range.end_ with
  | .included i => (checkedAdd i 1).bind fun x => checkedSub x offset
  | .excluded i => checkedSub i offset
  | .unbounded => checkedSub m.size offset

/-- The bounds check: the offset and the length of the window. -/
def bounds (b : Build) (m : SharedMem p) (range : RangeArgument p) : Outcome (Usize p × Usize p) :=
  match startIndex range, (startIndex range).bind (m.length range) with
  | some offset, some len => do
    if (← b.add offset len) ≤ m.size then return (offset, len)
    else fail .invalidInput "requested memory map range is out of bounds"
  | _, _ => fail .invalidInput "requested memory map range is out of bounds"

/-- Where the view has to start: the offset of a view must be a multiple of the page size. -/
def viewOffset (page : PageSize p) (offset : Usize p) : Usize p :=
  if offset % page.val = 0 then offset else offset - offset % page.val

/-- The offset and the length of the view that covers the window. -/
def view (b : Build) (page : PageSize p) (offset len : Usize p) : Outcome (Usize p × Usize p) := do
  let mappingLen ← b.sub (← b.add len offset) (viewOffset page offset)
  return (viewOffset page offset, mappingLen)

def map (b : Build) (page : PageSize p) (mapView : MapView p) (m : SharedMem p)
    (range : RangeArgument p) (access : Access) : Outcome (SharedMemMap p) := do
  let (offset, len) ← m.bounds b range
  let (mappingOffset, mappingLen) ← view b page offset len
  match mapView {
    access
    offsetHigh := highBits mappingOffset
    offsetLow := mappingOffset.setWidth 32
    len := mappingLen } with
  | .error e => .error (.err e)
  | .ok addr =>
    return {
      mappingPointer := addr
      mappingLen
      userPointer := addr + (offset - mappingOffset)
      userLen := len
      access
      userOffset := offset }

variable {m : SharedMem p} {range : RangeArgument p} {access : Access} {b : Build}
  {page : PageSize p} {offset len : Usize p} {ptr : MapViewArgs p → Usize p}

theorem toNat_viewOffset_le : (viewOffset page offset).toNat ≤ offset.toNat := by
  have hmod : (offset % page.val).toNat ≤ offset.toNat := toNat_umod_le _ _
  unfold viewOffset
  split
  · exact Nat.le_refl _
  · rw [BitVec.toNat_sub_of_le (BitVec.le_def.mpr hmod)]
    exact Nat.sub_le _ _

/-- Nothing overflows after the bounds check. -/
theorem view_ok (h : offset.toNat + len.toNat < 2 ^ p.bits) : ∃ r, view b page offset len = .ok r := by
  have hle : (viewOffset page offset).toNat ≤ offset.toNat := toNat_viewOffset_le
  have hsum := BitVec.toNat_add_of_lt (x := len) (y := offset) (by omega)
  unfold view
  rw [Build.add_of_lt (by omega)]
  dsimp only [bind, Except.bind]
  rw [Build.sub_of_le (by omega)]
  exact ⟨_, rfl⟩

theorem map_of_error {mapView : MapView p} {stop : Stop} (h : m.bounds b range = .error stop) :
    m.map b page mapView range access = .error stop := by
  unfold map
  rw [h]
  rfl

/-- A request that passes the bounds check is mapped as the check found it. -/
theorem map_of_bounds (h : m.bounds b range = .ok (offset, len))
    (hlt : offset.toNat + len.toNat < 2 ^ p.bits) :
    ∃ r, m.map b page (fun args => .ok (ptr args)) range access = .ok r ∧ r.offset = offset ∧
      r.len = len := by
  obtain ⟨v, hv⟩ : ∃ v, view b page offset len = .ok v := view_ok hlt
  unfold map
  rw [h]
  dsimp only [bind, Except.bind]
  rw [hv]
  exact ⟨_, rfl, rfl, rfl⟩

/-- A difference that has been checked can be added again. -/
theorem sum_lt_of_length {offset len : Usize p} (h : m.length range offset = some len) :
    offset.toNat + len.toNat < 2 ^ p.bits := by
  have hsub : ∀ x : Usize p, checkedSub x offset = some len →
      offset.toNat + len.toNat < 2 ^ p.bits := by
    intro x hx
    obtain ⟨hle, heq⟩ := Option.ite_none_right_eq_some.mp hx
    obtain rfl := Option.some.inj heq
    rw [BitVec.toNat_sub_of_le (BitVec.le_def.mpr hle), Nat.add_sub_cancel' hle]
    exact x.isLt
  unfold length at h
  split at h
  · obtain ⟨x, -, hx⟩ := Option.bind_eq_some_iff.mp h
    exact hsub x hx
  · exact hsub _ h
  · exact hsub _ h

/-- What passes the check lies in the object. -/
theorem le_of_bounds {offset len : Usize p} (h : m.bounds b range = .ok (offset, len)) :
    offset.toNat + len.toNat ≤ m.size.toNat := by
  unfold bounds at h
  rcases hstart : startIndex range with _ | first
  · rw [hstart] at h
    cases h
  · rcases hlength : m.length range first with _ | count
    · rw [hstart, Option.bind_some, hlength] at h
      cases h
    · have hsum : first.toNat + count.toNat < 2 ^ p.bits := sum_lt_of_length hlength
      rw [hstart, Option.bind_some, hlength] at h
      dsimp only at h
      rw [Build.add_of_lt hsum] at h
      dsimp only [bind, Except.bind] at h
      split at h
      · next hle =>
        obtain ⟨rfl, rfl⟩ := Prod.mk.inj (Except.ok.inj h)
        rwa [BitVec.le_def, BitVec.toNat_add_of_lt hsum] at hle
      · cases h

/-- The bounds check, where the start of the range is `first` and its end `past`. -/
theorem bounds_of_ends {first past : Usize p}
    (hstart : range.start = .included first ∨ range.start = .unbounded ∧ first = 0)
    (hend : range.end_ = .excluded past ∨ range.end_ = .unbounded ∧ past = m.size) :
    m.bounds b range = if first.toNat ≤ past.toNat ∧ past.toNat ≤ m.size.toNat
      then .ok (first, past - first)
      else fail .invalidInput "requested memory map range is out of bounds" := by
  have hsize := m.size.isLt
  have hpast := past.isLt
  have hfirst : startIndex range = some first := by
    unfold startIndex
    rcases hstart with hs | ⟨hs, rfl⟩ <;> rw [hs]
  have hlength : m.length range first = checkedSub past first := by
    unfold length
    rcases hend with he | ⟨he, rfl⟩ <;> rw [he]
  unfold bounds
  rw [hfirst, Option.bind_some, hlength]
  unfold checkedSub
  by_cases hle : first.toNat ≤ past.toNat
  · have hsub := BitVec.toNat_sub_of_le (BitVec.le_def.mpr hle)
    have hsum := BitVec.toNat_add_of_lt (x := first) (y := past - first) (by omega)
    rw [if_pos hle]
    dsimp only
    rw [Build.add_of_lt (by omega)]
    dsimp only [bind, Except.bind]
    refine if_congr ?_ rfl rfl
    rw [BitVec.le_def]
    omega
  · rw [if_neg hle, if_neg (fun h => hle h.1)]

/-- The bounds check on the four range types: the window is the denoted interval. -/
theorem bounds_std (r : StdRange p) :
    (r.Inside m.size → ∃ offset len, m.bounds b r.toRangeArgument = .ok (offset, len) ∧
      offset.toNat = r.first ∧ len.toNat = r.past m.size - r.first) ∧
    (¬ r.Inside m.size → m.bounds b r.toRangeArgument
      = fail .invalidInput "requested memory map range is out of bounds") := by
  obtain ⟨first, past, hfirst, hpast, hbounds⟩ : ∃ first past : Usize p,
      first.toNat = r.first ∧ past.toNat = r.past m.size ∧
      m.bounds b r.toRangeArgument = if first.toNat ≤ past.toNat ∧ past.toNat ≤ m.size.toNat
        then .ok (first, past - first)
        else fail .invalidInput "requested memory map range is out of bounds" := by
    cases r with
    | rangeFull =>
      exact ⟨0, m.size, toNat_zero, rfl, bounds_of_ends (.inr ⟨rfl, rfl⟩) (.inr ⟨rfl, rfl⟩)⟩
    | rangeFrom start => exact ⟨start, m.size, rfl, rfl, bounds_of_ends (.inl rfl) (.inr ⟨rfl, rfl⟩)⟩
    | rangeTo end_ => exact ⟨0, end_, toNat_zero, rfl, bounds_of_ends (.inr ⟨rfl, rfl⟩) (.inl rfl)⟩
    | range start end_ => exact ⟨start, end_, rfl, rfl, bounds_of_ends (.inl rfl) (.inl rfl)⟩
  rw [hbounds, hfirst, hpast]
  constructor
  · intro hin
    refine ⟨first, past - first, if_pos hin, hfirst, ?_⟩
    rw [BitVec.toNat_sub_of_le (by rw [BitVec.le_def]; rw [hfirst, hpast]; exact hin.1), hfirst, hpast]
  · intro hout
    exact if_neg hout

/-- On Windows `map` follows the range it is given. -/
theorem obeys (r : StdRange p) : Obeys SharedMemMap.offset SharedMemMap.len m.size r
    (m.map b page (fun args => .ok (ptr args)) r.toRangeArgument access) where
  rejects hout := ⟨_, map_of_error ((bounds_std r).2 hout)⟩
  accepts hin := by
    obtain ⟨offset, len, hbounds, hfirst, hlen⟩ := (bounds_std r).1 hin
    have hsize := m.size.isLt
    have hsum : offset.toNat + len.toNat < 2 ^ p.bits := by
      rw [hfirst, hlen, Nat.add_sub_cancel' hin.1]
      exact Nat.lt_of_le_of_lt hin.2 hsize
    obtain ⟨w, hw, hoffset, hl⟩ := map_of_bounds hbounds hsum
    exact ⟨w, hw, by rw [hoffset, hfirst], by rw [hl, hlen]⟩

end SharedMem

end SandboxIpc.Windows
