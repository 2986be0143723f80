import SandboxIpc.Shm.Map

/-!
# Shared memory, `unix/sharedmem.rs`

`SharedMem::map` is cut at its three stages: which descriptor the access needs, which bytes of the
object the range asks for, and which pages cover them.

* `SharedMem.new`, `SharedMem.clone` — what an object is made of, and what a handle is made of
* `SharedMem.bounds` — the bounds check reads the start of the range twice and its end never
* `SharedMem.window_le` — the window of a map lies in the object, as large as the handle says it is
* `SharedMem.map_of_bounds` — what passes the bounds check is mapped as the check found it
* `SharedMem.map_overflow` — unless a debug build panics when it rounds the end up to a page
-/

namespace SandboxIpc.Unix

variable {p : PointerWidth}

structure SharedMem (p : PointerWidth) where
  rwFd : Option RawFd
  roFd : RawFd
  size : Usize p

structure SharedMemMap (p : PointerWidth) where
  mappingPointer : Usize p
  userPointer : Usize p
  mappingLen : Usize p
  userLen : Usize p
  mappingOffset : Usize p
  userOffset : Usize p
  access : Access

/-- `SharedMemMap::pointer`, `SharedMemMap::offset` and `SharedMemMap::len`. -/
def SharedMemMap.pointer (m : SharedMemMap p) : Usize p := m.userPointer

def SharedMemMap.offset (m : SharedMemMap p) : Usize p := m.userOffset

def SharedMemMap.len (m : SharedMemMap p) : Usize p := m.userLen

/-- The byte of the object that lies at an address in the mapping. -/
def SharedMemMap.object (m : SharedMemMap p) (addr : Usize p) : Nat :=
  m.mappingOffset.toNat + (addr - m.mappingPointer).toNat

/-- `*PAGE_SIZE`. -/
structure PageSize (p : PointerWidth) where
  val : Usize p
  pos : 0 < val.toNat

/-- The arguments of `mmap` that vary; `prot` is `PROT_READ`, with `PROT_WRITE` for `readWrite`. -/
structure MmapArgs (p : PointerWidth) where
  len : Usize p
  prot : Access
  fd : RawFd
  offset : Usize p

/-- What `mmap` answers: an error, or where it put the mapping. -/
abbrev Mmap (p : PointerWidth) := MmapArgs p → Except IoError (Usize p)

/-- What the system answers in one `SharedMem::new`. -/
structure NewAnswers where
  openRw : Except IoError RawFd
  openRo : Except IoError RawFd
  shmUnlink : Except IoError Unit
  ftruncate : Except IoError Unit

namespace SharedMem

def fds (m : SharedMem p) : List RawFd := m.rwFd.toList ++ [m.roFd]

def new (size : Usize p) (a : NewAnswers) : Outcome (SharedMem p) := do
  let fd ← a.openRw.mapError .err
  let roFd ← a.openRo.mapError .err
  a.shmUnlink.mapError .err
  a.ftruncate.mapError .err
  return { rwFd := some fd, roFd, size }

/-- `SharedMem::clone`, and the descriptors it has duplicated, each with its duplicate. `dup n` is what
the system answers after the first `n` calls. -/
def clone (m : SharedMem p) (dup : Nat → Except IoError RawFd) :
    Access → Outcome (SharedMem p) × List (RawFd × RawFd)
  | .read =>
    match dup 0 with
    | .error e => (.error (.err e), [])
    | .ok roFd => (.ok { rwFd := none, roFd, size := m.size }, [(m.roFd, roFd)])
  | .readWrite =>
    match m.rwFd with
    | none => (fail .permissionDenied "this shared memory handle is read-only", [])
    | some rwFd =>
      match dup 0 with
      | .error e => (.error (.err e), [])
      | .ok newRw =>
        match dup 1 with
        -- the first duplicate is a bare number, which nobody closes
        | .error e => (.error (.err e), [(rwFd, newRw)])
        | .ok roFd =>
          (.ok { rwFd := some newRw, roFd, size := m.size }, [(rwFd, newRw), (m.roFd, roFd)])

/-- The protection and the descriptor for an access. -/
def protection (m : SharedMem p) : Access → Outcome (Access × RawFd)
  | .read => .ok (.read, m.roFd)
  | .readWrite =>
    match m.rwFd with
    | some rwFd => .ok (.readWrite, rwFd)
    | none => fail .permissionDenied "this shared memory handle is read-only"

/-- The bounds check: the offset and the end of the window. -/
def bounds (m : SharedMem p) (range : RangeArgument p) : Outcome (Usize p × Usize p) :=
  let offset := match range.start with
    | .included i => some i
    | .excluded i => checkedAdd i 1
    | .unbounded => some 0
  -- the source takes the end from `range.start()` as well
  let end_ := match range.start with
    | .included i => checkedAdd i 1
    | .excluded i => some i
    | .unbounded => some m.size
  match offset, end_ with
  | some offset, some end_ =>
    if offset ≤ end_ ∧ end_ ≤ m.size then .ok (offset, end_)
    else fail .invalidInput "shared memory map range is out of bounds"
  | _, _ => fail .invalidInput "shared memory map range is out of bounds"

/-- How far the end of the window is from the end of its page. -/
def userEndShift (page : PageSize p) (end_ : Usize p) : Usize p :=
  if end_ % page.val = 0 then 0 else page.val - end_ % page.val

/-- The offset and the length of the pages that cover the window. -/
def pages (b : Build) (page : PageSize p) (offset end_ : Usize p) : Outcome (Usize p × Usize p) := do
  let mappingOffset ← b.sub offset (offset % page.val)
  let mappingEnd ← b.add end_ (userEndShift page end_)
  let mappingLen ← b.sub mappingEnd mappingOffset
  return (mappingOffset, mappingLen)

def map (b : Build) (page : PageSize p) (mmap : Mmap p) (m : SharedMem p) (range : RangeArgument p)
    (access : Access) : Outcome (SharedMemMap p) := do
  let (prot, fd) ← m.protection access
  let (offset, end_) ← m.bounds range
  let (mappingOffset, mappingLen) ← pages b page offset end_
  match mmap { len := mappingLen, prot, fd, offset := mappingOffset } with
  | .error e => .error (.err e)
  | .ok mappingPointer =>
    -- the subtraction is exact: the bounds check has compared the two
    return {
      mappingPointer
      userPointer := mappingPointer + offset % page.val
      mappingLen
      userLen := end_ - offset
      mappingOffset
      userOffset := offset
      access }

/-- The handle allows the access. -/
def Allows (m : SharedMem p) (access : Access) : Prop := access = .readWrite → m.rwFd ≠ none

instance (m : SharedMem p) (access : Access) : Decidable (m.Allows access) :=
  inferInstanceAs (Decidable (_ → _))

/-! ## New handles -/

section Handles

variable {m m' : SharedMem p} {dup : Nat → Except IoError RawFd} {access : Access}
  {copies : List (RawFd × RawFd)}

theorem new_ok {size : Usize p} {a : NewAnswers} (h : SharedMem.new size a = .ok m) :
    ∃ rwFd roFd, m = ⟨some rwFd, roFd, size⟩ := by
  unfold new at h
  cases hrw : a.openRw with
  | error e =>
    rw [hrw] at h
    cases h
  | ok rwFd =>
    cases hro : a.openRo with
    | error e =>
      rw [hrw, hro] at h
      cases h
    | ok roFd =>
      cases hunlink : a.shmUnlink with
      | error e =>
        rw [hrw, hro, hunlink] at h
        cases h
      | ok _ =>
        cases htruncate : a.ftruncate with
        | error e =>
          rw [hrw, hro, hunlink, htruncate] at h
          cases h
        | ok _ =>
          rw [hrw, hro, hunlink, htruncate] at h
          exact ⟨rwFd, roFd, (Except.ok.inj h).symm⟩

/-- What `clone` comes to: nothing, a stray duplicate, a read-only handle or a whole one. -/
theorem clone_cases (m : SharedMem p) (dup : Nat → Except IoError RawFd) (access : Access) :
    (∃ stop, m.clone dup access = (.error stop, [])) ∨
    (∃ stop rw rw', m.rwFd = some rw ∧ m.clone dup access = (.error stop, [(rw, rw')])) ∨
    (access = .read ∧ ∃ roFd, m.clone dup access
      = (.ok ⟨none, roFd, m.size⟩, [(m.roFd, roFd)])) ∨
    (access = .readWrite ∧ ∃ rw rw' roFd, m.rwFd = some rw ∧ m.clone dup access
      = (.ok ⟨some rw', roFd, m.size⟩, [(rw, rw'), (m.roFd, roFd)])) := by
  unfold clone
  cases access with
  | read =>
    cases dup 0 with
    | error e => exact .inl ⟨_, rfl⟩
    | ok roFd => exact .inr (.inr (.inl ⟨rfl, roFd, rfl⟩))
  | readWrite =>
    cases m.rwFd with
    | none => exact .inl ⟨_, rfl⟩
    | some rw =>
      dsimp only
      cases dup 0 with
      | error e => exact .inl ⟨_, rfl⟩
      | ok rw' =>
        dsimp only
        cases dup 1 with
        | error e => exact .inr (.inl ⟨_, rw, rw', rfl, rfl⟩)
        | ok roFd => exact .inr (.inr (.inr ⟨rfl, rw, rw', roFd, rfl, rfl⟩))

/-- A clone is made of duplicates of what its access needs. -/
theorem clone_ok (h : m.clone dup access = (.ok m', copies)) :
    (access = .read ∧ m' = ⟨none, m'.roFd, m.size⟩ ∧ copies = [(m.roFd, m'.roFd)]) ∨
    (access = .readWrite ∧ ∃ rw rw', m.rwFd = some rw ∧ m' = ⟨some rw', m'.roFd, m.size⟩ ∧
      copies = [(rw, rw'), (m.roFd, m'.roFd)]) := by
  rcases m.clone_cases dup access with ⟨stop, heq⟩ | ⟨stop, rw, rw', -, heq⟩ | ⟨rfl, roFd, heq⟩ |
    ⟨rfl, rw, rw', roFd, hrw, heq⟩
  · rw [heq] at h
    cases h
  · rw [heq] at h
    cases h
  · obtain ⟨hm, rfl⟩ := Prod.mk.inj (heq.symm.trans h)
    obtain rfl := Except.ok.inj hm
    exact .inl ⟨rfl, rfl, rfl⟩
  · obtain ⟨hm, rfl⟩ := Prod.mk.inj (heq.symm.trans h)
    obtain rfl := Except.ok.inj hm
    exact .inr ⟨rfl, rw, rw', hrw, rfl, rfl⟩

/-- Nothing but what the handle owns is duplicated. -/
theorem mem_fds_of_clone {c : RawFd × RawFd} (h : c ∈ (m.clone dup access).2) : c.1 ∈ m.fds := by
  have hro : m.roFd ∈ m.fds := List.mem_append_right _ (.head _)
  have hrw : ∀ rw, m.rwFd = some rw → rw ∈ m.fds := by
    intro rw hrw
    unfold fds
    rw [hrw]
    exact .head _
  rcases m.clone_cases dup access with ⟨stop, heq⟩ | ⟨stop, rw, rw', hfd, heq⟩ | ⟨-, roFd, heq⟩ |
    ⟨-, rw, rw', roFd, hfd, heq⟩
  · rw [heq] at h
    cases h
  · rw [heq] at h
    obtain rfl := List.mem_singleton.mp h
    exact hrw rw hfd
  · rw [heq] at h
    obtain rfl := List.mem_singleton.mp h
    exact hro
  · rw [heq] at h
    rcases List.mem_cons.mp h with rfl | h
    · exact hrw rw hfd
    · obtain rfl := List.mem_singleton.mp h
      exact hro

/-- A clone owns the duplicates. -/
theorem fds_of_clone (h : m.clone dup access = (.ok m', copies)) :
    m'.fds = copies.map Prod.snd ∧ m'.size = m.size := by
  rcases clone_ok h with ⟨-, hm, rfl⟩ | ⟨-, rw, rw', -, hm, rfl⟩
  · rw [hm]
    exact ⟨rfl, rfl⟩
  · rw [hm]
    exact ⟨rfl, rfl⟩

end Handles

/-! ## The bounds check -/

variable {m : SharedMem p} {range : RangeArgument p} {access : Access} {b : Build}
  {page : PageSize p} {offset end_ : Usize p}

theorem bounds_of_unbounded (h : range.start = .unbounded) : m.bounds range = .ok (0, m.size) := by
  unfold bounds
  rw [h]
  exact if_pos ⟨by rw [BitVec.le_def, toNat_zero]; exact Nat.zero_le _, BitVec.le_refl _⟩

theorem bounds_of_included (m : SharedMem p) (range : RangeArgument p) {i : Usize p}
    (h : range.start = .included i) :
    m.bounds range = if i.toNat < m.size.toNat then .ok (i, i + 1)
      else fail .invalidInput "shared memory map range is out of bounds" := by
  have hsize := m.size.isLt
  unfold bounds checkedAdd
  rw [h]
  dsimp only
  rw [toNat_one]
  by_cases hfits : i.toNat + 1 < 2 ^ p.bits
  · have hsucc : (i + 1).toNat = i.toNat + 1 := by
      rw [BitVec.toNat_add_of_lt (by rwa [toNat_one]), toNat_one]
    have hiff : (i ≤ i + 1 ∧ i + 1 ≤ m.size) ↔ i.toNat < m.size.toNat := by
      rw [BitVec.le_def, BitVec.le_def]
      omega
    rw [if_pos hfits]
    dsimp only
    rw [if_congr hiff rfl rfl]
  · rw [if_neg hfits, if_neg (by omega)]

/-- What passes the check lies in the object, as large as the handle says it is. -/
theorem le_of_bounds (h : m.bounds range = .ok (offset, end_)) :
    offset.toNat ≤ end_.toNat ∧ end_.toNat ≤ m.size.toNat := by
  unfold bounds at h
  dsimp only at h
  split at h
  · split at h
    · next hle =>
      obtain ⟨rfl, rfl⟩ := Prod.mk.inj (Except.ok.inj h)
      exact hle
    · cases h
  · cases h

/-! ## The pages -/

/-- Rounding the end of the window up to a page does not overflow, or nobody looks. -/
def RoundUpFits (b : Build) (page : PageSize p) (end_ : Usize p) : Prop :=
  b = .debug → end_.toNat + (userEndShift page end_).toNat < 2 ^ p.bits

theorem pages_ok (hle : offset.toNat ≤ end_.toNat) (hfits : RoundUpFits b page end_) :
    ∃ r, pages b page offset end_ = .ok r := by
  have hmod : (offset % page.val).toNat ≤ offset.toNat := toNat_umod_le _ _
  unfold pages
  rw [Build.sub_of_le hmod]
  cases b with
  | release => exact ⟨_, rfl⟩
  | debug =>
    have hlt := hfits rfl
    have hsum := BitVec.toNat_add_of_lt hlt
    have hsub := BitVec.toNat_sub_of_le (BitVec.le_def.mpr hmod)
    rw [Build.add_of_lt hlt]
    dsimp only [bind, Except.bind]
    rw [Build.sub_of_le (by omega)]
    exact ⟨_, rfl⟩

theorem pages_overflow (h : ¬ RoundUpFits b page end_) :
    pages b page offset end_ = .error (.panic "attempt to add with overflow") := by
  obtain ⟨rfl, hover⟩ : b = .debug ∧ ¬ _ := Classical.not_imp.mp h
  have hmod : (offset % page.val).toNat ≤ offset.toNat := toNat_umod_le _ _
  unfold pages
  rw [Build.sub_of_le hmod]
  dsimp only [bind, Except.bind]
  rw [Build.add_debug (Nat.le_of_not_lt hover)]

/-! ## The whole of `map` -/

variable {ptr : MmapArgs p → Usize p}

theorem protection_ok (h : m.Allows access) : ∃ r, m.protection access = .ok r := by
  cases access with
  | read => exact ⟨_, rfl⟩
  | readWrite =>
    obtain ⟨fd, hfd⟩ := Option.ne_none_iff_exists'.mp (h rfl)
    exact ⟨(.readWrite, fd), by unfold protection; rw [hfd]⟩

/-- What is mapped is a descriptor of the handle. -/
theorem mem_fds_of_protection {prot : Access} {fd : RawFd}
    (h : m.protection access = .ok (prot, fd)) : fd ∈ m.fds := by
  cases access with
  | read =>
    obtain ⟨-, rfl⟩ := Prod.mk.inj (Except.ok.inj h)
    exact List.mem_append_right _ (.head _)
  | readWrite =>
    unfold protection at h
    unfold fds
    cases hrw : m.rwFd with
    | none =>
      rw [hrw] at h
      cases h
    | some rwFd =>
      rw [hrw] at h
      obtain ⟨-, rfl⟩ := Prod.mk.inj (Except.ok.inj h)
      exact .head _

/-- A request that fails the bounds check is rejected with its error. -/
theorem map_of_error {mmap : Mmap p} {stop : Stop} (hallow : m.Allows access)
    (hbounds : m.bounds range = .error stop) : m.map b page mmap range access = .error stop := by
  obtain ⟨r, hr⟩ := protection_ok hallow
  unfold map
  rw [hr, hbounds]
  rfl

/-- A request that passes the bounds check is mapped as the check found it. -/
theorem map_of_bounds (hallow : m.Allows access) (hbounds : m.bounds range = .ok (offset, end_))
    (hle : offset.toNat ≤ end_.toNat) (hfits : RoundUpFits b page end_) :
    ∃ r, m.map b page (fun args => .ok (ptr args)) range access = .ok r ∧ r.offset = offset ∧
      r.len = end_ - offset := by
  obtain ⟨prot, hprot⟩ := protection_ok hallow
  obtain ⟨pages, hpages⟩ := pages_ok hle hfits
  unfold map
  rw [hprot, hbounds]
  dsimp only [bind, Except.bind]
  rw [hpages]
  exact ⟨_, rfl, rfl, rfl⟩

/-- The pages start at the page of the window. -/
theorem pages_fst {mappingOffset mappingLen : Usize p}
    (h : pages b page offset end_ = .ok (mappingOffset, mappingLen)) :
    mappingOffset.toNat + (offset % page.val).toNat = offset.toNat := by
  have hmod : (offset % page.val).toNat ≤ offset.toNat := toNat_umod_le _ _
  unfold pages at h
  rw [Build.sub_of_le hmod] at h
  dsimp only [bind, Except.bind] at h
  cases hadd : b.add end_ (userEndShift page end_) with
  | error e =>
    rw [hadd] at h
    cases h
  | ok mappingEnd =>
    rw [hadd] at h
    dsimp only at h
    cases hsub : b.sub mappingEnd (offset - offset % page.val) with
    | error e =>
      rw [hsub] at h
      cases h
    | ok len =>
      rw [hsub] at h
      obtain ⟨rfl, -⟩ := Prod.mk.inj (Except.ok.inj h)
      rw [BitVec.toNat_sub_of_le (BitVec.le_def.mpr hmod), Nat.sub_add_cancel hmod]

/-- A map is a window that has passed the bounds check, for the access that was asked for. -/
theorem map_ok {mmap : Mmap p} {r : SharedMemMap p} (h : m.map b page mmap range access = .ok r) :
    ∃ prot fd offset end_, m.protection access = .ok (prot, fd) ∧
      m.bounds range = .ok (offset, end_) ∧ r.object r.pointer = offset.toNat ∧
      r.len = end_ - offset ∧ r.access = access := by
  unfold map at h
  rcases hprot : m.protection access with e | ⟨prot, fd⟩
  · rw [hprot] at h
    cases h
  · rcases hbounds : m.bounds range with e | ⟨offset, end_⟩
    · rw [hprot, hbounds] at h
      cases h
    · rw [hprot, hbounds] at h
      dsimp only [bind, Except.bind] at h
      rcases hpages : pages b page offset end_ with e | ⟨mappingOffset, mappingLen⟩
      · rw [hpages] at h
        cases h
      · rw [hpages] at h
        dsimp only at h
        rcases hmmap : mmap ⟨mappingLen, prot, fd, mappingOffset⟩ with e | mappingPointer
        · rw [hmmap] at h
          cases h
        · rw [hmmap] at h
          obtain rfl := Except.ok.inj h
          refine ⟨prot, fd, offset, end_, rfl, rfl, ?_, rfl, rfl⟩
          unfold SharedMemMap.object SharedMemMap.pointer
          dsimp only
          rw [BitVec.add_comm, BitVec.add_sub_cancel, pages_fst hpages]

/-- The window of a map lies in the object, if that is as large as the handle says it is. -/
theorem window_le {mmap : Mmap p} {r : SharedMemMap p} (h : m.map b page mmap range access = .ok r) :
    r.object r.pointer + r.len.toNat ≤ m.size.toNat := by
  obtain ⟨prot, fd, offset, end_, -, hbounds, hobject, hlen, -⟩ := map_ok h
  obtain ⟨hle, hsize⟩ := le_of_bounds hbounds
  rw [hobject, hlen, BitVec.toNat_sub_of_le (BitVec.le_def.mpr hle), Nat.add_sub_cancel' hle]
  exact hsize

theorem map_overflow {mmap : Mmap p} (hallow : m.Allows access)
    (hbounds : m.bounds range = .ok (offset, end_)) (h : ¬ RoundUpFits b page end_) :
    m.map b page mmap range access = .error (.panic "attempt to add with overflow") := by
  obtain ⟨prot, hprot⟩ := protection_ok hallow
  unfold map
  rw [hprot, hbounds]
  dsimp only [bind, Except.bind]
  rw [pages_overflow h]

/-! ## When the answer is right -/

variable {r : StdRange p}

/-- A request that fails the bounds check was answered well if it had to be rejected. -/
theorem obeys_of_rejected {message : String} (hallow : m.Allows access)
    (hbounds : m.bounds r.toRangeArgument = fail .invalidInput message) :
    Obeys SharedMemMap.offset SharedMemMap.len m.size r
      (m.map b page (fun args => .ok (ptr args)) r.toRangeArgument access) ↔ ¬ r.Inside m.size := by
  have hmap : m.map b page (fun args => .ok (ptr args)) r.toRangeArgument access
      = fail .invalidInput message := map_of_error hallow hbounds
  constructor
  · intro hobeys hin
    obtain ⟨w, hw, -⟩ := hobeys.accepts hin
    rw [hmap] at hw
    cases hw
  · intro hout
    exact ⟨fun _ => ⟨message, hmap⟩, fun hin => absurd hin hout⟩

/-- A request that passes it was answered well if the check found the right window, and no debug
build panics. -/
theorem obeys_of_accepted (hallow : m.Allows access)
    (hbounds : m.bounds r.toRangeArgument = .ok (offset, end_))
    (hle : offset.toNat ≤ end_.toNat) :
    Obeys SharedMemMap.offset SharedMemMap.len m.size r
      (m.map b page (fun args => .ok (ptr args)) r.toRangeArgument access) ↔
    (r.Inside m.size ∧ offset.toNat = r.first ∧ end_.toNat = r.past m.size) ∧
      RoundUpFits b page end_ := by
  have hsub := BitVec.toNat_sub_of_le (BitVec.le_def.mpr hle)
  by_cases hfits : RoundUpFits b page end_
  · obtain ⟨w, hw, hoffset, hlen⟩ : ∃ w, m.map b page (fun args => .ok (ptr args))
        r.toRangeArgument access = .ok w ∧ w.offset = offset ∧ w.len = end_ - offset :=
      map_of_bounds hallow hbounds hle hfits
    constructor
    · intro hobeys
      have hin : r.Inside m.size := by
        by_contra hout
        obtain ⟨message, herr⟩ := hobeys.rejects hout
        rw [hw] at herr
        cases herr
      obtain ⟨w', hw', hoffset', hlen'⟩ := hobeys.accepts hin
      obtain rfl : w = w' := Except.ok.inj (hw.symm.trans hw')
      rw [hoffset] at hoffset'
      rw [hlen, hsub] at hlen'
      have hfirst := hin.1
      exact ⟨⟨hin, hoffset', by omega⟩, hfits⟩
    · rintro ⟨⟨hin, hfirst, hpast⟩, -⟩
      refine ⟨fun hout => absurd hin hout, fun _ => ⟨w, hw, ?_, ?_⟩⟩
      · rw [hoffset, hfirst]
      · rw [hlen, hsub, hfirst, hpast]
  · -- the panic is neither a rejection nor a map
    have hmap : m.map b page (fun args => .ok (ptr args)) r.toRangeArgument access
        = .error (.panic "attempt to add with overflow") := map_overflow hallow hbounds hfits
    constructor
    · intro hobeys
      by_cases hin : r.Inside m.size
      · obtain ⟨w, hw, -⟩ := hobeys.accepts hin
        rw [hmap] at hw
        cases hw
      · obtain ⟨message, herr⟩ := hobeys.rejects hin
        rw [hmap] at herr
        cases herr
    · rintro ⟨-, h⟩
      exact absurd h hfits

end SharedMem

end SandboxIpc.Unix
