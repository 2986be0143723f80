import SandboxIpc.Shm.Pages

/-!
# What `map` asks for

`SharedMem::map` of either platform, cut at its one system call, and what the two systems do when
they are asked to map some pages or to give them up.

* `Request` — what the system is asked for, and what becomes of its answer
* `Unix.SharedMem.map_eq`, `Windows.SharedMem.map_eq` — `map` makes its request and goes on
* `Request.Lawful` — whatever the answer, the view shows a window of the object
* `Platform` — `map` and the drop of a map; `Platform.unix`, `Platform.windows`
-/

namespace SandboxIpc

open Infra

variable {p : PointerWidth}

structure Request (p : PointerWidth) where
  offset : Nat
  len : Usize p
  /-- What the map is, by where the system has put it. -/
  view : Usize p → View p

/-- Whatever the answer, the view shows a window of the first `size` bytes. -/
structure Request.Lawful (page size : Nat) (q : Request p) : Prop where
  offset : ∀ ptr, (q.view ptr).mappingOffset = q.offset
  len : ∀ ptr, (q.view ptr).mappingLen = q.len
  pointer : ∀ ptr, (q.view ptr).mappingPointer = ptr
  lawful : ∀ ptr, (q.view ptr).Lawful page
  inside : ∀ ptr, (q.view ptr).userOffset.toNat + (q.view ptr).userLen.toNat ≤ size

/-! ## Unix -/

namespace Unix.SharedMem

variable {b : Build} {page : PageSize p} {m : SharedMem p} {range : RangeArgument p}
  {access : Access}

/-- `map`, up to `mmap`. -/
def request (b : Build) (page : PageSize p) (m : SharedMem p) (range : RangeArgument p)
    (access : Access) : Outcome (Request p) := do
  let _ ← m.protection access
  let (offset, end_) ← m.bounds range
  let (mappingOffset, mappingLen) ← pages b page offset end_
  return {
    offset := mappingOffset.toNat
    len := mappingLen
    view := fun ptr =>
      ⟨mappingOffset.toNat, mappingLen, ptr, ptr + offset % page.val, offset, end_ - offset⟩ }

/-- `map` makes its request and goes on with the answer. -/
theorem map_eq (place : Nat → Usize p → Except IoError (Usize p)) :
    (m.map b page (fun args => place args.offset.toNat args.len) range access).map
        SharedMemMap.view
      = m.request b page range access >>= fun q =>
        ((place q.offset q.len).mapError .err).map q.view := by
  unfold map request
  rcases m.protection access with stop | ⟨prot, fd⟩
  · rfl
  · rcases m.bounds range with stop | ⟨offset, end_⟩
    · rfl
    · dsimp only [bind, Except.bind]
      rcases pages b page offset end_ with stop | ⟨mappingOffset, mappingLen⟩
      · rfl
      · dsimp only [pure, Except.pure]
        rcases place mappingOffset.toNat mappingLen with e | ptr <;> rfl

theorem lawful_of_request {q : Request p} (hfits : m.size.toNat + page.val.toNat ≤ 2 ^ p.bits)
    (h : m.request b page range access = .ok q) : q.Lawful page.val.toNat m.size.toNat := by
  unfold request at h
  rcases hprot : m.protection access with stop | _
  · rw [hprot] at h
    cases h
  · rcases hbounds : m.bounds range with stop | ⟨offset, end_⟩
    · rw [hprot, hbounds] at h
      cases h
    · obtain ⟨hle, hsize⟩ := le_of_bounds hbounds
      have hround : end_.toNat + page.val.toNat ≤ 2 ^ p.bits := by omega
      obtain ⟨mappingOffset, mappingLen, hpages, hoffset, hsum⟩ :=
        pages_exact (b := b) hle hround
      have hwindow : offset.toNat + (end_ - offset).toNat = end_.toNat := by
        rw [BitVec.toNat_sub_of_le (BitVec.le_def.mpr hle), Nat.add_sub_cancel' hle]
      rw [hprot, hbounds] at h
      dsimp only [bind, Except.bind] at h
      rw [hpages] at h
      obtain rfl := Except.ok.inj h
      exact ⟨fun _ => rfl, fun _ => rfl, fun _ => rfl, lawful_of_pages hle hoffset hsum,
        fun _ => hwindow.trans_le hsize⟩

end Unix.SharedMem

/-! ## Windows -/

namespace Windows.SharedMem

variable {b : Build} {page : PageSize p} {m : SharedMem p} {range : RangeArgument p}
  {access : Access}

/-- `map`, up to `MapViewOfFile`. -/
def request (b : Build) (page : PageSize p) (m : SharedMem p) (range : RangeArgument p) :
    Outcome (Request p) := do
  let (offset, len) ← m.bounds b range
  let (mappingOffset, mappingLen) ← view b page offset len
  return {
    offset := mappingOffset.toNat
    len := mappingLen
    view := fun ptr =>
      ⟨mappingOffset.toNat, mappingLen, ptr, ptr + (offset - mappingOffset), offset, len⟩ }

/-- The map with this view. -/
def ofView (v : View p) (access : Access) : SharedMemMap p where
  mappingPointer := v.mappingPointer
  mappingLen := v.mappingLen
  userPointer := v.userPointer
  userLen := v.userLen
  access
  userOffset := v.userOffset

/-- `map` makes its request and goes on with the answer. -/
theorem map_eq (place : Nat → Usize p → Except IoError (Usize p)) :
    m.map b page (fun args => place args.offset args.len) range access
      = m.request b page range >>= fun q =>
        ((place q.offset q.len).mapError .err).map fun ptr => ofView (q.view ptr) access := by
  unfold map request
  rcases m.bounds b range with stop | ⟨offset, len⟩
  · rfl
  · dsimp only [bind, Except.bind]
    rcases view b page offset len with stop | ⟨mappingOffset, mappingLen⟩
    · rfl
    · dsimp only [pure, Except.pure]
      have hoffset : MapViewArgs.offset ⟨access, highBits mappingOffset,
          mappingOffset.setWidth 32, mappingLen⟩ = mappingOffset.toNat := halves mappingOffset
      rw [hoffset]
      rcases place mappingOffset.toNat mappingLen with e | ptr <;> rfl

theorem lawful_of_request {q : Request p} (h : m.request b page range = .ok q) :
    q.Lawful page.val.toNat m.size.toNat := by
  unfold request at h
  rcases hbounds : m.bounds b range with stop | ⟨offset, len⟩
  · rw [hbounds] at h
    cases h
  · have hsize := le_of_bounds hbounds
    obtain ⟨mappingLen, hview, hsum⟩ :=
      view_exact b page (Nat.lt_of_le_of_lt hsize m.size.isLt)
    rw [hbounds] at h
    dsimp only [bind, Except.bind] at h
    rw [hview] at h
    obtain rfl := Except.ok.inj h
    exact ⟨fun _ => rfl, fun _ => rfl, fun _ => rfl, lawful_of_view hsum, fun _ => hsize⟩

end Windows.SharedMem

/-! ## The two platforms -/

/-- The maps of a platform. `Handle` is its `SharedMem`. -/
structure Platform (p : PointerWidth) (Handle : Type) where
  page : Nat
  size : Handle → Usize p
  /-- `SharedMem::map`, up to its system call. -/
  request : Handle → RangeArgument p → Access → Outcome (Request p)
  /-- The system can map so many pages if it is asked for a length. -/
  maps : Usize p → Nat → Bool
  /-- The system unmaps so many pages when a map is dropped. It has mapped the second number. -/
  unmaps : View p → Nat → Nat
  page_pos : 0 < page
  lawful : ∀ {h range access q}, (size h).toNat + page ≤ 2 ^ p.bits →
    request h range access = .ok q → q.Lawful page (size h).toNat
  le_of_maps : ∀ {len n}, maps len n = true → len.toNat ≤ n * page
  unmaps_eq : ∀ {v n}, maps v.mappingLen n = true → unmaps v n = n

/-- The pages that are needed for some bytes from the start of a page on. -/
def pagesFor (page len : Nat) : Nat := roundUp page len / page

theorem le_pagesFor {page : Nat} (hpage : 0 < page) (len : Nat) : len ≤ pagesFor page len * page := by
  unfold pagesFor
  rw [Nat.div_mul_cancel (dvd_roundUp hpage len)]
  exact le_roundUp page len

namespace Platform

/-- `munmap` is told the address and the length. Nothing can be mapped with length 0. -/
def unix (b : Build) (page : Unix.PageSize p) : Platform p (Unix.SharedMem p) where
  page := page.val.toNat
  size := Unix.SharedMem.size
  request := Unix.SharedMem.request b page
  maps len n := len.toNat ≠ 0 && n = pagesFor page.val.toNat len.toNat
  unmaps v _ := pagesFor page.val.toNat v.mappingLen.toNat
  page_pos := page.pos
  lawful := Unix.SharedMem.lawful_of_request
  le_of_maps h := by
    obtain ⟨-, rfl⟩ := by simpa using h
    exact le_pagesFor page.pos _
  unmaps_eq h := by
    obtain ⟨-, rfl⟩ := by simpa using h
    rfl

/-- `UnmapViewOfFile` is told the address, and unmaps the whole view. A view of length 0 is one to the
end of the object. -/
def windows (b : Build) (page : Windows.PageSize p) : Platform p (Windows.SharedMem p) where
  page := page.val.toNat
  size := Windows.SharedMem.size
  request m range _ := m.request b page range
  maps len n := len.toNat = 0 || n = pagesFor page.val.toNat len.toNat
  unmaps _ n := n
  page_pos := page.pos
  lawful _ h := Windows.SharedMem.lawful_of_request h
  le_of_maps h := by
    obtain hzero | rfl := by simpa using h
    · rw [hzero]
      exact Nat.zero_le _
    · exact le_pagesFor page.pos _
  unmaps_eq _ := rfl

end Platform

end SandboxIpc
