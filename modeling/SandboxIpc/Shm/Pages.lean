import SandboxIpc.Infra.Rounding
import SandboxIpc.Shm.Map
import SandboxIpc.Unix.SharedMem
import SandboxIpc.Windows.SharedMem

/-!
# The pages of a map

`map` rounds the window it is asked for to pages. The two implementations do it with different sums
and remainders.

* `View` — the pages in the address space, and the window in them
* `View.Lawful` — the pages cover the window, and its bytes are where they should be
* `pages_exact`, `view_exact` — what the two implementations compute
* `map_of_pages`, `map_of_view` — `map` asks for these pages, and succeeds if the system does
* `page_arithmetic` — the views of both are lawful, and any two maps of one object agree
-/

namespace SandboxIpc

open Infra

variable {p : PointerWidth}

/-! ## Views -/

/-- Some pages of an object that are mapped, with the window that was asked for. -/
structure View (p : PointerWidth) where
  mappingOffset : Nat
  mappingLen : Usize p
  mappingPointer : Usize p
  userPointer : Usize p
  userOffset : Usize p
  userLen : Usize p

namespace View

variable (v : View p)

/-- The byte of the object at an address in the mapping. -/
def byte (addr : Usize p) : Nat := v.mappingOffset + (addr - v.mappingPointer).toNat

/-- Where the user finds a byte of the window. -/
def address (x : Usize p) : Usize p := v.userPointer + (x - v.userOffset)

/-- The bytes of the object that were asked for. -/
def window : Set Nat := Set.Ico v.userOffset.toNat (v.userOffset.toNat + v.userLen.toNat)

/-- The bytes of the object that are mapped. -/
def mapped : Set Nat := Set.Ico v.mappingOffset (v.mappingOffset + v.mappingLen.toNat)

structure Lawful (page : Nat) : Prop where
  /-- The mapping starts at the last page that is not above the window. -/
  greatest : IsGreatest {k | page ∣ k ∧ k ≤ v.userOffset.toNat} v.mappingOffset
  covers : v.window ⊆ v.mapped
  shift : (v.userPointer - v.mappingPointer).toNat = v.userOffset.toNat - v.mappingOffset
  shift_lt : (v.userPointer - v.mappingPointer).toNat < page
  byte_address : ∀ x : Usize p, x.toNat ∈ v.window → v.byte (v.address x) = x.toNat

variable {v}

/-- What is to be computed for a view to be lawful. -/
theorem lawful_of_roundDown {page : Nat} (hpage : 0 < page)
    (hoffset : v.mappingOffset = roundDown page v.userOffset.toNat)
    (hpointer : (v.userPointer - v.mappingPointer).toNat = v.userOffset.toNat % page)
    (hend : v.userOffset.toNat + v.userLen.toNat ≤ v.mappingOffset + v.mappingLen.toNat) :
    v.Lawful page := by
  have hle : v.mappingOffset ≤ v.userOffset.toNat := hoffset ▸ roundDown_le page _
  have hshift : (v.userPointer - v.mappingPointer).toNat = v.userOffset.toNat - v.mappingOffset := by
    rw [hpointer, hoffset, sub_roundDown]
  refine ⟨hoffset ▸ isGreatest_roundDown hpage _, Set.Ico_subset_Ico hle hend, hshift, ?_, ?_⟩
  · rw [hpointer]
    exact Nat.mod_lt _ hpage
  · rintro x ⟨hlo, -⟩
    have hx : (x - v.userOffset).toNat = x.toNat - v.userOffset.toNat :=
      BitVec.toNat_sub_of_le (BitVec.le_def.mpr hlo)
    have haddr : v.address x - v.mappingPointer
        = (v.userPointer - v.mappingPointer) + (x - v.userOffset) := by
      unfold address
      simp only [BitVec.sub_eq_add_neg]
      ac_rfl
    have hlt := x.isLt
    unfold byte
    rw [haddr, BitVec.toNat_add_of_lt (by omega)]
    omega

/-- Where the windows overlap, the user finds the same bytes of the object in both. -/
def Agrees (v v' : View p) : Prop :=
  ∀ x : Usize p, x.toNat ∈ v.window → x.toNat ∈ v'.window →
    v.byte (v.address x) = v'.byte (v'.address x)

theorem Lawful.agrees {page : Nat} {v v' : View p} (h : v.Lawful page) (h' : v'.Lawful page) :
    v.Agrees v' := by
  intro x hx hx'
  rw [h.byte_address x hx, h'.byte_address x hx']

end View

/-! ## The two implementations -/

def Unix.SharedMemMap.view (r : Unix.SharedMemMap p) : View p where
  mappingOffset := r.mappingOffset.toNat
  mappingLen := r.mappingLen
  mappingPointer := r.mappingPointer
  userPointer := r.userPointer
  userOffset := r.userOffset
  userLen := r.userLen

/-- The offset that `MapViewOfFile` puts together. -/
def Windows.MapViewArgs.offset (args : Windows.MapViewArgs p) : Nat :=
  args.offsetHigh.toNat * 2 ^ 32 + args.offsetLow.toNat

def Windows.SharedMemMap.view (r : Windows.SharedMemMap p) (args : Windows.MapViewArgs p) :
    View p where
  mappingOffset := args.offset
  mappingLen := args.len
  mappingPointer := r.mappingPointer
  userPointer := r.userPointer
  userOffset := r.userOffset
  userLen := r.userLen

section Unix

open Unix Unix.SharedMem

variable {b : Build} {page : Unix.PageSize p} {offset end_ : Usize p}

theorem Unix.SharedMem.toNat_userEndShift (page : Unix.PageSize p) (end_ : Usize p) :
    end_.toNat + (userEndShift page end_).toNat = roundUp page.val.toNat end_.toNat := by
  have hmod : (end_ % page.val).toNat = end_.toNat % page.val.toNat := BitVec.toNat_umod
  have hlt := Nat.mod_lt end_.toNat page.pos
  unfold userEndShift roundUp
  by_cases hzero : end_.toNat % page.val.toNat = 0
  · rw [if_pos (eq_zero_iff.mpr (hmod.trans hzero)), if_pos hzero, toNat_zero]
  · rw [if_neg (fun h => hzero (hmod.symm.trans (eq_zero_iff.mp h))), if_neg hzero,
      BitVec.toNat_sub_of_le (by rw [BitVec.le_def, hmod]; exact Nat.le_of_lt hlt), hmod]

/-- On Unix the pages go from the start of the first to the end of the last. -/
theorem pages_exact (hle : offset.toNat ≤ end_.toNat)
    (hfits : end_.toNat + page.val.toNat ≤ 2 ^ p.bits) :
    ∃ mappingOffset mappingLen, pages b page offset end_ = .ok (mappingOffset, mappingLen) ∧
      mappingOffset.toNat = roundDown page.val.toNat offset.toNat ∧
      mappingOffset.toNat + mappingLen.toNat = roundUp page.val.toNat end_.toNat := by
  have hup := roundUp_lt page.pos end_.toNat
  have hround := toNat_userEndShift page end_
  have hlt : end_.toNat + (userEndShift page end_).toNat < 2 ^ p.bits := by omega
  have hmod : (offset % page.val).toNat = offset.toNat % page.val.toNat := BitVec.toNat_umod
  have hmodle : (offset % page.val).toNat ≤ offset.toNat := toNat_umod_le _ _
  have hoffset : (offset - offset % page.val).toNat = roundDown page.val.toNat offset.toNat := by
    rw [BitVec.toNat_sub_of_le (BitVec.le_def.mpr hmodle), hmod]
    rfl
  have hsum := BitVec.toNat_add_of_lt hlt
  have hdown := roundDown_le page.val.toNat offset.toNat
  have hbelow : (offset - offset % page.val).toNat ≤ (end_ + userEndShift page end_).toNat := by omega
  refine ⟨offset - offset % page.val,
    end_ + userEndShift page end_ - (offset - offset % page.val), ?_, hoffset, ?_⟩
  · unfold pages
    rw [Build.sub_of_le hmodle, Build.add_of_lt hlt]
    dsimp only [bind, Except.bind]
    rw [Build.sub_of_le hbelow]
    rfl
  · rw [BitVec.toNat_sub_of_le (BitVec.le_def.mpr hbelow), Nat.add_sub_cancel' hbelow, hsum, hround]

/-- Wherever the system puts these pages, they show the window. -/
theorem lawful_of_pages (hle : offset.toNat ≤ end_.toNat) {mappingOffset mappingLen : Usize p}
    (hoffset : mappingOffset.toNat = roundDown page.val.toNat offset.toNat)
    (hsum : mappingOffset.toNat + mappingLen.toNat = roundUp page.val.toNat end_.toNat)
    (ptr : Usize p) :
    (View.mk mappingOffset.toNat mappingLen ptr (ptr + offset % page.val) offset
      (end_ - offset)).Lawful page.val.toNat := by
  have hwindow : offset.toNat + (end_ - offset).toNat = end_.toNat := by
    rw [BitVec.toNat_sub_of_le (BitVec.le_def.mpr hle), Nat.add_sub_cancel' hle]
  have hup := le_roundUp page.val.toNat end_.toNat
  refine View.lawful_of_roundDown page.pos hoffset ?_ ?_
  · show (ptr + offset % page.val - ptr).toNat = _
    rw [BitVec.add_comm, BitVec.add_sub_cancel, BitVec.toNat_umod]
  · show offset.toNat + (end_ - offset).toNat ≤ mappingOffset.toNat + mappingLen.toNat
    omega

/-- `map` asks for these pages, and points the user to the window in them if it gets them. -/
theorem map_of_pages {m : Unix.SharedMem p} {range : RangeArgument p} {access : Access}
    {mappingOffset mappingLen : Usize p} {prot : Access} {fd : RawFd}
    (hpages : pages b page offset end_ = .ok (mappingOffset, mappingLen))
    (hbounds : m.bounds range = .ok (offset, end_)) (hprot : m.protection access = .ok (prot, fd))
    (mmap : Mmap p) :
    (m.map b page mmap range access).map Unix.SharedMemMap.view
      = ((mmap ⟨mappingLen, prot, fd, mappingOffset⟩).mapError .err).map fun ptr =>
        ⟨mappingOffset.toNat, mappingLen, ptr, ptr + offset % page.val, offset, end_ - offset⟩ := by
  unfold map
  rw [hprot, hbounds]
  dsimp only [bind, Except.bind]
  rw [hpages]
  dsimp only
  cases mmap ⟨mappingLen, prot, fd, mappingOffset⟩ <;> rfl

/-- Whatever `map` returns shows a window. -/
theorem lawful_of_map {m : Unix.SharedMem p} {range : RangeArgument p} {access : Access}
    {mmap : Mmap p} {r : Unix.SharedMemMap p} (hfits : m.size.toNat + page.val.toNat ≤ 2 ^ p.bits)
    (h : m.map b page mmap range access = .ok r) : r.view.Lawful page.val.toNat := by
  obtain ⟨prot, fd, offset, end_, hprot, hbounds, -⟩ := map_ok h
  obtain ⟨hle, hsize⟩ := le_of_bounds hbounds
  have hfits : end_.toNat + page.val.toNat ≤ 2 ^ p.bits := by omega
  obtain ⟨mappingOffset, mappingLen, hpages, hoffset, hsum⟩ := pages_exact (b := b) hle hfits
  have hmap := map_of_pages hpages hbounds hprot mmap
  rw [h] at hmap
  rcases hmmap : mmap ⟨mappingLen, prot, fd, mappingOffset⟩ with e | ptr
  · rw [hmmap] at hmap
    cases hmap
  · rw [hmmap] at hmap
    rw [Except.ok.inj hmap]
    exact lawful_of_pages hle hoffset hsum ptr

end Unix

section Windows

open Windows Windows.SharedMem

variable {b : Build} {page : Windows.PageSize p} {offset len : Usize p}

theorem Windows.SharedMem.toNat_viewOffset (page : Windows.PageSize p) (offset : Usize p) :
    (viewOffset page offset).toNat = roundDown page.val.toNat offset.toNat := by
  have hmod : (offset % page.val).toNat = offset.toNat % page.val.toNat := BitVec.toNat_umod
  have hmodle : (offset % page.val).toNat ≤ offset.toNat := toNat_umod_le _ _
  unfold viewOffset roundDown
  split
  · next hzero => rw [← hmod, eq_zero_iff.mp hzero, Nat.sub_zero]
  · rw [BitVec.toNat_sub_of_le (BitVec.le_def.mpr hmodle), hmod]

variable (b page) in
/-- On Windows the view goes from the start of the first page to the end of the window. -/
theorem view_exact (h : offset.toNat + len.toNat < 2 ^ p.bits) :
    ∃ mappingLen, view b page offset len = .ok (viewOffset page offset, mappingLen) ∧
      (viewOffset page offset).toNat + mappingLen.toNat = offset.toNat + len.toNat := by
  have hle : (viewOffset page offset).toNat ≤ offset.toNat := toNat_viewOffset_le
  have hsum := BitVec.toNat_add_of_lt (x := len) (y := offset) (by omega)
  have hbelow : (viewOffset page offset).toNat ≤ (len + offset).toNat := by omega
  refine ⟨len + offset - viewOffset page offset, ?_, ?_⟩
  · unfold view
    rw [Build.add_of_lt (by omega)]
    dsimp only [bind, Except.bind]
    rw [Build.sub_of_le hbelow]
    rfl
  · rw [BitVec.toNat_sub_of_le (BitVec.le_def.mpr hbelow)]
    omega

/-- The two halves of an offset. -/
theorem halves (x : Usize p) : (highBits x).toNat * 2 ^ 32 + (x.setWidth 32).toNat = x.toNat := by
  have hlt := x.isLt
  cases p with
  | w32 =>
    have hhigh : (highBits x).toNat = 0 := rfl
    rw [hhigh, Nat.zero_mul, Nat.zero_add, BitVec.toNat_setWidth]
    exact Nat.mod_eq_of_lt hlt
  | w64 =>
    have hhigh : (highBits x).toNat = x.toNat / 2 ^ 32 := by
      show ((x >>> 32).setWidth 32).toNat = _
      rw [BitVec.toNat_setWidth, BitVec.toNat_ushiftRight, Nat.shiftRight_eq_div_pow]
      exact Nat.mod_eq_of_lt (Nat.div_lt_of_lt_mul hlt)
    rw [hhigh, BitVec.toNat_setWidth, Nat.mul_comm]
    exact Nat.div_add_mod _ _

/-- Wherever the system puts this view, it shows the window. -/
theorem lawful_of_view {mappingLen : Usize p}
    (hsum : (viewOffset page offset).toNat + mappingLen.toNat = offset.toNat + len.toNat)
    (ptr : Usize p) :
    (View.mk (viewOffset page offset).toNat mappingLen ptr (ptr + (offset - viewOffset page offset))
      offset len).Lawful page.val.toNat := by
  have hround : (viewOffset page offset).toNat = roundDown page.val.toNat offset.toNat :=
    toNat_viewOffset page offset
  have hle : (viewOffset page offset).toNat ≤ offset.toNat := toNat_viewOffset_le
  refine View.lawful_of_roundDown page.pos hround ?_ (Nat.le_of_eq hsum.symm)
  show (ptr + (offset - viewOffset page offset) - ptr).toNat = _
  rw [BitVec.add_comm, BitVec.add_sub_cancel, BitVec.toNat_sub_of_le (BitVec.le_def.mpr hle), hround]
  exact sub_roundDown _ _

/-- `map` asks for this view, with its offset in two halves, and points the user to the window in it if
it gets it. -/
theorem map_of_view {m : Windows.SharedMem p} {range : RangeArgument p} {mappingLen : Usize p}
    (hview : view b page offset len = .ok (viewOffset page offset, mappingLen))
    (hbounds : m.bounds b range = .ok (offset, len)) (access : Access) :
    ∃ args : Windows.MapViewArgs p, args.offset = (viewOffset page offset).toNat ∧
      args.len = mappingLen ∧ ∀ mapView : MapView p,
        (m.map b page mapView range access).map (·.view args)
          = ((mapView args).mapError .err).map fun ptr =>
            ⟨(viewOffset page offset).toNat, mappingLen, ptr,
              ptr + (offset - viewOffset page offset), offset, len⟩ := by
  have hoffset : MapViewArgs.offset ⟨access, highBits (viewOffset page offset),
      (viewOffset page offset).setWidth 32, mappingLen⟩ = (viewOffset page offset).toNat := halves _
  refine ⟨_, hoffset, rfl, fun mapView => ?_⟩
  unfold map
  rw [hbounds]
  dsimp only [bind, Except.bind]
  rw [hview]
  dsimp only
  cases mapView ⟨access, highBits (viewOffset page offset), (viewOffset page offset).setWidth 32,
    mappingLen⟩ with
  | error e => rfl
  | ok ptr =>
    rw [← hoffset]
    rfl

/-- Whatever `map` returns shows a window. -/
theorem lawful_of_mapView {m : Windows.SharedMem p} {range : RangeArgument p} {access : Access}
    {mapView : MapView p} {r : Windows.SharedMemMap p}
    (h : m.map b page mapView range access = .ok r) :
    ∃ args, mapView args = .ok r.mappingPointer ∧ (r.view args).Lawful page.val.toNat := by
  rcases hbounds : m.bounds b range with stop | ⟨offset, len⟩
  · rw [map_of_error hbounds] at h
    cases h
  · have hsize := le_of_bounds hbounds
    obtain ⟨mappingLen, hview, hsum⟩ :=
      view_exact b page (Nat.lt_of_le_of_lt hsize m.size.isLt)
    obtain ⟨args, -, -, hmap⟩ := map_of_view hview hbounds access
    have hmap := hmap mapView
    rw [h] at hmap
    rcases hptr : mapView args with e | ptr
    · rw [hptr] at hmap
      cases hmap
    · rw [hptr] at hmap
      have hr : r.view args = _ := Except.ok.inj hmap
      refine ⟨args, hptr.trans (congrArg _ (congrArg View.mappingPointer hr).symm), ?_⟩
      rw [hr]
      exact lawful_of_view hsum ptr

end Windows

/-! ## The law -/

/-- The window `[offset, end_)` is mapped as it should be on Unix. -/
structure UnixPages (b : Build) (page : Unix.PageSize p)
    (offset end_ mappingOffset mappingLen : Usize p) : Prop where
  /-- No sum or difference overflows. -/
  ok : Unix.SharedMem.pages b page offset end_ = .ok (mappingOffset, mappingLen)
  len_dvd : page.val.toNat ∣ mappingLen.toNat
  len_pos : 0 < mappingLen.toNat
  /-- Less than a page is mapped behind the window. -/
  len_lt : mappingOffset.toNat + mappingLen.toNat < end_.toNat + page.val.toNat
  lawful : ∀ ptr, (View.mk mappingOffset.toNat mappingLen ptr (ptr + offset % page.val) offset
    (end_ - offset)).Lawful page.val.toNat
  /-- A `map` that has passed the bounds check asks for these pages. It fails if the system does, and
  returns these pointers otherwise. -/
  map_eq : ∀ (m : Unix.SharedMem p) range access prot fd, m.bounds range = .ok (offset, end_) →
    m.protection access = .ok (prot, fd) → ∀ mmap,
    (m.map b page mmap range access).map Unix.SharedMemMap.view
      = ((mmap ⟨mappingLen, prot, fd, mappingOffset⟩).mapError .err).map fun ptr =>
        ⟨mappingOffset.toNat, mappingLen, ptr, ptr + offset % page.val, offset, end_ - offset⟩

/-- The window `[offset, end_)` is mapped as it should be on Windows. -/
structure WindowsPages (b : Build) (page : Windows.PageSize p) (offset end_ mappingLen : Usize p) :
    Prop where
  /-- No sum or difference overflows. -/
  ok : Windows.SharedMem.view b page offset (end_ - offset)
    = .ok (Windows.SharedMem.viewOffset page offset, mappingLen)
  /-- The view does not go beyond the window. -/
  len_eq : (Windows.SharedMem.viewOffset page offset).toNat + mappingLen.toNat = end_.toNat
  lawful : ∀ ptr, (View.mk (Windows.SharedMem.viewOffset page offset).toNat mappingLen ptr
    (ptr + (offset - Windows.SharedMem.viewOffset page offset)) offset
    (end_ - offset)).Lawful page.val.toNat
  /-- A `map` that has passed the bounds check asks for this view, with its offset in two halves. It
  fails if the system does, and returns these pointers otherwise. -/
  map_eq : ∀ (m : Windows.SharedMem p) range access,
    m.bounds b range = .ok (offset, end_ - offset) →
    ∃ args : Windows.MapViewArgs p,
      args.offset = (Windows.SharedMem.viewOffset page offset).toNat ∧ args.len = mappingLen ∧
      ∀ mapView : Windows.MapView p,
        (m.map b page mapView range access).map (·.view args)
          = ((mapView args).mapError .err).map fun ptr =>
            ⟨(Windows.SharedMem.viewOffset page offset).toNat, mappingLen, ptr,
              ptr + (offset - Windows.SharedMem.viewOffset page offset), offset, end_ - offset⟩

section Law

variable {b : Build} {offset end_ : Usize p} (hlt : offset.toNat < end_.toNat)

include hlt

theorem toNat_window : offset.toNat + (end_ - offset).toNat = end_.toNat := by
  rw [BitVec.toNat_sub_of_le (BitVec.le_def.mpr (Nat.le_of_lt hlt)),
    Nat.add_sub_cancel' (Nat.le_of_lt hlt)]

theorem unixPages (page : Unix.PageSize p) (hfits : end_.toNat + page.val.toNat ≤ 2 ^ p.bits) :
    ∃ mappingOffset mappingLen, UnixPages b page offset end_ mappingOffset mappingLen := by
  obtain ⟨mappingOffset, mappingLen, hpages, hoffset, hsum⟩ :=
    pages_exact (b := b) (Nat.le_of_lt hlt) hfits
  have hdown := roundDown_le page.val.toNat offset.toNat
  have hup := le_roundUp page.val.toNat end_.toNat
  refine ⟨mappingOffset, mappingLen, hpages, ?_, by omega, ?_,
    lawful_of_pages (Nat.le_of_lt hlt) hoffset hsum,
    fun m range access prot fd hbounds hprot => map_of_pages hpages hbounds hprot⟩
  · have hdvd := dvd_roundUp page.pos end_.toNat
    rw [← hsum, hoffset] at hdvd
    exact (Nat.dvd_add_right (dvd_roundDown _ _)).mp hdvd
  · rw [hsum]
    exact roundUp_lt page.pos _

theorem windowsPages (page : Windows.PageSize p) :
    ∃ mappingLen, WindowsPages b page offset end_ mappingLen := by
  have hwindow := toNat_window hlt
  have hfits : offset.toNat + (end_ - offset).toNat < 2 ^ p.bits := by
    rw [hwindow]
    exact end_.isLt
  obtain ⟨mappingLen, hview, hsum⟩ := view_exact b page hfits
  exact ⟨mappingLen, hview, hsum.trans hwindow, lawful_of_view hsum,
    fun m range access hbounds => map_of_view hview hbounds access⟩

end Law

/--
On either platform a window of an object of up to `isize::MAX` bytes, less a page, is mapped as it
should be, and any two maps of one object, by whatever handles, ranges and accesses, show the same bytes
where their windows overlap.
-/
theorem page_arithmetic (b : Build) (page : Unix.PageSize p) (page' : Windows.PageSize p)
    (size offset end_ : Usize p) (hsize : size.toNat + page.val.toNat ≤ (isizeMax p).toNat)
    (hlt : offset.toNat < end_.toNat) (hend : end_.toNat ≤ size.toNat) :
    (∃ mappingOffset mappingLen, UnixPages b page offset end_ mappingOffset mappingLen) ∧
    (∃ mappingLen, WindowsPages b page' offset end_ mappingLen) ∧
    (∀ (m m' : Unix.SharedMem p) range range' access access' mmap mmap' r r',
      m.size = size → m'.size = size → m.map b page mmap range access = .ok r →
      m'.map b page mmap' range' access' = .ok r' → r.view.Agrees r'.view) ∧
    ∀ (m m' : Windows.SharedMem p) range range' access access' mapView mapView' r r',
      m.size = size → m'.size = size → m.map b page' mapView range access = .ok r →
      m'.map b page' mapView' range' access' = .ok r' →
      ∃ args args', mapView args = .ok r.mappingPointer ∧ mapView' args' = .ok r'.mappingPointer ∧
        (r.view args).Agrees (r'.view args') := by
  have hhalf := p.two_pow_bits
  rw [toNat_isizeMax] at hsize
  have hfits : size.toNat + page.val.toNat ≤ 2 ^ p.bits := by omega
  refine ⟨unixPages hlt page (by omega), windowsPages hlt page', ?_, ?_⟩
  · rintro m m' range range' access access' mmap mmap' r r' hm hm' h h'
    have hr := lawful_of_map (hm ▸ hfits) h
    have hr' := lawful_of_map (hm' ▸ hfits) h'
    exact hr.agrees hr'
  · rintro m m' range range' access access' mapView mapView' r r' - - h h'
    obtain ⟨args, hargs, hr⟩ := lawful_of_mapView h
    obtain ⟨args', hargs', hr'⟩ := lawful_of_mapView h'
    exact ⟨args, args', hargs, hargs', hr.agrees hr'⟩

/-- A window that starts in one page and ends in the next. -/
theorem page_arithmetic_across :
    (∃ mappingOffset mappingLen,
      UnixPages (p := .w64) .debug ⟨4096, by decide⟩ 100 5000 mappingOffset mappingLen) ∧
    ∃ mappingLen, WindowsPages (p := .w64) .debug ⟨4096, by decide⟩ 100 5000 mappingLen := by
  obtain ⟨hunix, hwindows, -, -⟩ := page_arithmetic (p := .w64) .debug ⟨4096, by decide⟩
    ⟨4096, by decide⟩ 8192 100 5000 (by decide) (by decide) (by decide)
  exact ⟨hunix, hwindows⟩

end SandboxIpc
