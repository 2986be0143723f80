import SandboxIpc.Machine
import SandboxIpc.Infra.Overwrite

/-!
# The control buffer of a channel, `unix/mod.rs`

A channel has one `Cmsg`. `sendmsg` takes the descriptors to send from it and `recvmsg` puts the
descriptors it receives there, so that each direction finds what the other has left.

* `Cmsg.rights` — what `sendmsg` takes
* `Cmsg.recvmsg` — what `read` and the kernel do to it; a datagram without descriptors leaves the
  buffer as `reset_fd_count` made it
* `Cmsg.rights_setFds`, `Cmsg.rights_recvmsg_ok`, `Cmsg.rights_recvmsg_error` — the descriptors the
  next `sendmsg` takes, after each
-/

namespace SandboxIpc.Unix

open Infra

/-- What the C library defines: the size of `size_t` and of the header of a control message, and the
error code of a call that would block. -/
structure Libc where
  sizeT : Nat
  cmsghdr : Nat
  eagain : Int
  sizeT_pos : 0 < sizeT
  cmsghdr_pos : 0 < cmsghdr

/-- `mem::size_of::<libc::c_int>()`. -/
def cIntSize : Nat := 4

/-- `MAX_MSG_FDS`. -/
def maxMsgFds : Nat := 32

section Layout

variable (libc : Libc) (length : Nat)

/-- `CMSG_ALIGN`. The size of `size_t` is a power of two, so that the mask rounds down. -/
def cmsgAlign : Nat := (length + libc.sizeT - 1) / libc.sizeT * libc.sizeT

/-- `CMSG_LEN`. -/
def cmsgLen : Nat := cmsgAlign libc libc.cmsghdr + length

/-- `CMSG_SPACE`. -/
def cmsgSpace : Nat := cmsgAlign libc length + cmsgAlign libc libc.cmsghdr

end Layout

theorem le_cmsgAlign (libc : Libc) (length : Nat) : length ≤ cmsgAlign libc length := by
  have hpos := libc.sizeT_pos
  have hdiv := Nat.div_add_mod (length + libc.sizeT - 1) libc.sizeT
  have hmod := Nat.mod_lt (length + libc.sizeT - 1) hpos
  unfold cmsgAlign
  rw [Nat.mul_comm]
  omega

/-- A datagram as `recvmsg` delivers it: its bytes, and the descriptors the kernel has installed for
it. -/
structure Datagram where
  bytes : List UInt8
  fds : List RawFd
  fds_le : fds.length ≤ maxMsgFds

/-- The buffer has room for `fdCount` descriptors, used or not. -/
structure Cmsg (libc : Libc) (fdCount : Nat) where
  /-- `msg_hdr.msg_controllen`. -/
  controllen : Nat
  /-- `cmsg_len` of the header at the start of the buffer. -/
  len : Nat
  /-- What follows the header. -/
  data : List RawFd
  data_length : data.length = fdCount
  le_len : cmsgAlign libc libc.cmsghdr ≤ len
  len_le : len ≤ cmsgLen libc (cIntSize * fdCount)

namespace Cmsg

variable {libc : Libc} {fdCount : Nat}

theorem cmsgLen_bounds {k : Nat} (h : k ≤ fdCount) :
    cmsgAlign libc libc.cmsghdr ≤ cmsgLen libc (cIntSize * k) ∧
      cmsgLen libc (cIntSize * k) ≤ cmsgLen libc (cIntSize * fdCount) :=
  ⟨Nat.le_add_right _ _, Nat.add_le_add_left (Nat.mul_le_mul_left _ h) _⟩

def new (libc : Libc) (fdCount : Nat) : Cmsg libc fdCount where
  controllen := cmsgLen libc (cIntSize * fdCount)
  len := cmsgLen libc (cIntSize * fdCount)
  data := List.replicate fdCount 0
  data_length := List.length_replicate
  le_len := (cmsgLen_bounds (Nat.le_refl _)).1
  len_le := Nat.le_refl _

/-- The header announces `fds`, and they are written behind it. -/
def put (c : Cmsg libc fdCount) (controllen : Nat) (fds : List RawFd) (h : fds.length ≤ fdCount) :
    Cmsg libc fdCount where
  controllen
  len := cmsgLen libc (cIntSize * fds.length)
  data := overwrite fds c.data
  data_length := by rw [length_overwrite (by rwa [c.data_length]), c.data_length]
  le_len := (cmsgLen_bounds h).1
  len_le := (cmsgLen_bounds h).2

def setFds (c : Cmsg libc fdCount) (fds : List RawFd) : Except Failure (Cmsg libc fdCount) :=
  if h : fds.length ≤ fdCount then .ok (c.put (cmsgLen libc (cIntSize * fds.length)) fds h)
  else .error (.panic "insufficient space for file descriptors in cmsg")

def resetFdCount (c : Cmsg libc fdCount) : Cmsg libc fdCount :=
  { c with
    controllen := cmsgLen libc (cIntSize * fdCount)
    len := cmsgLen libc (cIntSize * fdCount)
    le_len := (cmsgLen_bounds (Nat.le_refl _)).1
    len_le := Nat.le_refl _ }

def currentFdCount (c : Cmsg libc fdCount) : Nat :=
  (c.len - cmsgAlign libc libc.cmsghdr) / cIntSize

def fds (c : Cmsg libc fdCount) : List RawFd := c.data.take c.currentFdCount

/-! ## The kernel's side -/

/-- The `SCM_RIGHTS` list `sendmsg` finds. A control length too small for a header means none. -/
def rights (c : Cmsg libc fdCount) : List RawFd :=
  if c.controllen < libc.cmsghdr then [] else c.fds

/-- A datagram without descriptors sets the control length and touches nothing else. -/
def receive (c : Cmsg libc fdCount) (fds : List RawFd) (h : fds.length ≤ fdCount) :
    Cmsg libc fdCount :=
  if fds = [] then { c with controllen := 0 }
  else c.put (min (cmsgSpace libc (cIntSize * fds.length)) c.controllen) fds h

/-- From the `reset_fd_count` of `read` to the return of its `recvmsg`. -/
def recvmsg (c : Cmsg libc maxMsgFds) : Except IoError Datagram → Cmsg libc maxMsgFds
  | .ok d => c.resetFdCount.receive d.fds d.fds_le
  -- a failed call leaves the buffer alone
  | .error _ => c.resetFdCount

/-! ## What is counted and taken afterwards -/

variable {c : Cmsg libc fdCount} {fds : List RawFd}

theorem currentFdCount_of_len {k : Nat} (h : c.len = cmsgLen libc (cIntSize * k)) :
    c.currentFdCount = k := by
  rw [currentFdCount, h, cmsgLen, Nat.add_sub_cancel_left, Nat.mul_div_cancel_left _ (by decide)]

/-- The count never exceeds the room. -/
theorem currentFdCount_le (c : Cmsg libc fdCount) : c.currentFdCount ≤ fdCount := by
  have hle : c.len - cmsgAlign libc libc.cmsghdr ≤ cIntSize * fdCount :=
    Nat.sub_le_iff_le_add'.mpr c.len_le
  exact Nat.div_le_of_le_mul hle

theorem length_fds (c : Cmsg libc fdCount) : c.fds.length = c.currentFdCount := by
  rw [fds, List.length_take, c.data_length, Nat.min_eq_left c.currentFdCount_le]

@[simp] theorem fds_put {n : Nat} (h : fds.length ≤ fdCount) : (c.put n fds h).fds = fds := by
  rw [Cmsg.fds, currentFdCount_of_len rfl]
  exact take_overwrite

/-- After `reset_fd_count` everything counts, whoever wrote it. -/
@[simp] theorem fds_resetFdCount : c.resetFdCount.fds = c.data := by
  rw [Cmsg.fds, currentFdCount_of_len rfl]
  exact List.take_of_length_le (Nat.le_of_eq c.data_length)

theorem cmsghdr_le (libc : Libc) (length : Nat) : libc.cmsghdr ≤ cmsgLen libc length :=
  Nat.le_trans (le_cmsgAlign _ _) (Nat.le_add_right _ _)

theorem rights_of_le (h : libc.cmsghdr ≤ c.controllen) : c.rights = c.fds :=
  if_neg (Nat.not_lt.mpr h)

theorem setFds_ok (h : fds.length ≤ fdCount) : ∃ c', c.setFds fds = .ok c' :=
  ⟨_, dif_pos h⟩

/-- `sendmsg` takes what `set_fds` was given. -/
theorem rights_setFds {c' : Cmsg libc fdCount} (h : c.setFds fds = .ok c') :
    c'.rights = fds ∧ c'.data = overwrite fds c.data := by
  unfold setFds at h
  split at h
  · obtain rfl := Except.ok.inj h
    rw [rights_of_le (cmsghdr_le libc _), fds_put]
    exact ⟨rfl, rfl⟩
  · cases h

section Recvmsg

variable {c : Cmsg libc maxMsgFds} {d : Datagram} {e : IoError}

theorem data_recvmsg_ok : (c.recvmsg (.ok d)).data = overwrite d.fds c.data := by
  change (c.resetFdCount.receive d.fds d.fds_le).data = _
  unfold receive
  split
  · next hnone =>
    rw [hnone]
    rfl
  · rfl

/-- After a datagram, `sendmsg` takes the descriptors of that datagram. -/
theorem rights_recvmsg_ok : (c.recvmsg (.ok d)).rights = d.fds := by
  change (c.resetFdCount.receive d.fds d.fds_le).rights = _
  unfold receive
  split
  · next hnone =>
    rw [hnone]
    exact if_pos libc.cmsghdr_pos
  · have hspace : libc.cmsghdr ≤ cmsgSpace libc (cIntSize * d.fds.length) :=
      Nat.le_trans (le_cmsgAlign _ _) (Nat.le_add_left _ _)
    have hle : libc.cmsghdr
        ≤ min (cmsgSpace libc (cIntSize * d.fds.length)) c.resetFdCount.controllen :=
      Nat.le_min.mpr ⟨hspace, cmsghdr_le libc _⟩
    rw [rights_of_le hle, fds_put]

/-- After a failure it takes everything there is. -/
theorem rights_recvmsg_error : (c.recvmsg (.error e)).rights = c.data := by
  change c.resetFdCount.rights = _
  rw [rights_of_le (cmsghdr_le libc _), fds_resetFdCount]

/-- What the next deserialization will find: the descriptors of the datagram if it has any, and all
that is left in the buffer otherwise. -/
theorem fds_recvmsg_ok :
    (c.recvmsg (.ok d)).fds = if d.fds = [] then c.data else d.fds := by
  change (c.resetFdCount.receive d.fds d.fds_le).fds = _
  unfold receive
  split
  · exact fds_resetFdCount
  · exact fds_put _

end Recvmsg

end Cmsg

end SandboxIpc.Unix
