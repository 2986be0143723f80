import SandboxIpc.Ser
import SandboxIpc.Unix.Cmsg
import Mathlib.Data.Nat.Digits.Defs

/-!
# Descriptors inside a message, `unix/mod.rs`

A descriptor is serialized as its index in the list that travels next to the bytes. `HandleSender`
collects that list while an item is serialized, `HandleReceiver` looks indices up while a datagram
is deserialized. Both reach the `Serialize` and `Deserialize` of the item through a thread-local.

The code of an item is a tree: what it does to the serializer, and how it goes on for each answer.

* `HandleSender.send`, `HandleReceiver.recv` — one descriptor
* `Encoder.run`, `Decoder.run` — all that an item does
* `Decoder.visible_of_mem` — a decoder is handed what the receiver can see
* `Decoder.rejects_iff` — when it is handed nothing
-/

namespace SandboxIpc.Unix

open Infra

/-! ## Sending -/

/-- What the system answers to one `HandleSender::send`. -/
structure DupAnswers where
  dup : RawFd → Except IoError RawFd
  setCloexec : RawFd → Except IoError Unit

/-- The descriptors recorded so far are `fds[..index]`. -/
structure HandleSender where
  fds : List RawFd
  index : Nat
  fds_length : fds.length = maxMsgFds
  index_le : index ≤ maxMsgFds

namespace HandleSender

def new : HandleSender where
  fds := List.replicate maxMsgFds 0
  index := 0
  fds_length := List.length_replicate
  index_le := Nat.zero_le _

/-- `fds[..index]`. -/
def recorded (s : HandleSender) : List RawFd := s.fds.take s.index

def send (s : HandleSender) (fd : RawFd) (a : DupAnswers) : Except IoError Nat × HandleSender :=
  if h : s.index < maxMsgFds then
    match a.dup fd with
    | .error e => (.error e, s)
    | .ok newFd =>
      match a.setCloexec newFd with
      | .error e => (.error e, s)
      | .ok () =>
        (.ok s.index,
          { fds := s.fds.set s.index newFd
            index := s.index + 1
            fds_length := by rw [List.length_set, s.fds_length]
            index_le := h })
  else
    (.error (.new .invalidInput "too many file descriptors in message destined for channel"), s)

theorem length_recorded (s : HandleSender) : s.recorded.length = s.index := by
  rw [recorded, List.length_take, s.fds_length, Nat.min_eq_left s.index_le]

end HandleSender

/-! ## Receiving -/

/-- What the system answers to one `HandleReceiver::recv`. -/
structure FcntlAnswers where
  getfd : RawFd → Int
  setCloexec : RawFd → Except IoError Unit

/-- `recv` once the descriptor is found. -/
def FcntlAnswers.accept (a : FcntlAnswers) (fd : RawFd) : Except IoError RawFd :=
  if a.getfd fd < 0 then .error (.new .invalidData "invalid file descriptor received")
  else
    match a.setCloexec fd with
    | .error e => .error e
    | .ok () => .ok fd

theorem FcntlAnswers.eq_of_accept {a : FcntlAnswers} {fd fd' : RawFd}
    (h : a.accept fd = .ok fd') : fd = fd' := by
  unfold accept at h
  split at h
  · cases h
  · split at h
    · cases h
    · exact Except.ok.inj h

structure HandleReceiver where
  fds : List RawFd
  fdsCount : Nat
  fds_length : fds.length = maxMsgFds
  fdsCount_le : fdsCount ≤ maxMsgFds

/-- The text for an index that is not in the list. -/
def outOfRange : IoError := .new .invalidData "out of range file descriptor index"

namespace HandleReceiver

def recv (r : HandleReceiver) (index : Nat) (a : FcntlAnswers) : Except IoError RawFd :=
  if h : index < r.fdsCount then
    a.accept (r.fds.get ⟨index, by rw [r.fds_length]; exact Nat.lt_of_lt_of_le h r.fdsCount_le⟩)
  else .error outOfRange

/-- The descriptors an index can name. -/
def visible (r : HandleReceiver) : List RawFd := r.fds.take r.fdsCount

/-- The receiver `before_deserialize` makes. -/
def ofCmsg {libc : Libc} (c : Cmsg libc maxMsgFds) : HandleReceiver where
  fds := overwrite c.fds (List.replicate maxMsgFds 0)
  fdsCount := c.currentFdCount
  fds_length := by
    rw [length_overwrite, List.length_replicate]
    rw [List.length_replicate, c.length_fds]
    exact c.currentFdCount_le
  fdsCount_le := c.currentFdCount_le

@[simp] theorem visible_ofCmsg {libc : Libc} (c : Cmsg libc maxMsgFds) :
    (ofCmsg c).visible = c.fds := by
  change (overwrite c.fds _).take c.currentFdCount = _
  rw [← c.length_fds, take_overwrite]

/-- What `recv` does, in terms of the visible descriptors. -/
theorem recv_eq (r : HandleReceiver) (index : Nat) (a : FcntlAnswers) :
    r.recv index a = match r.visible[index]? with
      | none => .error outOfRange
      | some fd => a.accept fd := by
  unfold recv visible
  by_cases h : index < r.fdsCount
  · have hlt : index < r.fds.length := by
      rw [r.fds_length]
      exact Nat.lt_of_lt_of_le h r.fdsCount_le
    rw [dif_pos h, List.getElem?_take_of_lt h, List.getElem?_eq_getElem hlt]
    rfl
  · rw [dif_neg h, List.getElem?_eq_none]
    rw [List.length_take]
    exact Nat.le_trans (Nat.min_le_left _ _) (Nat.le_of_not_lt h)

theorem visible_of_recv {r : HandleReceiver} {index : Nat} {a : FcntlAnswers} {fd : RawFd}
    (h : r.recv index a = .ok fd) : r.visible[index]? = some fd := by
  rw [recv_eq] at h
  split at h
  · cases h
  · next hfd => rw [hfd, FcntlAnswers.eq_of_accept h]

end HandleReceiver

/-! ## The thread-locals -/

/-- A call of `HandleReceiver::recv` and what it returned. -/
structure RecvCall where
  index : Nat
  result : Except IoError RawFd

/-- `CURRENT_SERIALIZE_CHANNEL_REMOTE_PROCESS` and its counterpart for deserializing. -/
structure Context where
  sender : Option HandleSender
  receiver : Option HandleReceiver
  /-- Not in the source: the calls of `recv` made so far, oldest first. -/
  calls : List RecvCall

/-- The `serialize` of `SendableFd`, up to the serialization of the index. -/
def SendableFd.serialize (sender : Option HandleSender) (fd : RawFd) (a : DupAnswers) :
    Except String Nat × Option HandleSender :=
  match sender with
  | none => (.error "attempted to serialize file descriptor outside of IPC channel", none)
  | some s =>
    let (index, s) := s.send fd a
    (index.mapError IoError.display, some s)

/-! ## What an item does -/

/-- The code of an item's `Serialize` as bincode drives it, however often it goes through the
item. -/
inductive Encoder
  | done
  | fail (failure : Failure)
  /-- Write some bytes; the answer is whether they fitted. -/
  | write (bytes : List UInt8) (next : Bool → Encoder)
  /-- Serialize a `SendableFd`; the answer is its index. -/
  | sendableFd (fd : RawFd) (next : Except String Nat → Encoder)

/-- What an encoder works on. -/
structure Writing where
  sender : Option HandleSender
  cursor : Cursor

/-- `answers n` is for the descriptor after the first `n`. -/
def Encoder.run (answers : Nat → DupAnswers) :
    Encoder → Nat → Writing → Except Failure Unit × Writing
  | .done, _, w => (.ok (), w)
  | .fail failure, _, w => (.error failure, w)
  | .write bytes next, n, w =>
    let (fitted, cursor) := w.cursor.writeAll bytes
    (next fitted).run answers n { w with cursor }
  | .sendableFd fd next, n, w =>
    let (index, sender) := SendableFd.serialize w.sender fd (answers n)
    (next index).run answers (n + 1) { w with sender }

/-- The code of a `Deserialize`, once it has its bytes. -/
inductive Decoder (R : Type)
  | done (value : R)
  | fail (failure : Failure)
  /-- Deserialize a `SendableFd` that reads this index; the answer is the descriptor. -/
  | sendableFd (index : Nat) (next : Except String RawFd → Decoder R)

namespace Decoder

variable {R : Type}

/-- The calls of `recv`, and the outcome. -/
def run (answers : Nat → FcntlAnswers) (receiver : Option HandleReceiver) :
    Decoder R → Nat → List RecvCall × Except Failure R
  | .done value, _ => ([], .ok value)
  | .fail failure, _ => ([], .error failure)
  | .sendableFd index next, n =>
    match receiver with
    | none =>
      (next (.error "attempted to deserialize file descriptor outside of IPC channel")).run answers
        receiver n
    | some r =>
      let result := r.recv index (answers n)
      let (calls, outcome) := (next (result.mapError IoError.display)).run answers receiver (n + 1)
      (⟨index, result⟩ :: calls, outcome)

/-- Every index the decoder asks for is outside `fds`, or the system rejects the descriptor there. -/
def Rejects (answers : Nat → FcntlAnswers) (fds : List RawFd) : Decoder R → Nat → Prop
  | .done _, _ => True
  | .fail _, _ => True
  | .sendableFd index next, n =>
    match fds[index]? with
    | none => (next (.error outOfRange.display)).Rejects answers fds (n + 1)
    | some fd =>
      match (answers n).accept fd with
      | .ok _ => False
      | .error e => (next (.error e.display)).Rejects answers fds (n + 1)

variable {answers : Nat → FcntlAnswers} {r : HandleReceiver}

/-- The calls of a decoder that asks for a descriptor. -/
theorem calls_sendableFd (index : Nat) (next : Except String RawFd → Decoder R) (n : Nat) :
    ((Decoder.sendableFd index next).run answers (some r) n).1
      = ⟨index, r.recv index (answers n)⟩ ::
        ((next ((r.recv index (answers n)).mapError IoError.display)).run answers (some r)
          (n + 1)).1 := rfl

/-- A decoder is handed only what the receiver sees at the index it asked for. -/
theorem visible_of_mem {d : Decoder R} {n : Nat} {c : RecvCall} {fd : RawFd}
    (hc : c ∈ (d.run answers (some r) n).1) (hfd : c.result = .ok fd) :
    r.visible[c.index]? = some fd := by
  induction d generalizing n with
  | done | fail => cases hc
  | sendableFd index next ih =>
    rw [calls_sendableFd] at hc
    rcases List.mem_cons.mp hc with rfl | hc
    · exact HandleReceiver.visible_of_recv hfd
    · exact ih _ hc

/-- A decoder is handed nothing if and only if all its indices are rejected. -/
theorem rejects_iff {d : Decoder R} {n : Nat} :
    (∀ c ∈ (d.run answers (some r) n).1, ∀ fd, c.result ≠ .ok fd) ↔
      d.Rejects answers r.visible n := by
  induction d generalizing n with
  | done | fail => exact ⟨fun _ => trivial, fun _ c hc => absurd hc List.not_mem_nil⟩
  | sendableFd index next ih =>
    rw [calls_sendableFd, List.forall_mem_cons, ih, HandleReceiver.recv_eq, Rejects]
    cases r.visible[index]? with
    | none =>
      refine and_iff_right ?_
      intro fd h
      cases h
    | some fd =>
      dsimp only
      cases (answers n).accept fd with
      | ok fd' => exact iff_of_false (fun h => h.1 fd' rfl) id
      | error e =>
        refine and_iff_right ?_
        intro fd h
        cases h

end Decoder

/-! ## A message that is one descriptor -/

/-- An index as bincode writes it, on a 64-bit little-endian machine. -/
def indexBytes (index : Nat) : List UInt8 :=
  (List.range 8).map fun i => UInt8.ofNat (index / 256 ^ i)

/-- A `SendableFd` as an item. bincode goes through an item twice, to find its size and to write
it. -/
def SendableFd.encode (fd : RawFd) : Encoder :=
  .sendableFd fd fun
    | .error message => .fail (.error message)
    | .ok _ => .sendableFd fd fun
      | .error message => .fail (.error message)
      | .ok index => .write (indexBytes index) fun
        | true => .done
        | false => .fail (.error "io error: failed to write whole buffer")

def SendableFd.decode (bytes : List UInt8) : Decoder RawFd :=
  if bytes.length < 8 then .fail (.error "io error: unexpected end of file")
  else .sendableFd (Nat.ofDigits 256 ((bytes.take 8).map UInt8.toNat)) fun
    | .error message => .fail (.error message)
    | .ok fd => .done fd

end SandboxIpc.Unix
