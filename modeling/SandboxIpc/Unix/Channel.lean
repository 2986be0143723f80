import SandboxIpc.Infra.Run
import SandboxIpc.Unix.Handles

/-!
# The message channel, `unix/channel.rs`

A `MessageChannel` under the datagrams of `ser.rs`, with the wrapper that carries descriptors. The
answers of tokio and of the kernel come with the call they are for, so that a run of the system is
any sequence of calls with any pattern of answers.

* `MessageChannel.write`, `MessageChannel.read` — around `sendmsg` and `recvmsg`
* `serialize`, `deserialize` — the guards of `ChannelSerializeWrapper`
* `next` — one call of the user
* `Move`, `move_next` — all that a call can do to the channel
-/

namespace SandboxIpc.Unix

open Infra

/-- A message as `sendmsg` passes it to the kernel. -/
structure Message where
  bytes : List UInt8
  fds : List RawFd
  deriving DecidableEq

structure Socket where
  fd : RawFd
  /-- Not in the source: the messages the kernel has taken from `sendmsg`, oldest first. -/
  sent : List Message

structure MessageChannel (libc : Libc) where
  socket : Socket
  cmsg : Cmsg libc maxMsgFds

/-- What tokio and the kernel answer in one `write`. -/
structure WriteAnswers where
  pollWriteReady : Except IoError Bool
  sendmsg : Except IoError Nat
  clearWriteReady : Except IoError Unit

/-- What tokio and the kernel answer in one `read`. -/
structure ReadAnswers where
  pollReadReady : Except IoError Bool
  recvmsg : Except IoError Datagram
  clearReadReady : Except IoError Unit

variable {libc : Libc} {T R : Type}

/-- A failed call clears the readiness if it would have blocked. -/
def failedCall (eagain : Int) (clear : Except IoError Unit) (err : IoError) : IoError :=
  if err.isWouldBlock eagain then
    match clear with
    | .error e => e
    | .ok () => err
  else err

namespace MessageChannel

/-- The kernel takes a message with the descriptors the control buffer announces. -/
def send (ch : MessageChannel libc) (bytes : List UInt8) : MessageChannel libc :=
  { ch with socket := { ch.socket with sent := ch.socket.sent ++ [⟨bytes, ch.cmsg.rights⟩] } }

def write (a : WriteAnswers) (buffer : List UInt8) (ch : MessageChannel libc) :
    Except IoError Nat × MessageChannel libc :=
  match a.pollWriteReady with
  | .error e => (.error e, ch)
  | .ok false => (.error .wouldBlock, ch)
  | .ok true =>
    match a.sendmsg with
    -- a datagram is taken as a whole, whatever count comes back
    | .ok written => (.ok written, ch.send buffer)
    | .error err => (.error (failedCall libc.eagain a.clearWriteReady err), ch)

def read (a : ReadAnswers) (length : Nat) (ch : MessageChannel libc) :
    Except IoError (List UInt8) × MessageChannel libc :=
  match a.pollReadReady with
  | .error e => (.error e, ch)
  | .ok false => (.error .wouldBlock, ch)
  | .ok true =>
    match a.recvmsg with
    -- the kernel cuts a datagram to the length of the buffer
    | .ok d => (.ok (d.bytes.take length), { ch with cmsg := ch.cmsg.recvmsg (.ok d) })
    | .error err =>
      (.error (failedCall libc.eagain a.clearReadReady err),
        { ch with cmsg := ch.cmsg.recvmsg (.error err) })

end MessageChannel

/-- `ChannelSerializeGuard::commit`. -/
def commit (sender : Option HandleSender) (cmsg : Cmsg libc maxMsgFds) :
    Except Failure (Cmsg libc maxMsgFds) :=
  match sender with
  | none => .error (.panic "called `Option::unwrap()` on a `None` value")
  | some s => cmsg.setFds s.recorded

/-- From `before_serialize` to the drop of its guard, which puts back the sender it found. -/
def serialize (answers : Nat → DupAnswers) (encode : T → Encoder) (item : T) (cursor : Cursor)
    (io : MessageChannel libc) (context : Context) : Serialized (MessageChannel libc) Context :=
  let (result, w) := (encode item).run answers 0 ⟨some .new, cursor⟩
  match result with
  | .error failure => ⟨.error failure, w.cursor, io, context⟩
  | .ok () =>
    match commit w.sender io.cmsg with
    | .error failure => ⟨.error failure, w.cursor, io, context⟩
    | .ok cmsg => ⟨.ok (), w.cursor, { io with cmsg }, context⟩

/-- From `before_deserialize` to the drop of its guard. -/
def deserialize (answers : Nat → FcntlAnswers) (decode : List UInt8 → Decoder R)
    (bytes : List UInt8) (io : MessageChannel libc) (context : Context) :
    Deserialized R (MessageChannel libc) Context :=
  let (calls, result) := (decode bytes).run answers (some (HandleReceiver.ofCmsg io.cmsg)) 0
  ⟨result, io, { context with calls := context.calls ++ calls }⟩

/-! ## Calls of the user -/

structure State (libc : Libc) where
  channel : BincodeDatagram (MessageChannel libc)
  context : Context

/-- A call of the user, with the answers it gets from below. -/
inductive Act (T : Type)
  | startSend (item : T) (w : WriteAnswers) (answers : Nat → DupAnswers)
  | pollComplete (w : WriteAnswers)
  | poll (r : ReadAnswers) (answers : Nat → FcntlAnswers)

/-- The outcome of the `recvmsg` of a read, if it gets that far. -/
def ReadAnswers.outcome (r : ReadAnswers) : Option (Except IoError Datagram) :=
  match r.pollReadReady with
  | .ok true => some r.recvmsg
  | _ => none

def Act.recvmsg : Act T → Option (Except IoError Datagram)
  | .poll r _ => r.outcome
  | _ => none

variable (encode : T → Encoder) (decode : List UInt8 → Decoder R)

def next (s : State libc) : Act T → State libc
  | .startSend item w answers =>
    let (_, channel, context) := s.channel.startSend libc.eagain (MessageChannel.write w)
      (serialize answers encode) item s.context
    ⟨channel, context⟩
  | .pollComplete w =>
    let (_, channel) := s.channel.pollComplete libc.eagain (MessageChannel.write w)
    ⟨channel, s.context⟩
  | .poll r answers =>
    let (_, channel, context) := s.channel.poll libc.eagain (MessageChannel.read r)
      (deserialize answers decode) s.context
    ⟨channel, context⟩

/-- The message a call accepts: the bytes in `tx_buffer`, and the descriptors recorded while they
were written. -/
def accepted (s : State libc) : Act T → Option Message
  | .startSend item w answers =>
    match (s.channel.startSend libc.eagain (MessageChannel.write w) (serialize answers encode) item
      s.context).1 with
    | .ok .ready =>
      let (_, writing) := (encode item).run answers 0 ⟨some .new, ⟨s.channel.txBuffer, 0⟩⟩
      writing.sender.map fun sender => ⟨writing.cursor.written, sender.recorded⟩
    | _ => none
  | _ => none

/-- A channel that has been wrapped. Its control buffer is new, or a raw channel has used it. -/
def system (cmsg : Cmsg libc maxMsgFds) : System (State libc) (Act T) where
  init s := s.channel.bufferedSend = none ∧ s.channel.io.cmsg = cmsg
  step s a := some (next encode decode s a)

/-! ## What a call can do -/

/-- What `poll_complete` does to the channel. -/
inductive Flush (d : BincodeDatagram (MessageChannel libc)) :
    BincodeDatagram (MessageChannel libc) → Prop
  | kept : Flush d d
  /-- The kernel takes the pending message. If it reports a short write the message stays. -/
  | taken {n : Nat} {rest : Option Nat} : d.bufferedSend = some n → rest = some n ∨ rest = none →
      Flush d { d with io := d.io.send (d.txBuffer.take n), bufferedSend := rest }

/-- It depends on the answers alone whether `write` gets rid of a message, and what it returns. -/
theorem MessageChannel.write_uniform (libc : Libc) (w : WriteAnswers) :
    (∃ e, ∀ bytes (ch : MessageChannel libc), ch.write w bytes = (.error e, ch)) ∨
      ∃ n, ∀ bytes (ch : MessageChannel libc), ch.write w bytes = (.ok n, ch.send bytes) := by
  unfold write
  split
  · exact .inl ⟨_, fun _ _ => rfl⟩
  · exact .inl ⟨_, fun _ _ => rfl⟩
  · split
    · exact .inr ⟨_, fun _ _ => rfl⟩
    · exact .inl ⟨_, fun _ _ => rfl⟩

theorem MessageChannel.write_cases (w : WriteAnswers) (bytes : List UInt8)
    (ch : MessageChannel libc) :
    (∃ e, ch.write w bytes = (.error e, ch)) ∨ ∃ n, ch.write w bytes = (.ok n, ch.send bytes) := by
  rcases write_uniform libc w with ⟨e, h⟩ | ⟨n, h⟩
  · exact .inl ⟨e, h bytes ch⟩
  · exact .inr ⟨n, h bytes ch⟩

theorem flush_pollComplete (w : WriteAnswers) (d : BincodeDatagram (MessageChannel libc)) :
    Flush d (d.pollComplete libc.eagain (MessageChannel.write w)).2 := by
  rcases d.pollComplete_cases with ⟨-, heq⟩ | ⟨n, hb, ⟨r, -, heq⟩ | ⟨hn, heq⟩⟩
  · rw [heq]
    exact .kept
  · rw [heq]
    rcases d.io.write_cases w (d.txBuffer.take n) with ⟨e, hw⟩ | ⟨k, hw⟩
    · rw [hw]
      exact .kept
    · rw [hw]
      have hflush := Flush.taken hb (.inl rfl)
      rwa [← hb] at hflush
  · rw [heq]
    rcases d.io.write_cases w (d.txBuffer.take n) with ⟨e, hw⟩ | ⟨k, hw⟩
    · rw [hw] at hn
      cases hn
    · rw [hw]
      exact .taken hb (.inr rfl)

/-- A call, the message it accepts, and the state it leads to. -/
inductive Move (s : State libc) : Act T → Option Message → State libc → Prop
  /-- A send that goes no further than `poll_complete`. -/
  | flush {a : Act T} {d : BincodeDatagram (MessageChannel libc)} : a.recvmsg = none →
      Flush s.channel d → Move s a none ⟨d, s.context⟩
  /-- The new item cannot be serialized. -/
  | reject {a : Act T} {d : BincodeDatagram (MessageChannel libc)} {tx : List UInt8} :
      a.recvmsg = none → Flush s.channel d → d.bufferedSend = none →
      Move s a none ⟨{ d with txBuffer := tx }, s.context⟩
  | accept {a : Act T} {d : BincodeDatagram (MessageChannel libc)} {m : Message} {tx : List UInt8}
      {n : Nat} {cmsg : Cmsg libc maxMsgFds} : a.recvmsg = none → Flush s.channel d →
      d.io.cmsg.setFds m.fds = .ok cmsg → tx.take n = m.bytes →
      Move s a (some m)
        ⟨{ d with io := { d.io with cmsg }, txBuffer := tx, bufferedSend := some n }, s.context⟩
  | poll {r : ReadAnswers} {answers : Nat → FcntlAnswers} {rx : List UInt8} {context : Context} :
      Move s (.poll r answers) none
        ⟨{ s.channel with
            io := { s.channel.io with
              cmsg := r.outcome.elim s.channel.io.cmsg s.channel.io.cmsg.recvmsg }
            rxBuffer := rx }, context⟩

/-- A serialization fails and leaves the channel alone, or it succeeds and the control buffer holds
the descriptors that were recorded. -/
theorem serialize_cases (answers : Nat → DupAnswers) (item : T) (cursor : Cursor)
    (io : MessageChannel libc) (context : Context) :
    (∃ failure, (serialize answers encode item cursor io context).result = .error failure ∧
      (serialize answers encode item cursor io context).io = io ∧
      (serialize answers encode item cursor io context).context = context) ∨
    ∃ writing sender cmsg, (encode item).run answers 0 ⟨some .new, cursor⟩ = (.ok (), writing) ∧
      writing.sender = some sender ∧ io.cmsg.setFds sender.recorded = .ok cmsg ∧
      serialize answers encode item cursor io context
        = ⟨.ok (), writing.cursor, { io with cmsg }, context⟩ := by
  unfold serialize
  rcases hrun : (encode item).run answers 0 ⟨some .new, cursor⟩ with ⟨r, writing⟩
  dsimp only
  cases r with
  | error failure => exact .inl ⟨failure, rfl, rfl, rfl⟩
  | ok _ =>
    dsimp only
    rcases hsender : writing.sender with _ | sender
    · exact .inl ⟨_, rfl, rfl, rfl⟩
    · obtain ⟨cmsg, hset⟩ : ∃ cmsg, io.cmsg.setFds sender.recorded = .ok cmsg :=
        Cmsg.setFds_ok (by rw [sender.length_recorded]; exact sender.index_le)
      have hcommit : commit (some sender) io.cmsg = .ok cmsg := hset
      rw [hcommit]
      exact .inr ⟨writing, sender, cmsg, rfl, hsender, hset, rfl⟩

theorem Flush.txBuffer_eq {d d' : BincodeDatagram (MessageChannel libc)} (h : Flush d d') :
    d'.txBuffer = d.txBuffer := by
  cases h with
  | kept => rfl
  | taken => rfl

theorem MessageChannel.read_snd (r : ReadAnswers) (length : Nat) (ch : MessageChannel libc) :
    (ch.read r length).2
      = { ch with cmsg := r.outcome.elim ch.cmsg ch.cmsg.recvmsg } := by
  unfold MessageChannel.read ReadAnswers.outcome
  rcases r.pollReadReady with e | ⟨_ | _⟩
  · rfl
  · rfl
  · cases r.recvmsg with
    | ok d => rfl
    | error e => rfl

/-- A read gives bytes if and only if its `recvmsg` delivers a datagram. -/
theorem MessageChannel.read_ok_iff {r : ReadAnswers} {length : Nat} {ch : MessageChannel libc}
    {bytes : List UInt8} : (ch.read r length).1 = .ok bytes ↔
      ∃ d, r.outcome = some (.ok d) ∧ bytes = d.bytes.take length := by
  unfold MessageChannel.read ReadAnswers.outcome
  rcases r.pollReadReady with e | ⟨_ | _⟩
  · exact iff_of_false nofun (by rintro ⟨d, hd, -⟩; cases hd)
  · exact iff_of_false nofun (by rintro ⟨d, hd, -⟩; cases hd)
  · cases r.recvmsg with
    | ok d =>
      constructor
      · intro h
        exact ⟨d, rfl, (Except.ok.inj h).symm⟩
      · rintro ⟨d', hd, rfl⟩
        obtain rfl := Except.ok.inj (Option.some.inj hd)
        rfl
    | error e => exact iff_of_false nofun (by rintro ⟨d, hd, -⟩; cases hd)

theorem accepted_of_ne {s : State libc} {item : T} {w : WriteAnswers} {answers : Nat → DupAnswers}
    (h : (s.channel.startSend libc.eagain (MessageChannel.write w) (serialize answers encode) item
      s.context).1 ≠ .ok .ready) :
    accepted encode s (.startSend item w answers) = none := by
  unfold accepted
  dsimp only
  split
  · next hready => exact absurd hready h
  · rfl

/-- Every call is one of the moves. -/
theorem move_next (s : State libc) (a : Act T) :
    Move s a (accepted encode s a) (next encode decode s a) := by
  cases a with
  | pollComplete w => exact .flush rfl (flush_pollComplete w s.channel)
  | poll r answers =>
    have hread := s.channel.io.read_snd r s.channel.rxBuffer.length
    dsimp only [next]
    rcases s.channel.poll_cases libc.eagain (MessageChannel.read r) (deserialize answers decode)
      s.context with ⟨-, result, rx, heq⟩ | ⟨result, rx, message, -, -, heq⟩
    · rw [heq, hread]
      exact .poll
    · rw [heq, hread]
      exact .poll
  | startSend item w answers =>
    have hflush := flush_pollComplete w s.channel
    rcases s.channel.startSend_cases (serialize answers encode) item s.context with
      ⟨r, hr, heq⟩ | ⟨hdone, heq⟩
    · -- the item before is still there
      rw [accepted_of_ne encode (by rw [heq]; exact hr)]
      dsimp only [next]
      rw [heq]
      exact .flush rfl hflush
    · -- the way is free: the new item is serialized into the same buffer
      have hnone := BincodeDatagram.bufferedSend_of_ready hdone
      have htx := hflush.txBuffer_eq
      generalize (s.channel.pollComplete libc.eagain (MessageChannel.write w)).2 = d
        at heq hflush hnone htx
      rcases serialize_cases encode answers item ⟨d.txBuffer, 0⟩ d.io s.context with
        ⟨failure, hfail, hio, hcontext⟩ | ⟨writing, sender, cmsg, hrun, hsender, hset, hser⟩
      · rw [BincodeDatagram.store_of_error hfail, hio, hcontext] at heq
        rw [accepted_of_ne encode (by rw [heq]; nofun)]
        dsimp only [next]
        rw [heq]
        exact .reject rfl hflush hnone
      · rw [BincodeDatagram.store_of_ok hser] at heq
        have hacc : accepted encode s (.startSend item w answers)
            = some ⟨writing.cursor.written, sender.recorded⟩ := by
          unfold accepted
          dsimp only
          rw [heq, ← htx, hrun]
          dsimp only
          rw [hsender]
          rfl
        rw [hacc]
        dsimp only [next]
        rw [heq]
        exact .accept rfl hflush hset rfl

/-! ## A channel on Linux -/

def linux : Libc where
  sizeT := 8
  cmsghdr := 16
  eagain := 11
  sizeT_pos := by decide
  cmsghdr_pos := by decide

/-- A channel that has just been made. -/
def freshChannel : State linux where
  channel := .wrap { socket := ⟨3, []⟩, cmsg := .new linux maxMsgFds } 64
  context := ⟨none, none, []⟩

/-- `dup` hands out descriptors from seven on. -/
def dupsFrom7 (n : Nat) : DupAnswers := ⟨fun _ => .ok (7 + n), fun _ => .ok ()⟩

/-- The kernel takes a message of eight bytes. -/
def takesEight : WriteAnswers := ⟨.ok true, .ok 8, .ok ()⟩

end SandboxIpc.Unix
