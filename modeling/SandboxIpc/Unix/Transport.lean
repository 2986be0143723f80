import SandboxIpc.Ser.Bincode
import SandboxIpc.Ser.Delivery
import SandboxIpc.Unix.Channel

/-!
# The message channel as a transport

Where `sendmsg` takes a message as a whole and says so, a `MessageChannel` meets what is assumed of
a transport, and the guards of `ChannelSerializeWrapper` meet what is assumed of a serialization.

* `sending`, `receiving` — the socket at the two ends
* `serializing`, `deserializing` — the wrapper at the two ends
* `next_sink` — what the sink does is what the channel does
* `sized_of_run` — the buffer of a channel keeps its length
-/

namespace SandboxIpc.Unix

open Infra

variable {libc : Libc} {T : Type}

/-- What tokio and the kernel answer in one `write`, if the kernel takes a message as a whole. -/
structure Taking where
  pollWriteReady : Except IoError Bool
  sendmsg : Except IoError Unit
  clearWriteReady : Except IoError Unit

/-- The answers for a message of this length. -/
def Taking.answers (a : Taking) (length : Nat) : WriteAnswers where
  pollWriteReady := a.pollWriteReady
  sendmsg := a.sendmsg.map fun _ => length
  clearWriteReady := a.clearWriteReady

def sending (libc : Libc) : Sending (MessageChannel libc) Taking where
  write a bytes ch := ch.write (a.answers bytes.length) bytes
  taken ch := ch.socket.sent.map Message.bytes
  whole a bytes ch := by
    unfold MessageChannel.write Taking.answers
    rcases a.pollWriteReady with e | ⟨_ | _⟩
    · exact .inr ⟨⟨_, rfl⟩, rfl⟩
    · exact .inr ⟨⟨_, rfl⟩, rfl⟩
    · cases a.sendmsg with
      | error e => exact .inr ⟨⟨_, rfl⟩, rfl⟩
      | ok _ => exact .inl ⟨rfl, List.map_append⟩

def receiving (libc : Libc) : Receiving (MessageChannel libc) ReadAnswers where
  read r length ch := ch.read r length
  datagram r :=
    match r.outcome with
    | some (.ok d) => some d.bytes
    | _ => none
  read_datagram {r bytes} h length ch := by
    split at h
    · next d hd =>
      obtain rfl := Option.some.inj h
      exact MessageChannel.read_ok_iff.mpr ⟨d, hd, rfl⟩
    · cases h
  read_nothing {r} h length ch := by
    cases hread : (ch.read r length).1 with
    | error e => exact ⟨e, rfl⟩
    | ok bytes =>
      obtain ⟨d, hd, -⟩ := MessageChannel.read_ok_iff.mp hread
      rw [hd] at h
      cases h

/-! ## What an encoder writes -/

/-- An encoder as bincode's code for descriptors; the answer for one is its index. -/
def Encoder.code : Encoder → Code RawFd Nat
  | .done => .done
  | .fail failure => .fail failure
  | .write bytes next => .write bytes fun fitted => (next fitted).code
  | .sendableFd fd next => .resource fd fun index => (next index).code

/-- The `serialize` of the descriptor after the first `n`. -/
def serveFd (answers : Nat → DupAnswers) (n : Nat) (fd : RawFd) (sender : Option HandleSender) :
    Except String Nat × Option HandleSender :=
  SendableFd.serialize sender fd (answers n)

theorem Encoder.run_code (answers : Nat → DupAnswers) (e : Encoder) (n : Nat) (w : Writing) :
    e.run answers n w = ((e.code.run (serveFd answers) n w.sender w.cursor).1,
      ⟨(e.code.run (serveFd answers) n w.sender w.cursor).2.1,
        (e.code.run (serveFd answers) n w.sender w.cursor).2.2⟩) := by
  induction e generalizing n w with
  | done => rfl
  | fail failure => rfl
  | write bytes next ih => exact ih _ n _
  | sendableFd fd next ih => exact ih _ (n + 1) _

/-- What the wrapper writes is what the encoder writes, and the socket is left alone. -/
theorem serialize_eq (answers : Nat → DupAnswers) (encode : T → Encoder) (item : T)
    (cursor : Cursor) (io : MessageChannel libc) (context : Context) :
    (serialize answers encode item cursor io context).cursor
        = ((encode item).run answers 0 ⟨some .new, cursor⟩).2.cursor ∧
      (serialize answers encode item cursor io context).io.socket = io.socket := by
  unfold serialize
  rcases (encode item).run answers 0 ⟨some .new, cursor⟩ with ⟨result, w⟩
  cases result with
  | error failure => exact ⟨rfl, rfl⟩
  | ok _ =>
    dsimp only
    cases commit w.sender io.cmsg <;> exact ⟨rfl, rfl⟩

/-- What the wrapper writes stays inside the buffer. -/
theorem serialize_bounds (answers : Nat → DupAnswers) (encode : T → Encoder) (item : T)
    (buffer : List UInt8) (io : MessageChannel libc) (context : Context) :
    (serialize answers encode item ⟨buffer, 0⟩ io context).cursor.position ≤ buffer.length ∧
      (serialize answers encode item ⟨buffer, 0⟩ io context).cursor.buffer.length
        = buffer.length := by
  rw [(serialize_eq answers encode item _ io context).1, Encoder.run_code]
  exact Code.run_bounds _ 0 _ (Nat.zero_le _)

def serializing (libc : Libc) (encode : T → Encoder) :
    Serializing (sending libc) T Context (Nat → DupAnswers) where
  run answers := serialize answers encode
  encoding answers item size :=
    ((encode item).run answers 0 ⟨some .new, ⟨List.replicate size 0, 0⟩⟩).2.cursor.written
  written_run answers item buffer io context _ := by
    rw [(serialize_eq answers encode item _ io context).1, Encoder.run_code, Encoder.run_code]
    symm
    exact Code.run_congr _ 0 _ ⟨Nat.zero_le _, rfl, List.length_replicate, rfl⟩
  position_le answers item buffer io context :=
    (serialize_bounds answers encode item buffer io context).1
  length_run answers item buffer io context :=
    (serialize_bounds answers encode item buffer io context).2
  taken_run answers item cursor io context :=
    congrArg (fun socket => socket.sent.map Message.bytes)
      (serialize_eq answers encode item cursor io context).2

/-- The wrapper at the other end, for items that can be read back whatever is in the control buffer. -/
def deserializing (libc : Libc) {encode : T → Encoder} (decode : List UInt8 → Decoder T)
    (h : ∀ answers item size context answers' (io : MessageChannel libc),
      (deserialize answers' decode
        ((serializing libc encode).encoding answers item size) io context).result = .ok item) :
    Deserializing (serializing libc encode) (MessageChannel libc) Context (Nat → FcntlAnswers) where
  run answers := deserialize answers decode
  inverts {answers item buffer _ _} _ answers' io context :=
    h answers item buffer.length context answers' io

/-- The answers for the message that is pending. -/
def Taking.answersTo (a : Taking) (d : BincodeDatagram (MessageChannel libc)) : WriteAnswers :=
  a.answers (d.txBuffer.take (d.bufferedSend.getD 0)).length

theorem pollComplete_answersTo (a : Taking) (d : BincodeDatagram (MessageChannel libc)) :
    d.pollComplete libc.eagain (MessageChannel.write (a.answersTo d))
      = d.pollComplete libc.eagain ((sending libc).write a) := by
  unfold BincodeDatagram.pollComplete Taking.answersTo
  cases d.bufferedSend with
  | none => rfl
  | some n => rfl

/-- A call of the sink is a call of the channel. -/
theorem next_sink {R : Type} (encode : T → Encoder) (decode : List UInt8 → Decoder R)
    (s : Sink.State (MessageChannel libc) Context) (a : Sink.Act T Taking (Nat → DupAnswers)) :
    ∃ call : Act T, next encode decode ⟨s.channel, s.context⟩ call
      = ⟨(Sink.next libc.eagain (serializing libc encode) s a).channel,
        (Sink.next libc.eagain (serializing libc encode) s a).context⟩ := by
  cases a with
  | startSend item a answers =>
    refine ⟨.startSend item (a.answersTo s.channel) answers, ?_⟩
    dsimp only [next, Sink.next, Sink.startSend]
    unfold BincodeDatagram.startSend
    rw [BincodeDatagram.flush_eq, BincodeDatagram.flush_eq, pollComplete_answersTo]
    rfl
  | pollComplete a =>
    refine ⟨.pollComplete (a.answersTo s.channel), ?_⟩
    dsimp only [next, Sink.next, Sink.pollComplete]
    rw [pollComplete_answersTo]

/-! ## The buffer of a channel -/

/-- Nothing is pending, or the kernel takes all of it in this call. -/
def WayFree (s : State libc) (w : WriteAnswers) : Prop :=
  ∀ n, s.channel.bufferedSend = some n → w.pollWriteReady = .ok true ∧ w.sendmsg = .ok n

/-- The kernel may always take what is pending. -/
theorem exists_wayFree (s : State libc) : ∃ w, WayFree s w := by
  refine ⟨⟨.ok true, .ok (s.channel.bufferedSend.getD 0), .ok ()⟩, ?_⟩
  intro n hn
  rw [hn]
  exact ⟨rfl, rfl⟩

/-- It depends on the item before alone whether `start_send` gets to the new one. -/
theorem pollComplete_ready_iff {s : State libc} {w : WriteAnswers} :
    (s.channel.pollComplete libc.eagain (MessageChannel.write w)).1 = .ok (.ready ())
      ↔ WayFree s w := by
  unfold BincodeDatagram.pollComplete MessageChannel.write WayFree
  cases s.channel.bufferedSend with
  | none => exact iff_of_true rfl nofun
  | some n =>
    dsimp only
    rcases w.pollWriteReady with e | ⟨_ | _⟩
    · refine iff_of_false ?_ fun h => nomatch (h n rfl).1
      dsimp only
      split <;> nofun
    · exact iff_of_false nofun fun h => nomatch (h n rfl).1
    · dsimp only
      cases w.sendmsg with
      | error e =>
        refine iff_of_false ?_ fun h => nomatch (h n rfl).2
        dsimp only
        split <;> nofun
      | ok written =>
        dsimp only
        by_cases hn : written = n
        · rw [if_pos hn]
          refine iff_of_true rfl ?_
          intro k hk
          obtain rfl := Option.some.inj hk
          exact ⟨rfl, congrArg Except.ok hn⟩
        · rw [if_neg hn]
          exact iff_of_false nofun fun h => hn (Except.ok.inj (h n rfl).2)

/-- `start_send` and what it leaves behind. -/
def startSend (encode : T → Encoder) (s : State libc) (item : T) (w : WriteAnswers)
    (answers : Nat → DupAnswers) : Outcome (AsyncSink T) × State libc :=
  let (result, channel, context) := s.channel.startSend libc.eagain (MessageChannel.write w)
    (serialize answers encode) item s.context
  (result, ⟨channel, context⟩)

theorem next_startSend {R : Type} (encode : T → Encoder) (decode : List UInt8 → Decoder R)
    (s : State libc) (item : T) (w : WriteAnswers) (answers : Nat → DupAnswers) :
    next encode decode s (.startSend item w answers) = (startSend encode s item w answers).2 := rfl

theorem startSend_of_blocked {s : State libc} {w : WriteAnswers} (hblocked : ¬ WayFree s w)
    (encode : T → Encoder) (item : T) (answers : Nat → DupAnswers) :
    (startSend encode s item w answers).1 ≠ .ok .ready := by
  unfold startSend
  exact BincodeDatagram.startSend_of_not_ready (mt pollComplete_ready_iff.mp hblocked)

section Sized

variable {R : Type} {encode : T → Encoder} {decode : List UInt8 → Decoder R} {limit : Nat}

theorem sized_next {s : State libc} (hs : s.channel.Sized limit) (a : Act T) :
    (next encode decode s a).channel.Sized limit := by
  cases a with
  | startSend item w answers =>
    refine hs.startSend libc.eagain (MessageChannel.write w) ?_
    intro buffer io
    exact serialize_bounds answers encode item buffer io s.context
  | pollComplete w => exact hs.pollComplete libc.eagain _
  | poll r answers => exact hs.poll libc.eagain _ _ s.context

theorem sized_of_run {cmsg : Cmsg libc maxMsgFds} {s₀ s : State libc}
    {h : List (State libc × Act T)} (hs : s₀.channel.Sized limit)
    (hr : Run ((system encode decode cmsg).startingAt s₀) h s) : s.channel.Sized limit := by
  refine hr.invariant_of (fun _ => True) (·.channel.Sized limit) ?_ ?_ fun _ _ => trivial
  · rintro s rfl
    exact hs
  · intro s a s' hs _ hstep
    obtain rfl := Option.some.inj hstep
    exact sized_next hs a

end Sized

end SandboxIpc.Unix
