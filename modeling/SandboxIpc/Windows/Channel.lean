import SandboxIpc.Infra.Run
import SandboxIpc.Ser.Sink
import SandboxIpc.Windows.Handles

/-!
# The message channel, `windows/channel.rs`

A `MessageChannel` under the datagrams of `ser.rs`, with the wrapper that duplicates handles into the
target. The answers of the system come with the call they are for.

* `PreMessageChannel.intoChannel`, `PreMessageChannel.intoSealedChannel` — how a channel is made
* `serialize` — the guard of `ChannelSerializeWrapper`
* `next` — one call of the user
* `Move`, `move_next` — all that a call can do to the channel
-/

namespace SandboxIpc.Windows

open Infra

/-- `WSAEWOULDBLOCK`. -/
def wsaewouldblock : Int := 10035

structure Pipe where
  handle : Handle
  /-- Not in the source: the messages the pipe has taken, oldest first. -/
  sent : List (List UInt8)

structure MessageChannel where
  pipe : Pipe
  server : Bool
  target : HandleTarget
  /-- Not in the source: the handles made in the target so far, oldest first. -/
  made : List Handle
  /-- Not in the source: those of them that have been closed there again. -/
  closed : List Handle

structure PreMessageChannel where
  pipe : Handle
  server : Bool

namespace PreMessageChannel

/-- `newWithHandle` is the answer of `PollEvented::new_with_handle`. -/
def intoChannel (pre : PreMessageChannel) (processHandle : ProcessHandle)
    (newWithHandle : Except IoError Unit) : Except IoError MessageChannel :=
  newWithHandle.map fun _ => ⟨⟨pre.pipe, []⟩, pre.server, .remoteProcess processHandle, [], []⟩

def intoSealedChannel (pre : PreMessageChannel) (newWithHandle : Except IoError Unit) :
    Except IoError MessageChannel :=
  newWithHandle.map fun _ => ⟨⟨pre.pipe, []⟩, pre.server, .none, [], []⟩

end PreMessageChannel

namespace MessageChannel

def send (ch : MessageChannel) (bytes : List UInt8) : MessageChannel :=
  { ch with pipe := { ch.pipe with sent := ch.pipe.sent ++ [bytes] } }

def write (a : Except IoError Nat) (buffer : List UInt8) (ch : MessageChannel) :
    Except IoError Nat × MessageChannel :=
  match a with
  | .error e => (.error e, ch)
  -- a pipe in message mode takes a message as a whole, whatever count comes back
  | .ok written => (.ok written, ch.send buffer)

def read (a : Except IoError (List UInt8)) (length : Nat) (ch : MessageChannel) :
    Except IoError (List UInt8) × MessageChannel :=
  (a.map fun bytes => bytes.take length, ch)

end MessageChannel

/-- `ChannelSerializeGuard::commit`. -/
def commit (making : Making) : Except Failure Making :=
  match making.sender with
  | none => .error (.panic "called `Option::unwrap()` on a `None` value")
  | some s => .ok { making with sender := some { s with handles := [] } }

/-- The drop of the sender: the handles that are closed. -/
def Making.dropSender (making : Making) (close : CloseAnswers) : List Handle :=
  match making.sender with
  | none => []
  | some s => s.drop close

/-- The channel afterwards. -/
def Making.leave (making : Making) (close : CloseAnswers) (io : MessageChannel) : MessageChannel :=
  { io with made := making.made, closed := io.closed ++ making.dropSender close }

/-- What the system answers while an item is serialized. -/
structure SerializeAnswers where
  send : Nat → SendAnswers
  close : CloseAnswers

variable {T R : Type}

/-- From `before_serialize` to the drop of its guard, which drops the sender of this item. -/
def serialize (a : SerializeAnswers) (encode : T → Code Resource Sent) (item : T) (cursor : Cursor)
    (io : MessageChannel) (context : Unit) : Serialized MessageChannel Unit :=
  let (result, making, cursor) :=
    (encode item).run (serveResource a.send) 0 ⟨some ⟨io.target, []⟩, io.made⟩ cursor
  match result with
  | .error failure => ⟨.error failure, cursor, making.leave a.close io, context⟩
  | .ok () =>
    match commit making with
    | .error failure => ⟨.error failure, cursor, making.leave a.close io, context⟩
    | .ok making => ⟨.ok (), cursor, making.leave a.close io, context⟩

/-- What `decode` makes of the bytes is up to the item. -/
def deserialize (decode : List UInt8 → Except Failure R) (bytes : List UInt8) (io : MessageChannel)
    (context : Unit) : Deserialized R MessageChannel Unit :=
  ⟨decode bytes, io, context⟩

/-! ## Calls of the user -/

abbrev State := BincodeDatagram MessageChannel

/-- A call of the user, with the answers it gets from below. -/
inductive Act (T R : Type)
  | startSend (item : T) (w : Except IoError Nat) (a : SerializeAnswers)
  | pollComplete (w : Except IoError Nat)
  | poll (r : Except IoError (List UInt8)) (decode : List UInt8 → Except Failure R)

variable (encode : T → Code Resource Sent)

/-- `start_send` and what it leaves behind. -/
def startSend (s : State) (item : T) (w : Except IoError Nat) (a : SerializeAnswers) :
    Outcome (AsyncSink T) × State :=
  let (result, s, _) := BincodeDatagram.startSend wsaewouldblock (MessageChannel.write w)
    (serialize a encode) item s ()
  (result, s)

def next (s : State) : Act T R → State
  | .startSend item w a => (startSend encode s item w a).2
  | .pollComplete w => (s.pollComplete wsaewouldblock (MessageChannel.write w)).2
  | .poll r decode => (s.poll wsaewouldblock (MessageChannel.read r) (deserialize decode) ()).2.1

/-- The item a call accepts, and the message it will be sent as. -/
def accepted (s : State) : Act T R → Option (T × List UInt8)
  | .startSend item w a =>
    match startSend encode s item w a with
    | (.ok .ready, s) => s.bufferedSend.map fun n => (item, s.txBuffer.take n)
    | _ => none
  | _ => none

/-- A channel that has been wrapped. -/
def system (io : MessageChannel) (bufferSize : Nat) : System State (Act T R) where
  init s := s = .wrap io bufferSize
  step s a := some (next encode s a)

/-! ## What a call can do -/

/-- What `poll_complete` does to the channel. -/
inductive Flush (d : State) : State → Prop
  | kept : Flush d d
  | taken {n : Nat} {rest : Option Nat} : d.bufferedSend = some n → rest = some n ∨ rest = none →
      Flush d { d with io := d.io.send (d.txBuffer.take n), bufferedSend := rest }

/-- A call, what it accepts, and the state it leads to. -/
inductive Move (s : State) : Act T R → Option (T × List UInt8) → State → Prop
  /-- A send that goes no further than `poll_complete`. -/
  | flush {a : Act T R} {d : State} : Flush s d → Move s a none d
  /-- The new item cannot be serialized. -/
  | reject {item : T} {w : Except IoError Nat} {a : SerializeAnswers} {d : State} : Flush s d →
      d.bufferedSend = none →
      Move s (.startSend item w a) none
        { d with
          io := (serialize a encode item ⟨d.txBuffer, 0⟩ d.io ()).io
          txBuffer := (serialize a encode item ⟨d.txBuffer, 0⟩ d.io ()).cursor.buffer }
  | accept {item : T} {w : Except IoError Nat} {a : SerializeAnswers} {d : State} {cursor : Cursor}
      {io : MessageChannel} : Flush s d →
      serialize a encode item ⟨d.txBuffer, 0⟩ d.io () = ⟨.ok (), cursor, io, ()⟩ →
      Move s (.startSend item w a) (some (item, cursor.written))
        { d with io, txBuffer := cursor.buffer, bufferedSend := some cursor.position }
  | poll {r : Except IoError (List UInt8)} {decode : List UInt8 → Except Failure R}
      {rx : List UInt8} : Move s (.poll r decode) none { s with rxBuffer := rx }

theorem flush_pollComplete (w : Except IoError Nat) (d : State) :
    Flush d (d.pollComplete wsaewouldblock (MessageChannel.write w)).2 := by
  rcases d.pollComplete_cases with ⟨-, heq⟩ | ⟨n, hb, ⟨r, -, heq⟩ | ⟨hn, heq⟩⟩
  · rw [heq]
    exact .kept
  · rw [heq]
    cases w with
    | error e => exact .kept
    | ok _ =>
      have hflush := Flush.taken hb (.inl rfl)
      rwa [← hb] at hflush
  · rw [heq]
    cases w with
    | error e => cases hn
    | ok _ => exact .taken hb (.inr rfl)

/-- Every call is one of the moves. -/
theorem move_next (s : State) (a : Act T R) :
    Move encode s a (accepted encode s a) (next encode s a) := by
  cases a with
  | pollComplete w => exact .flush (flush_pollComplete w s)
  | poll r decode =>
    dsimp only [next]
    rcases s.poll_cases wsaewouldblock (MessageChannel.read r) (deserialize decode) () with
      ⟨-, result, rx, heq⟩ | ⟨result, rx, message, -, -, heq⟩
    · rw [heq]
      exact .poll
    · rw [heq]
      exact .poll
  | startSend item w a =>
    have hflush := flush_pollComplete w s
    rcases s.startSend_cases (serialize a encode) item () with ⟨r, hr, heq⟩ | ⟨hdone, heq⟩
    · -- the item before is still there
      have hsend : startSend encode s item w a
          = (r, (s.pollComplete wsaewouldblock (MessageChannel.write w)).2) := by
        unfold startSend
        rw [heq]
      dsimp only [next, accepted]
      rw [hsend]
      split
      · next hready => exact absurd (congrArg Prod.fst hready) hr
      · exact .flush hflush
    · have hnone := BincodeDatagram.bufferedSend_of_ready hdone
      generalize (s.pollComplete wsaewouldblock (MessageChannel.write w)).2 = d
        at heq hflush hnone
      dsimp only [next, accepted]
      unfold startSend
      rw [heq]
      rcases hser : serialize a encode item ⟨d.txBuffer, 0⟩ d.io () with ⟨result, cursor, io, ⟨⟩⟩
      cases result with
      | error failure =>
        rw [BincodeDatagram.store_of_error (by rw [hser])]
        exact .reject hflush hnone
      | ok _ =>
        rw [BincodeDatagram.store_of_ok hser]
        exact .accept hflush hser

/-- The wrapper leaves the pipe and the target alone, and what it writes is what the item writes. -/
theorem serialize_frame (a : SerializeAnswers) (item : T) (cursor : Cursor) (io : MessageChannel) :
    (serialize a encode item cursor io ()).io.pipe = io.pipe ∧
      (serialize a encode item cursor io ()).io.target = io.target ∧
      (serialize a encode item cursor io ()).cursor
        = ((encode item).run (serveResource a.send) 0 ⟨some ⟨io.target, []⟩, io.made⟩
          cursor).2.2 := by
  unfold serialize
  rcases (encode item).run (serveResource a.send) 0 ⟨some ⟨io.target, []⟩, io.made⟩ cursor with
    ⟨result, making, cursor'⟩
  cases result with
  | error failure => exact ⟨rfl, rfl, rfl⟩
  | ok _ =>
    dsimp only
    cases commit making with
    | error failure => exact ⟨rfl, rfl, rfl⟩
    | ok making => exact ⟨rfl, rfl, rfl⟩

/-- Without a target no handle is made. -/
theorem made_serialize (a : SerializeAnswers) (item : T) (cursor : Cursor) {io : MessageChannel}
    (h : io.target = .none) : (serialize a encode item cursor io ()).io.made = io.made := by
  have hmaking : ((encode item).run (serveResource a.send) 0 ⟨some ⟨io.target, []⟩, io.made⟩
      cursor).2.1 = ⟨some ⟨.none, []⟩, io.made⟩ := by
    refine Code.run_invariant (P := (· = _)) ?_ (encode item) 0 (by rw [h]) cursor
    rintro n r _ rfl
    cases r <;> rfl
  unfold serialize
  generalize (encode item).run (serveResource a.send) 0 ⟨some ⟨io.target, []⟩, io.made⟩ cursor
    = out at hmaking
  obtain ⟨result, making, cursor'⟩ := out
  obtain rfl : making = _ := hmaking
  cases result with
  | error failure => rfl
  | ok _ => rfl

/-! ## Runs -/

section Runs

variable {encode} {io : MessageChannel} {bufferSize : Nat} {h : List (State × Act T R)} {s : State}

theorem sized_next (hs : s.Sized bufferSize) (a : Act T R) :
    (next encode s a).Sized bufferSize := by
  cases a with
  | startSend item w a =>
    refine hs.startSend wsaewouldblock (MessageChannel.write w) ?_
    intro buffer io
    rw [(serialize_frame encode a item ⟨buffer, 0⟩ io).2.2]
    exact Code.run_bounds _ 0 _ (Nat.zero_le _)
  | pollComplete w => exact hs.pollComplete wsaewouldblock _
  | poll r decode => exact hs.poll wsaewouldblock _ _ ()

theorem sized_of_run (hr : Run (system encode io bufferSize) h s) : s.Sized bufferSize := by
  refine hr.invariant_of (fun _ => True) (·.Sized bufferSize) ?_ ?_ fun _ _ => trivial
  · rintro s rfl
    exact BincodeDatagram.sized_wrap io bufferSize
  · intro s a s' hs _ hstep
    obtain rfl := Option.some.inj hstep
    exact sized_next hs a

/-- Nothing is pending, or the pipe takes all of it in this call. -/
def WayFree (s : State) (w : Except IoError Nat) : Prop := ∀ n, s.bufferedSend = some n → w = .ok n

/-- The pipe may always take what is pending. -/
theorem exists_wayFree (s : State) : ∃ w, WayFree s w := by
  refine ⟨.ok (s.bufferedSend.getD 0), ?_⟩
  intro n hn
  rw [hn]
  rfl

theorem pollComplete_ready_iff {w : Except IoError Nat} :
    (s.pollComplete wsaewouldblock (MessageChannel.write w)).1 = .ok (.ready ())
      ↔ WayFree s w := by
  unfold BincodeDatagram.pollComplete MessageChannel.write WayFree
  cases s.bufferedSend with
  | none => exact iff_of_true rfl nofun
  | some n =>
    dsimp only
    cases w with
    | error e =>
      refine iff_of_false ?_ fun h => nomatch h n rfl
      dsimp only
      split <;> nofun
    | ok written =>
      dsimp only
      by_cases hn : written = n
      · rw [if_pos hn]
        refine iff_of_true rfl ?_
        intro k hk
        rw [hn, Option.some.inj hk]
      · rw [if_neg hn]
        exact iff_of_false nofun fun h => hn (Except.ok.inj (h n rfl))

theorem startSend_of_blocked {w : Except IoError Nat} (hblocked : ¬ WayFree s w) (item : T)
    (a : SerializeAnswers) : (startSend encode s item w a).1 ≠ .ok .ready := by
  unfold startSend
  exact BincodeDatagram.startSend_of_not_ready (mt pollComplete_ready_iff.mp hblocked)

theorem Flush.target_eq {d d' : State} (h : Flush d d') : d'.io.target = d.io.target := by
  cases h with
  | kept => rfl
  | taken => rfl

theorem Flush.made_eq {d d' : State} (h : Flush d d') : d'.io.made = d.io.made := by
  cases h with
  | kept => rfl
  | taken => rfl

theorem Flush.closed_eq {d d' : State} (h : Flush d d') : d'.io.closed = d.io.closed := by
  cases h with
  | kept => rfl
  | taken => rfl

/-- The target of a channel never changes. -/
theorem target_next (s : State) (a : Act T R) : (next encode s a).io.target = s.io.target := by
  have hmove := move_next encode s a
  generalize accepted encode s a = m at hmove
  generalize next encode s a = s' at hmove
  cases hmove with
  | flush hf => exact hf.target_eq
  | reject hf _ => exact (serialize_frame encode _ _ _ _).2.1.trans hf.target_eq
  | @accept item w a d cursor io hf hser =>
    have hframe := (serialize_frame encode a item ⟨d.txBuffer, 0⟩ d.io).2.1
    rw [hser] at hframe
    exact hframe.trans hf.target_eq
  | poll => rfl

theorem target_of_run (hr : Run (system encode io bufferSize) h s) : s.io.target = io.target := by
  refine hr.invariant_of (fun _ => True) (·.io.target = io.target) ?_ ?_ fun _ _ => trivial
  · rintro s rfl
    rfl
  · intro s a s' hs _ hstep
    obtain rfl := Option.some.inj hstep
    exact (target_next s a).trans hs

/-- A call on a sealed channel makes no handle. -/
theorem made_next {s : State} (hs : s.io.target = .none) (a : Act T R) :
    (next encode s a).io.made = s.io.made := by
  have hmove := move_next encode s a
  generalize accepted encode s a = m at hmove
  generalize next encode s a = s' at hmove
  cases hmove with
  | flush hf => exact hf.made_eq
  | reject hf _ =>
    exact (made_serialize encode _ _ _ (hf.target_eq.trans hs)).trans hf.made_eq
  | @accept item w a d cursor io hf hser =>
    have hmade := made_serialize encode a item ⟨d.txBuffer, 0⟩ (hf.target_eq.trans hs)
    rw [hser] at hmade
    exact hmade.trans hf.made_eq
  | poll => rfl

/-- The pipe takes `m` in this call. -/
def Takes (encode : T → Code Resource Sent) (e : State × Act T R) (m : List UInt8) : Prop :=
  (next encode e.1 e.2).io.pipe.sent = e.1.io.pipe.sent ++ [m]

/-- Whatever is pending has been accepted. -/
theorem accepted_of_pending (hr : Run (system encode io bufferSize) h s) :
    ∀ m ∈ s.pending, ∃ e ∈ h, ∃ item, accepted encode e.1 e.2 = some (item, m) := by
  refine hr.ledger (fun h s => ∀ m ∈ s.pending, ∃ e ∈ h, ∃ item,
    accepted encode e.1 e.2 = some (item, m)) ?_ ?_
  · rintro s rfl m hm
    cases hm
  · intro h s a s' ih hstep m hm
    obtain rfl := Option.some.inj hstep
    rw [exists_mem_snoc]
    have hmove := move_next encode s a
    generalize accepted encode s a = acc at hmove
    generalize next encode s a = s' at hmove hm
    have hflush : ∀ d, Flush s d → m ∈ d.pending → m ∈ s.pending := by
      intro d hf hm
      cases hf with
      | kept => exact hm
      | @taken n rest hb hrest =>
        unfold BincodeDatagram.pending at hm ⊢
        rw [hb]
        rcases hrest with rfl | rfl
        · exact hm
        · cases hm
    cases hmove with
    | flush hf => exact .inl (ih m (hflush _ hf hm))
    | reject _ hnone =>
      unfold BincodeDatagram.pending at hm
      dsimp only at hm
      rw [hnone] at hm
      cases hm
    | @accept item _ _ _ cursor io hf hser =>
      obtain rfl := List.mem_singleton.mp hm
      exact .inr ⟨item, rfl⟩
    | poll => exact .inl (ih m hm)

/-- The pipe takes what is pending. -/
theorem pending_of_takes {s : State} {a : Act T R} {m : List UInt8} (h : Takes encode (s, a) m) :
    m ∈ s.pending := by
  have hmove := move_next encode s a
  unfold Takes at h
  have hflush : ∀ d, Flush s d → d.io.pipe.sent = s.io.pipe.sent ++ [m] → m ∈ s.pending := by
    intro d hf hsent
    cases hf with
    | kept => exact absurd hsent.symm (by simp)
    | @taken n rest hb _ =>
      have hsent : s.io.pipe.sent ++ [_] = s.io.pipe.sent ++ [m] := hsent
      rw [List.append_cancel_left_eq] at hsent
      unfold BincodeDatagram.pending
      rw [hb]
      exact List.mem_singleton.mpr (List.singleton_inj.mp hsent).symm
  generalize accepted encode s a = acc at hmove
  generalize next encode s a = s' at hmove h
  cases hmove with
  | flush hf => exact hflush _ hf h
  | @reject item w a d hf _ =>
    refine hflush d hf (Eq.trans ?_ h)
    exact congrArg Pipe.sent (serialize_frame encode a item ⟨d.txBuffer, 0⟩ d.io).1.symm
  | @accept item w a d cursor io hf hser =>
    have hframe := (serialize_frame encode a item ⟨d.txBuffer, 0⟩ d.io).1
    rw [hser] at hframe
    exact hflush d hf ((congrArg Pipe.sent hframe).symm.trans h)
  | poll => exact absurd h.symm (by simp)

end Runs

end SandboxIpc.Windows
