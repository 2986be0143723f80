import SandboxIpc.Infra.Run
import SandboxIpc.Ser

/-!
# The sending side of a channel

One buffer holds the item that is being sent, and `buffered_send` its length. Whatever the transport
answers, the datagrams it has taken and the pending one are the encodings of the accepted items.

* `Sending`, `Serializing` — what is assumed of the transport and of the serialization
* `SendsInOrder` — every accepted item is sent once and in its turn
* `sends_in_order` — it holds after all calls of `start_send` and `poll_complete`
-/

namespace SandboxIpc

open Infra

/-- A transport that takes a datagram as a whole or not at all. `A` is what the system answers in one
call. -/
structure Sending (S A : Type) where
  write : A → List UInt8 → S → Except IoError Nat × S
  /-- Not in the source: the datagrams taken so far, oldest first. -/
  taken : S → List (List UInt8)
  whole : ∀ a bytes io,
    ((write a bytes io).1 = .ok bytes.length ∧ taken (write a bytes io).2 = taken io ++ [bytes]) ∨
    (∃ e, (write a bytes io).1 = .error e) ∧ taken (write a bytes io).2 = taken io

/-- The serialization of items, with the guards of the wrapper around it. `C` is what the system
answers meanwhile. -/
structure Serializing {S A : Type} (sending : Sending S A) (T K C : Type) where
  run : C → T → Cursor → S → K → Serialized S K
  /-- Not in the source: what is written for an item into a buffer of this size. -/
  encoding : C → T → Nat → List UInt8
  /-- The old contents of the buffer do not matter. -/
  written_run : ∀ c item buffer io k, (run c item ⟨buffer, 0⟩ io k).result = .ok () →
    (run c item ⟨buffer, 0⟩ io k).cursor.written = encoding c item buffer.length
  /-- A cursor does not leave its slice. -/
  position_le : ∀ c item buffer io k,
    (run c item ⟨buffer, 0⟩ io k).cursor.position ≤ buffer.length
  length_run : ∀ c item buffer io k,
    (run c item ⟨buffer, 0⟩ io k).cursor.buffer.length = buffer.length
  /-- Nothing is sent. -/
  taken_run : ∀ c item cursor io k, sending.taken (run c item cursor io k).io = sending.taken io

namespace BincodeDatagram

variable {S : Type}

/-- The datagram that is still to be sent, if any: `tx_buffer[..n]`. -/
def pending (d : BincodeDatagram S) : List (List UInt8) :=
  match d.bufferedSend with
  | none => []
  | some n => [d.txBuffer.take n]

/-- The pending length lies inside the buffer. -/
def Bounded (d : BincodeDatagram S) : Prop := ∀ n, d.bufferedSend = some n → n ≤ d.txBuffer.length

variable {A : Type} (sending : Sending S A) (eagain : Int)

/-- `poll_complete` gets rid of what is pending, or leaves it as it is. -/
theorem pollComplete_sending (d : BincodeDatagram S) (hd : d.Bounded) (a : A) :
    ((d.pollComplete eagain (sending.write a)).1 = .ok (.ready ()) ∧
      (d.pollComplete eagain (sending.write a)).2.bufferedSend = none ∧
      sending.taken (d.pollComplete eagain (sending.write a)).2.io
        = sending.taken d.io ++ d.pending) ∨
    ((d.pollComplete eagain (sending.write a)).1 ≠ .ok (.ready ()) ∧
      (d.pollComplete eagain (sending.write a)).2.bufferedSend = d.bufferedSend ∧
      sending.taken (d.pollComplete eagain (sending.write a)).2.io = sending.taken d.io) := by
  unfold pollComplete pending
  cases hb : d.bufferedSend with
  | none => exact .inl ⟨rfl, hb, (List.append_nil _).symm⟩
  | some n =>
    have hlength : (d.txBuffer.take n).length = n := by
      rw [List.length_take, Nat.min_eq_left (hd n hb)]
    dsimp only
    rcases sending.whole a (d.txBuffer.take n) d.io with ⟨hok, htaken⟩ | ⟨⟨e, herr⟩, htaken⟩
    · rcases hw : sending.write a (d.txBuffer.take n) d.io with ⟨r, io⟩
      rw [hw] at hok htaken
      obtain rfl : r = .ok n := by
        rw [← hlength]
        exact hok
      dsimp only
      rw [if_pos rfl]
      exact .inl ⟨rfl, rfl, htaken⟩
    · rcases hw : sending.write a (d.txBuffer.take n) d.io with ⟨r, io⟩
      rw [hw] at herr htaken
      obtain rfl : r = .error e := herr
      dsimp only
      refine .inr ⟨?_, rfl, htaken⟩
      split <;> nofun

theorem txBuffer_pollComplete (d : BincodeDatagram S)
    (write : List UInt8 → S → Except IoError Nat × S) :
    (d.pollComplete eagain write).2.txBuffer = d.txBuffer := by
  rcases d.pollComplete_cases with ⟨-, heq⟩ | ⟨n, -, ⟨r, -, heq⟩ | ⟨-, heq⟩⟩
  all_goals rw [heq]

/-- The buffer has the length it was made with, and what is pending lies inside. -/
structure Sized (limit : Nat) (d : BincodeDatagram S) : Prop where
  length : d.txBuffer.length = limit
  bounded : d.Bounded

theorem sized_wrap (io : S) (limit : Nat) : (wrap io limit).Sized limit :=
  ⟨List.length_replicate, fun _ h => by cases h⟩

namespace Sized

variable {limit : Nat} {d : BincodeDatagram S} (h : d.Sized limit)

include h

theorem pollComplete (write : List UInt8 → S → Except IoError Nat × S) :
    (d.pollComplete eagain write).2.Sized limit := by
  rcases d.pollComplete_cases with ⟨-, heq⟩ | ⟨n, -, ⟨r, -, heq⟩ | ⟨-, heq⟩⟩
  · rw [heq]
    exact h
  · rw [heq]
    exact ⟨h.length, h.bounded⟩
  · rw [heq]
    exact ⟨h.length, nofun⟩

theorem startSend {T K : Type} {serialize : T → Cursor → S → K → Serialized S K} {item : T} {k : K}
    (write : List UInt8 → S → Except IoError Nat × S)
    (hserialize : ∀ buffer io, (serialize item ⟨buffer, 0⟩ io k).cursor.position ≤ buffer.length ∧
      (serialize item ⟨buffer, 0⟩ io k).cursor.buffer.length = buffer.length) :
    (d.startSend eagain write serialize item k).2.1.Sized limit := by
  have hflush := h.pollComplete eagain write
  rcases d.startSend_cases serialize item k with ⟨r, -, heq⟩ | ⟨hready, heq⟩
  · rw [heq]
    exact hflush
  · have hnone := bufferedSend_of_ready hready
    rw [heq]
    generalize (d.pollComplete eagain write).2 = d at hflush hnone
    obtain ⟨hle, hlength⟩ := hserialize d.txBuffer d.io
    rcases hser : serialize item ⟨d.txBuffer, 0⟩ d.io k with ⟨result, cursor, io, k'⟩
    rw [hser] at hle hlength
    cases result with
    | error failure =>
      rw [store_of_error (by rw [hser])]
      refine ⟨?_, fun n hn => absurd (hnone.symm.trans hn) nofun⟩
      rw [hser]
      exact hlength.trans hflush.length
    | ok _ =>
      rw [store_of_ok hser]
      refine ⟨hlength.trans hflush.length, ?_⟩
      intro n hn
      obtain rfl := Option.some.inj hn
      exact Nat.le_trans hle (Nat.le_of_eq hlength.symm)

theorem poll {R K : Type} (read : Nat → S → Except IoError (List UInt8) × S)
    (deserialize : List UInt8 → S → K → Deserialized R S K) (k : K) :
    (d.poll eagain read deserialize k).2.1.Sized limit := by
  rcases d.poll_cases eagain read deserialize k with ⟨-, _, _, heq⟩ | ⟨_, _, _, -, -, heq⟩
  all_goals
    rw [heq]
    exact ⟨h.length, h.bounded⟩

end Sized

end BincodeDatagram

/-! ## A transport in memory -/

/-- It takes a datagram, or would block. -/
def mailbox : Sending (List (List UInt8)) Bool where
  write takes bytes io :=
    if takes then (.ok bytes.length, io ++ [bytes]) else (.error .wouldBlock, io)
  taken io := io
  whole a bytes io := by
    cases a with
    | true => exact .inl ⟨rfl, rfl⟩
    | false => exact .inr ⟨⟨_, rfl⟩, rfl⟩

/-- `NoopWrapper` around a `Serialize` that writes its item in one piece. -/
def noopWrapper {S A T : Type} (sending : Sending S A) (encode : T → List UInt8) :
    Serializing sending T Unit Unit where
  run _ item cursor io _ :=
    let (fitted, cursor) := cursor.writeAll (encode item)
    ⟨if fitted then .ok () else .error (.error "failed to write whole buffer"), cursor, io, ()⟩
  encoding _ item _ := encode item
  written_run _ item buffer io k hresult := by
    dsimp only at hresult ⊢
    rw [Cursor.written_writeAll (Nat.zero_le _)]
    cases hfitted : (Cursor.writeAll ⟨buffer, 0⟩ (encode item)).1 with
    | true => exact Cursor.take_of_fitted hfitted
    | false =>
      rw [hfitted] at hresult
      cases hresult
  position_le _ item buffer io k := by
    have hle := Cursor.position_writeAll_le (c := ⟨buffer, 0⟩) (Nat.zero_le _) (encode item)
    rwa [Cursor.length_writeAll (Nat.zero_le _)] at hle
  length_run _ item buffer io k := Cursor.length_writeAll (Nat.zero_le _) (encode item)
  taken_run _ _ _ _ _ := rfl

namespace Sink

variable {S A T K C : Type} (eagain : Int) {sending : Sending S A}
  (serializing : Serializing sending T K C)

structure State (S K : Type) where
  channel : BincodeDatagram S
  context : K

/-- A call of the user, with the answers it gets from below. -/
inductive Act (T A C : Type)
  | startSend (item : T) (a : A) (c : C)
  | pollComplete (a : A)

/-- `start_send` and what it leaves behind. -/
def startSend (s : State S K) (item : T) (a : A) (c : C) : Outcome (AsyncSink T) × State S K :=
  let (result, channel, context) := s.channel.startSend eagain (sending.write a) (serializing.run c)
    item s.context
  (result, ⟨channel, context⟩)

/-- `poll_complete` and what it leaves behind. -/
def pollComplete (sending : Sending S A) (s : State S K) (a : A) :
    Except IoError (Async Unit) × State S K :=
  let (result, channel) := s.channel.pollComplete eagain (sending.write a)
  (result, ⟨channel, s.context⟩)

def next (s : State S K) : Act T A C → State S K
  | .startSend item a c => (startSend eagain serializing s item a c).2
  | .pollComplete a => (pollComplete eagain sending s a).2

/-- The item a call accepts, with its encoding. -/
def accepted (s : State S K) : Act T A C → Option (T × List UInt8)
  | .startSend item a c =>
    match (startSend eagain serializing s item a c).1 with
    | .ok .ready => some (item, serializing.encoding c item s.channel.txBuffer.length)
    | _ => none
  | .pollComplete _ => none

/-- All items accepted so far, in their order. -/
def acceptedIn (h : List (State S K × Act T A C)) : List (T × List UInt8) :=
  h.filterMap fun e => accepted eagain serializing e.1 e.2

/-- A channel that has been wrapped. Its transport may have taken datagrams before. -/
def system (base : List (List UInt8)) : System (State S K) (Act T A C) where
  init s := s.channel.bufferedSend = none ∧ sending.taken s.channel.io = base
  step s a := some (next eagain serializing s a)

/-- Every accepted item is sent once and in its turn. -/
structure SendsInOrder (base : List (List UInt8)) (h : List (State S K × Act T A C))
    (s : State S K) : Prop where
  /-- What has been taken are the encodings of the accepted items, but for the last one while it is
  pending. -/
  ledger : base ++ (acceptedIn eagain serializing h).map Prod.snd
    = sending.taken s.channel.io ++ s.channel.pending
  /-- `NotReady` gives the item back and leaves the pending one alone. -/
  notReady : Always (fun _ e => ∀ item a c item', e.2 = .startSend item a c →
    (startSend eagain serializing e.1 item a c).1 = .ok (.notReady item') → item' = item ∧
      (next eagain serializing e.1 e.2).channel.bufferedSend = e.1.channel.bufferedSend ∧
      (next eagain serializing e.1 e.2).channel.pending = e.1.channel.pending) h
  /-- Once `poll_complete` is `Ready` everything accepted has been taken. -/
  flushed : Always (fun pre e => ∀ a, e.2 = .pollComplete a →
    (pollComplete eagain sending e.1 a).1 = .ok (.ready ()) →
      (next eagain serializing e.1 e.2).channel.bufferedSend = none ∧
      base ++ (acceptedIn eagain serializing (pre ++ [e])).map Prod.snd
        = sending.taken (next eagain serializing e.1 e.2).channel.io) h

/-- All that `start_send` can come to, with its result. -/
inductive Attempt (s : State S K) (item : T) (c : C) : Outcome (AsyncSink T) → State S K → Prop
  /-- The item before is still there. -/
  | waits {r : Outcome (AsyncSink T)} {s' : State S K} :
      r = .ok (.notReady item) ∨ (∃ e, r = .error e) →
      s'.channel.bufferedSend = s.channel.bufferedSend →
      s'.channel.txBuffer = s.channel.txBuffer →
      sending.taken s'.channel.io = sending.taken s.channel.io → Attempt s item c r s'
  /-- The item before is gone, and this one cannot be serialized. -/
  | rejects {e : Stop} {s' : State S K} : s'.channel.bufferedSend = none →
      s'.channel.txBuffer.length = s.channel.txBuffer.length →
      sending.taken s'.channel.io = sending.taken s.channel.io ++ s.channel.pending →
      Attempt s item c (.error e) s'
  | stores {n : Nat} {s' : State S K} {io : S} :
      (serializing.run c item ⟨s.channel.txBuffer, 0⟩ io s.context).result = .ok () →
      s'.channel.bufferedSend = some n → n ≤ s'.channel.txBuffer.length →
      s'.channel.txBuffer.take n = serializing.encoding c item s.channel.txBuffer.length →
      s'.channel.txBuffer.length = s.channel.txBuffer.length →
      sending.taken s'.channel.io = sending.taken s.channel.io ++ s.channel.pending →
      Attempt s item c (.ok .ready) s'

theorem attempt_startSend (s : State S K) (hs : s.channel.Bounded) (item : T) (a : A) (c : C) :
    Attempt serializing s item c (startSend eagain serializing s item a c).1
      (startSend eagain serializing s item a c).2 := by
  have htx := s.channel.txBuffer_pollComplete eagain (sending.write a)
  have hflush := s.channel.pollComplete_sending sending eagain hs a
  unfold startSend BincodeDatagram.startSend
  rw [BincodeDatagram.flush_eq]
  generalize s.channel.pollComplete eagain (sending.write a) = p at htx hflush
  obtain ⟨r, d⟩ := p
  rcases hflush with ⟨rfl, hnone, htaken⟩ | ⟨hr, hsame, htaken⟩
  · -- the way is free
    dsimp only at htx hnone htaken ⊢
    have hsent := (serializing.taken_run c item ⟨d.txBuffer, 0⟩ d.io s.context).trans htaken
    have hlength := serializing.length_run c item d.txBuffer d.io s.context
    have hle := serializing.position_le c item d.txBuffer d.io s.context
    cases hresult : (serializing.run c item ⟨d.txBuffer, 0⟩ d.io s.context).result with
    | error failure =>
      rw [BincodeDatagram.store_of_error hresult]
      exact .rejects hnone (hlength.trans (congrArg List.length htx)) hsent
    | ok _ =>
      have hwritten := serializing.written_run c item d.txBuffer d.io s.context hresult
      have hok := hresult
      rw [htx] at hok
      generalize hrun : serializing.run c item ⟨d.txBuffer, 0⟩ d.io s.context = out
        at hresult hwritten hlength hle hsent
      obtain ⟨result, cursor, io, context⟩ := out
      obtain rfl : result = .ok () := hresult
      rw [BincodeDatagram.store_of_ok hrun]
      exact .stores hok rfl (Nat.le_trans hle (Nat.le_of_eq hlength.symm))
        (hwritten.trans (by rw [htx])) (hlength.trans (congrArg List.length htx)) hsent
  · rcases r with e | ⟨_ | _⟩
    · exact .waits (.inr ⟨_, rfl⟩) hsame htx htaken
    · exact absurd rfl hr
    · exact .waits (.inl rfl) hsame htx htaken

/-- The buffer keeps its length, and the pending length stays inside. -/
theorem sized_next {s : State S K} {size : Nat} (hs : s.channel.Sized size) (a : Act T A C) :
    (next eagain serializing s a).channel.Sized size := by
  cases a with
  | startSend item a c =>
    refine hs.startSend eagain (sending.write a) ?_
    intro buffer io
    exact ⟨serializing.position_le c item buffer io s.context,
      serializing.length_run c item buffer io s.context⟩
  | pollComplete a => exact hs.pollComplete eagain (sending.write a)

theorem bounded_next {s : State S K} (hs : s.channel.Bounded) (a : Act T A C) :
    (next eagain serializing s a).channel.Bounded :=
  (sized_next eagain serializing ⟨rfl, hs⟩ a).bounded

theorem length_next {s : State S K} (hs : s.channel.Bounded) (a : Act T A C) :
    (next eagain serializing s a).channel.txBuffer.length = s.channel.txBuffer.length :=
  (sized_next eagain serializing ⟨rfl, hs⟩ a).length

/-- An accepted item has been serialized without error. -/
theorem startSend_of_accepted {s : State S K} (hs : s.channel.Bounded) {a : Act T A C} {item : T}
    {bytes : List UInt8} (h : accepted eagain serializing s a = some (item, bytes)) :
    ∃ a' c io, a = .startSend item a' c ∧
      bytes = serializing.encoding c item s.channel.txBuffer.length ∧
      (serializing.run c item ⟨s.channel.txBuffer, 0⟩ io s.context).result = .ok () := by
  cases a with
  | startSend item' a c =>
    have hattempt := attempt_startSend eagain serializing s hs item' a c
    dsimp only [accepted] at h
    generalize startSend eagain serializing s item' a c = p at hattempt h
    obtain ⟨r, s'⟩ := p
    dsimp only at hattempt h
    cases hattempt with
    | waits hr _ _ _ => rcases hr with rfl | ⟨e, rfl⟩ <;> cases h
    | rejects _ _ _ => cases h
    | stores hok _ _ _ _ _ =>
      obtain ⟨rfl, rfl⟩ := Prod.mk.inj (Option.some.inj h)
      exact ⟨a, c, _, rfl, rfl, hok⟩
  | pollComplete a => cases h

/-- What a call adds to the datagrams taken or pending is the encoding of the item it accepts. -/
theorem next_ledger {s : State S K} (hs : s.channel.Bounded) (a : Act T A C) :
    sending.taken (next eagain serializing s a).channel.io
        ++ (next eagain serializing s a).channel.pending
      = sending.taken s.channel.io ++ s.channel.pending
        ++ (accepted eagain serializing s a).toList.map Prod.snd := by
  cases a with
  | startSend item a c =>
    have hattempt := attempt_startSend eagain serializing s hs item a c
    dsimp only [next, accepted]
    generalize startSend eagain serializing s item a c = p at hattempt
    obtain ⟨r, s'⟩ := p
    dsimp only at hattempt ⊢
    unfold BincodeDatagram.pending
    cases hattempt with
    | waits hr hsame htx htaken =>
      rw [hsame, htx, htaken]
      rcases hr with rfl | ⟨e, rfl⟩ <;> simp
    | rejects hnone _ htaken =>
      rw [hnone, htaken]
      simp [BincodeDatagram.pending]
    | stores _ hsome _ hbytes _ htaken =>
      rw [hsome, htaken]
      simp [BincodeDatagram.pending, hbytes]
  | pollComplete a =>
    have htx := s.channel.txBuffer_pollComplete eagain (sending.write a)
    dsimp only [next, accepted, pollComplete]
    unfold BincodeDatagram.pending
    rw [htx]
    rcases s.channel.pollComplete_sending sending eagain hs a with
      ⟨-, hnone, htaken⟩ | ⟨-, hsame, htaken⟩
    · rw [hnone, htaken]
      simp [BincodeDatagram.pending]
    · rw [hsame, htaken]
      simp

variable {eagain serializing}

theorem bounded_of_run {base : List (List UInt8)} {h : List (State S K × Act T A C)}
    {s : State S K} (hr : Run (system eagain serializing base) h s) : s.channel.Bounded := by
  refine hr.invariant_of (fun _ => True) (fun s => s.channel.Bounded) ?_ ?_ fun _ _ => trivial
  · rintro s ⟨hnone, -⟩ n hn
    exact absurd (hnone.symm.trans hn) nofun
  · intro s a s' hs _ hstep
    obtain rfl := Option.some.inj hstep
    exact bounded_next eagain serializing hs a

theorem acceptedIn_snoc (h : List (State S K × Act T A C)) (s : State S K) (a : Act T A C) :
    acceptedIn eagain serializing (h ++ [(s, a)])
      = acceptedIn eagain serializing h ++ (accepted eagain serializing s a).toList := by
  unfold acceptedIn
  cases hacc : accepted eagain serializing s a <;> simp [hacc]

theorem ledger_of_run {base : List (List UInt8)} {h : List (State S K × Act T A C)}
    {s : State S K} (hr : Run (system eagain serializing base) h s) :
    base ++ (acceptedIn eagain serializing h).map Prod.snd
      = sending.taken s.channel.io ++ s.channel.pending := by
  refine hr.history (fun _ => True) (fun h s => base ++ (acceptedIn eagain serializing h).map
    Prod.snd = sending.taken s.channel.io ++ s.channel.pending) ?_ ?_ fun _ _ => trivial
  · rintro s ⟨hnone, htaken⟩
    unfold BincodeDatagram.pending
    rw [hnone, htaken]
    rfl
  · intro h s a s' hr _ ih _ hstep
    obtain rfl := Option.some.inj hstep
    rw [next_ledger eagain serializing (bounded_of_run hr) a, ← ih, acceptedIn_snoc,
      List.map_append, List.append_assoc]

/--
After every sequence of calls, and whatever the transport answers: the datagrams taken are the
encodings of the items accepted, in their order, except that the last may be pending in the buffer.
-/
theorem sends_in_order {base : List (List UInt8)} {h : List (State S K × Act T A C)}
    {s : State S K} (hr : Run (system eagain serializing base) h s) :
    SendsInOrder eagain serializing base h s where
  ledger := ledger_of_run hr
  notReady := by
    rintro pre ⟨s₁, a'⟩ post rfl item a c item' rfl hnotReady
    obtain ⟨hpre, -⟩ := hr.split
    have hattempt := attempt_startSend eagain serializing s₁ (bounded_of_run hpre) item a c
    dsimp only [next] at hnotReady ⊢
    generalize startSend eagain serializing s₁ item a c = p at hattempt hnotReady ⊢
    obtain ⟨r, s'⟩ := p
    obtain rfl : r = .ok (.notReady item') := hnotReady
    dsimp only at hattempt ⊢
    cases hattempt with
    | waits hr hsame htx _ =>
      rcases hr with heq | ⟨e, heq⟩
      · refine ⟨?_, hsame, ?_⟩
        · injection heq with heq
          injection heq
        · unfold BincodeDatagram.pending
          rw [hsame, htx]
      · cases heq
  flushed := by
    rintro pre ⟨s₁, a'⟩ post rfl a rfl hready
    obtain ⟨hpre, s₂, hstep, hpost⟩ := hr.split
    obtain rfl : next eagain serializing s₁ (.pollComplete a) = s₂ := Option.some.inj hstep
    have hledger := ledger_of_run hpost
    rcases s₁.channel.pollComplete_sending sending eagain (bounded_of_run hpre) a with
      ⟨-, hnone, -⟩ | ⟨hne, -, -⟩
    · refine ⟨hnone, hledger.trans ?_⟩
      have hpending : (next eagain serializing s₁ (.pollComplete a)).channel.pending = [] := by
        unfold BincodeDatagram.pending
        rw [show (next eagain serializing s₁ (.pollComplete a)).channel.bufferedSend = none
          from hnone]
      rw [hpending, List.append_nil]
    · exact absurd hready hne

/-- Two items with a blocked attempt in between: one is taken, the other pending. -/
theorem sends_in_order_two : ∃ h s,
    Run (system 11 (noopWrapper mailbox id) []) h s ∧
    s.channel.io = [[1, 2]] ∧ s.channel.pending = [[3]] ∧
    SendsInOrder 11 (noopWrapper mailbox id) [] h s := by
  have hr : Run (system 11 (noopWrapper mailbox id) []) _ _ :=
    Run.of_replay (s := ⟨.wrap [] 2, ()⟩)
      [.startSend [1, 2] true (), .startSend [3] false (), .startSend [3] true ()] ⟨rfl, rfl⟩ rfl
  exact ⟨_, _, hr, rfl, rfl, sends_in_order hr⟩

end Sink

end SandboxIpc
