import SandboxIpc.Infra.Wire
import SandboxIpc.Ser.Delivery

/-!
# Both ends of a channel, both ways

Each end is one `BincodeDatagram`, a sink and a stream over one transport. The calls at the two ends
come in any order, and every end may send, receive and be closed. Seen from the users of the ends,
the channel is two wires that know nothing of each other.

The wire `e` leads from the end `e` to the end `!e`.

* `Reading`, `Decoding` — what the two directions share is left alone
* `Duplex.step` — a call at one of the ends
* `Duplex.Carried` — what a wire has is what the ends and the transport have
* `Duplex.refines_wires` — the refinement
-/

namespace SandboxIpc

open Infra

/-- A transport that is also written to: reading takes nothing from what has been sent. -/
structure Reading {S A : Type} (sending : Sending S A) (B : Type) extends Receiving S B where
  taken_read : ∀ b length io, sending.taken (read b length io).2 = sending.taken io

/-- A deserialization on an end that also sends. -/
structure Decoding {S A T K C : Type} {sending : Sending S A}
    (serializing : Serializing sending T K C) (D : Type) extends
    Deserializing serializing S K D where
  taken_run : ∀ d bytes io k, sending.taken (run d bytes io k).io = sending.taken io

/-- The calls of the sink leave the buffer of the stream alone. -/
theorem Sink.rxBuffer_next {S A T K C : Type} (eagain : Int) {sending : Sending S A}
    (serializing : Serializing sending T K C) (s : Sink.State S K) (a : Sink.Act T A C) :
    (Sink.next eagain serializing s a).channel.rxBuffer = s.channel.rxBuffer := by
  have hflush : ∀ a, (s.channel.pollComplete eagain (sending.write a)).2.rxBuffer
      = s.channel.rxBuffer := fun a => by
    rcases s.channel.pollComplete_cases with ⟨-, heq⟩ | ⟨n, -, ⟨r, -, heq⟩ | ⟨-, heq⟩⟩
    all_goals rw [heq]
  cases a with
  | pollComplete a => exact hflush a
  | startSend item a c =>
    dsimp only [Sink.next, Sink.startSend]
    rcases s.channel.startSend_cases (serializing.run c) item s.context with
      ⟨r, -, heq⟩ | ⟨-, heq⟩
    · rw [heq]
      exact hflush a
    · rw [heq]
      refine Eq.trans ?_ (hflush a)
      unfold BincodeDatagram.store
      dsimp only
      split <;> rfl

/-- `poll_complete` is `Ready` if the transport takes all it is given. -/
theorem BincodeDatagram.ready_of_taken {S : Type} {eagain : Int}
    {write : List UInt8 → S → Except IoError Nat × S} {d : BincodeDatagram S} (hd : d.Bounded)
    (h : ∀ bytes io, (write bytes io).1 = .ok bytes.length) :
    (d.pollComplete eagain write).1 = .ok (.ready ()) := by
  unfold BincodeDatagram.pollComplete
  cases hb : d.bufferedSend with
  | none => rfl
  | some n =>
    have hwrite := h (d.txBuffer.take n) d.io
    rw [List.length_take, Nat.min_eq_left (hd n hb)] at hwrite
    dsimp only
    generalize write (d.txBuffer.take n) d.io = p at hwrite
    obtain ⟨r, io⟩ := p
    obtain rfl : r = .ok n := hwrite
    exact congrArg Prod.fst (if_pos rfl)

namespace Duplex

variable {S A K C B D : Type} {T : Bool → Type} (eagain : Int) {sending : Sending S A}
  {serializing : ∀ e, Serializing sending (T e) K C} (reading : Reading sending B)
  (decoding : ∀ e, Decoding (serializing e) D)

/-- One end of the channel. -/
structure End (S K : Type) where
  channel : BincodeDatagram S
  context : K
  closed : Bool
  /-- Not in the source: the number of datagrams of the other end that this end has read. -/
  arrived : Nat

abbrev State (S K : Type) := Bool → End S K

/-- A call that has to do with one wire: at its near end, or a poll at its far end. -/
inductive Act (T A C B D : Type)
  | send (a : Sink.Act T A C)
  | close
  | poll (b : B) (d : D)

/-- The sink of an end. -/
def End.sink (x : End S K) : Sink.State S K := ⟨x.channel, x.context⟩

/-- A call of the sink leaves this of the end. -/
def End.withSink (x : End S K) (s : Sink.State S K) : End S K :=
  { x with channel := s.channel, context := s.context }

/-- A wire by itself: what is sent at `near` is delivered at `far`. -/
def oneWay (near far : End S K) : Delivery.State S K S K :=
  ⟨near.sink, far.channel, far.context, near.closed, far.arrived⟩

/-- `poll` at the end `far` of the wire `e`. -/
def poll (e : Bool) (near far : End S K) (b : B) (d : D) : Outcome (Async (Option (T e))) × End S K :=
  let (result, s) := Delivery.poll eagain reading.toReceiving (decoding e).toDeserializing
    (oneWay near far) b d
  (result, { far with channel := s.receiver, context := s.context })

/-- The number of datagrams `far` has read after this answer, if the transport can give it. -/
def arrive (near far : End S K) (b : B) : Option Nat :=
  Delivery.arrive reading.toReceiving sending [] (oneWay near far) b

/-- A closed end makes no more calls. -/
def step (s : State S K) : (Σ e, Act (T e) A C B D) → Option (State S K)
  | ⟨e, .send a⟩ =>
    if (s e).closed then none
    else some (Function.update s e ((s e).withSink
      (Sink.next eagain (serializing e) (s e).sink a)))
  | ⟨e, .close⟩ =>
    if (s e).closed then none else some (Function.update s e { s e with closed := true })
  | ⟨e, .poll b d⟩ =>
    if (s !e).closed then none
    else (arrive reading (s e) (s !e) b).map fun arrived =>
      Function.update s (!e) { (poll eagain reading decoding e (s e) (s !e) b d).2 with arrived }

/-- Two ends that have been wrapped for messages of up to `size` bytes. What was sent before is not
for them. -/
def system (size : Nat) : System (State S K) (Σ e, Act (T e) A C B D) where
  init s := ∀ e, (s e).channel.bufferedSend = none ∧ (s e).channel.txBuffer.length = size ∧
    (s e).channel.rxBuffer.length = size ∧ (s e).closed = false ∧
    (s !e).arrived = (sending.taken (s e).channel.io).length
  step := step eagain reading decoding

/-- What the users see of a call. -/
def seen (e : State S K × Σ e, Act (T e) A C B D) : Option (Σ e, Wire.Event (T e)) :=
  match e with
  | (s, ⟨e, .send a⟩) =>
    match a with
    | .startSend item a c =>
      (Sink.accepted eagain (serializing e) (s e).sink (.startSend item a c)).map fun x =>
        ⟨e, .accepted x.1⟩
    | .pollComplete a =>
      match (Sink.pollComplete eagain sending (s e).sink a).1 with
      | .ok (.ready ()) => some ⟨e, .flushed⟩
      | _ => none
  | (_, ⟨e, .close⟩) => some ⟨e, .closed⟩
  | (s, ⟨e, .poll b d⟩) =>
    match (poll eagain reading decoding e (s e) (s !e) b d).1 with
    | .ok (.ready (some item)) => some ⟨e, .delivered item⟩
    | .ok (.ready none) => some ⟨e, .finished⟩
    | _ => none

/-! ## What the wires have -/

/-- The wire `e` has the items in `line` and `place`, whose datagrams are these: those in `line` have
been taken by the transport and not been read, the one in `place` is pending. -/
structure Carried (size : Nat) (e : Bool) (near far : End S K) (w : Wire (T e))
    (line : List (T e × List UInt8)) (place : Option (T e × List UInt8)) : Prop where
  sized : near.channel.Sized size
  rx : far.channel.rxBuffer.length = size
  arrived_le : far.arrived ≤ (sending.taken near.channel.io).length
  taken : (sending.taken near.channel.io).drop far.arrived = line.map Prod.snd
  pending : near.channel.pending = (place.map Prod.snd).toList
  readable : ∀ x ∈ line ++ place.toList, x.2 ≠ [] ∧ x.2.length ≤ size ∧
    ∀ d io k, ((decoding e).run d x.2 io k).result = .ok x.1
  wire : w = { place := if near.closed then none else place.map Prod.fst
               line := line.map Prod.fst
               closed := near.closed }

/-- The wires are those of the two ends. -/
def Linked (size : Nat) (s : State S K) (ws : Wires T) : Prop :=
  ∀ e, ∃ line place, Carried decoding size e (s e) (s !e) (ws e) line place

variable {eagain reading decoding} {size : Nat} {e : Bool} {s : State S K} {ws : Wires T}
  {near far near' far' : End S K} {w : Wire (T e)} {line : List (T e × List UInt8)}
  {place : Option (T e × List UInt8)}

theorem Carried.of_far (h : Carried decoding size e near far w line place)
    (hrx : far'.channel.rxBuffer.length = far.channel.rxBuffer.length)
    (harrived : far'.arrived = far.arrived) : Carried decoding size e near far' w line place :=
  ⟨h.sized, hrx.trans h.rx, harrived ▸ h.arrived_le, harrived ▸ h.taken, h.pending, h.readable,
    h.wire⟩

theorem Carried.of_near (h : Carried decoding size e near far w line place)
    (htx : near'.channel.txBuffer = near.channel.txBuffer)
    (hbuffered : near'.channel.bufferedSend = near.channel.bufferedSend)
    (htaken : sending.taken near'.channel.io = sending.taken near.channel.io)
    (hclosed : near'.closed = near.closed) : Carried decoding size e near' far w line place where
  sized := ⟨by rw [htx, h.sized.length], fun n hn => by
    rw [htx]
    exact h.sized.bounded n (hbuffered ▸ hn)⟩
  rx := h.rx
  arrived_le := by rw [htaken]; exact h.arrived_le
  taken := by rw [htaken]; exact h.taken
  pending := by
    rw [← h.pending]
    unfold BincodeDatagram.pending
    rw [hbuffered, htx]
  readable := h.readable
  wire := by rw [hclosed]; exact h.wire

/-- The near end of a wire moves, and keeps what it has as the far end of the other wire. -/
theorem Linked.updateNear (h : Linked decoding size s ws) {x : End S K}
    (hown : ∃ line place, Carried decoding size e x (s !e) w line place)
    (hrx : x.channel.rxBuffer.length = (s e).channel.rxBuffer.length)
    (harrived : x.arrived = (s e).arrived) :
    Linked decoding size (Function.update s e x) (Function.update ws e w) := by
  intro e'
  by_cases he : e' = e
  · subst he
    rw [Function.update_self, Function.update_self, Function.update_of_ne (by simp)]
    exact hown
  · obtain rfl : e' = !e := Bool.eq_not.mpr he
    rw [Function.update_of_ne he, Function.update_of_ne he, Bool.not_not, Function.update_self]
    obtain ⟨line, place, hc⟩ := h !e
    rw [Bool.not_not] at hc
    exact ⟨line, place, hc.of_far hrx harrived⟩

/-- The far end of a wire moves, and keeps what it has as the near end of the other wire. -/
theorem Linked.updateFar (h : Linked decoding size s ws) {x : End S K}
    (hown : ∃ line place, Carried decoding size e (s e) x w line place)
    (htx : x.channel.txBuffer = (s !e).channel.txBuffer)
    (hbuffered : x.channel.bufferedSend = (s !e).channel.bufferedSend)
    (htaken : sending.taken x.channel.io = sending.taken (s !e).channel.io)
    (hclosed : x.closed = (s !e).closed) :
    Linked decoding size (Function.update s (!e) x) (Function.update ws e w) := by
  intro e'
  by_cases he : e' = e
  · subst he
    rw [Function.update_self, Function.update_self, Function.update_of_ne (by simp)]
    exact hown
  · obtain rfl : e' = !e := Bool.eq_not.mpr he
    rw [Function.update_self, Function.update_of_ne he, Function.update_of_ne (by simp)]
    obtain ⟨line, place, hc⟩ := h !e
    exact ⟨line, place, hc.of_near htx hbuffered htaken hclosed⟩

/-! ## Calls of the sink -/

/-- What was pending has been taken by the transport, and `place'` is pending now. -/
theorem Carried.forwarded (h : Carried decoding size e near far w line place)
    {place' : Option (T e × List UInt8)} (hopen : near'.closed = false)
    (hsized : near'.channel.Sized size)
    (hpending : near'.channel.pending = (place'.map Prod.snd).toList)
    (htaken : sending.taken near'.channel.io
      = sending.taken near.channel.io ++ near.channel.pending)
    (hreadable : ∀ x ∈ place'.toList, x.2 ≠ [] ∧ x.2.length ≤ size ∧
      ∀ d io k, ((decoding e).run d x.2 io k).result = .ok x.1) :
    Carried decoding size e near' far
      { place := place'.map Prod.fst, line := (line ++ place.toList).map Prod.fst, closed := false }
      (line ++ place.toList) place' where
  sized := hsized
  rx := h.rx
  arrived_le := by
    rw [htaken, List.length_append]
    exact Nat.le_add_right_of_le h.arrived_le
  taken := by
    rw [htaken, List.drop_append_of_le_length h.arrived_le, h.taken, h.pending, List.map_append]
    cases place <;> rfl
  pending := hpending
  readable x hx := by
    rcases List.mem_append.mp hx with hx | hx
    · exact h.readable x hx
    · exact hreadable x hx
  wire := by rw [hopen]; rfl

/-- The wire forwards what is in its place, if anything is. -/
theorem Carried.goes_forwarded (h : Carried decoding size e near far (ws e) line place)
    (hopen : near.closed = false) :
    (Wires.system T).Goes Wires.see ws [] (Function.update ws e
      { place := none, line := (line ++ place.toList).map Prod.fst, closed := false }) := by
  have hw := h.wire
  rw [hopen] at hw
  rw [List.map_append]
  cases place with
  | none =>
    rw [Option.toList_none, List.map_nil, List.append_nil]
    have hsame : ws e = { place := none, line := line.map Prod.fst, closed := false } := hw
    rw [← hsame, Function.update_eq_self]
    exact .refl _
  | some x =>
    have hstep : (ws e).step .forward = some
        { place := none, line := line.map Prod.fst ++ [x.1], closed := false } := by
      rw [hw]
      rfl
    have hgoes := Wires.goes_update ws hstep
    rw [Function.update_eq_self] at hgoes
    exact hgoes

/-- The wires match a call at which this is seen and which leads to `s'`. -/
def Matched (decoding : ∀ e, Decoding (serializing e) D) (size : Nat) (ws : Wires T)
    (seen : Option (Σ e, Wire.Event (T e))) (s' : State S K) : Prop :=
  ∃ ws', (Wires.system T).Goes Wires.see ws seen.toList ws' ∧ Linked decoding size s' ws'

/-- Nothing happens to the datagrams. -/
theorem Linked.idle (h : Linked decoding size s ws) {x : End S K}
    (htx : x.channel.txBuffer = (s e).channel.txBuffer)
    (hbuffered : x.channel.bufferedSend = (s e).channel.bufferedSend)
    (htaken : sending.taken x.channel.io = sending.taken (s e).channel.io)
    (hclosed : x.closed = (s e).closed)
    (hrx : x.channel.rxBuffer.length = (s e).channel.rxBuffer.length)
    (harrived : x.arrived = (s e).arrived) :
    Matched decoding size ws none (Function.update s e x) := by
  obtain ⟨line, place, hc⟩ := h e
  have hlinked := h.updateNear (w := ws e)
    ⟨line, place, hc.of_near htx hbuffered htaken hclosed⟩ hrx harrived
  rw [Function.update_eq_self] at hlinked
  exact ⟨ws, .refl _, hlinked⟩

/-- What was pending goes on its way, and the wire does `o` after that. -/
theorem Linked.forwards (h : Linked decoding size s ws) {x : End S K}
    (place' : Option (T e × List UInt8)) (o : Option (Wire.Op (T e))) (seen : Option (Wire.Event (T e)))
    (hopen : (s e).closed = false) (hclosed : x.closed = false) (hsized : x.channel.Sized size)
    (hpending : x.channel.pending = (place'.map Prod.snd).toList)
    (htaken : sending.taken x.channel.io
      = sending.taken (s e).channel.io ++ (s e).channel.pending)
    (hreadable : ∀ x ∈ place'.toList, x.2 ≠ [] ∧ x.2.length ≤ size ∧
      ∀ d io k, ((decoding e).run d x.2 io k).result = .ok x.1)
    (hrx : x.channel.rxBuffer.length = (s e).channel.rxBuffer.length)
    (harrived : x.arrived = (s e).arrived)
    (hop : ∀ line : List (T e), match o with
      | none => place'.map Prod.fst = none ∧ seen = none
      | some o => Wire.step { place := none, line, closed := false } o
          = some { place := place'.map Prod.fst, line, closed := false } ∧
        Wire.see { place := none, line, closed := false } o = seen) :
    Matched decoding size ws (seen.map (Sigma.mk e)) (Function.update s e x) := by
  obtain ⟨line, place, hc⟩ := h e
  refine ⟨_, ?_, h.updateNear ⟨_, _, hc.forwarded hclosed hsized hpending htaken hreadable⟩ hrx
    harrived⟩
  have hforward := hc.goes_forwarded hopen
  have hdone := hop ((line ++ place.toList).map Prod.fst)
  cases o with
  | none =>
    obtain ⟨hnone, rfl⟩ := hdone
    rw [hnone]
    exact hforward
  | some o =>
    obtain ⟨hstep, rfl⟩ := hdone
    exact hforward.trans (Wires.goes_update ws hstep)

variable (eagain reading) in
theorem Linked.pollComplete (h : Linked decoding size s ws) (hopen : (s e).closed = false) (a : A) :
    Matched decoding size ws (seen eagain reading decoding
        (s, (⟨e, .send (.pollComplete a)⟩ : Σ e, Act (T e) A C B D)))
      (Function.update s e ((s e).withSink
        (Sink.next eagain (serializing e) (s e).sink (.pollComplete a)))) := by
  obtain ⟨line, place, hc⟩ := h e
  have hrx := congrArg List.length
    (Sink.rxBuffer_next eagain (serializing e) (s e).sink (.pollComplete a))
  have hsized := Sink.sized_next eagain (serializing e) (s := (s e).sink) hc.sized (.pollComplete a)
  have htx := (s e).channel.txBuffer_pollComplete eagain (sending.write a)
  rcases (s e).channel.pollComplete_sending sending eagain hc.sized.bounded a with
    ⟨hready, hnone, htaken⟩ | ⟨hnot, hsame, htaken⟩
  · have hseen : seen eagain reading decoding
        (s, (⟨e, .send (.pollComplete a)⟩ : Σ e, Act (T e) A C B D)) = some ⟨e, .flushed⟩ := by
      simp only [seen, Sink.pollComplete, End.sink, hready]
    rw [hseen]
    refine h.forwards none (some .flush) (some .flushed) hopen hopen hsized ?_ htaken nofun hrx rfl fun line => ⟨rfl, rfl⟩
    show (Sink.next eagain (serializing e) (s e).sink (.pollComplete a)).channel.pending = []
    unfold BincodeDatagram.pending
    rw [show (Sink.next eagain (serializing e) (s e).sink (.pollComplete a)).channel.bufferedSend
      = none from hnone]
  · have hseen : seen eagain reading decoding
        (s, (⟨e, .send (.pollComplete a)⟩ : Σ e, Act (T e) A C B D)) = none := by
      simp only [seen, Sink.pollComplete, End.sink]
    rw [hseen]
    exact h.idle htx hsame htaken rfl hrx rfl

/-- The item is serialized to something, if it is accepted. -/
def WritesBytes (eagain : Int) (serializing : ∀ e, Serializing sending (T e) K C)
    (x : State S K × Σ e, Act (T e) A C B D) : Prop :=
  ∀ e item a c, x.2 = ⟨e, .send (.startSend item a c)⟩ →
    (Sink.accepted eagain (serializing e) (x.1 e).sink (.startSend item a c)).isSome →
    (serializing e).encoding c item (x.1 e).channel.txBuffer.length ≠ []

variable (eagain reading) in
theorem Linked.startSend (h : Linked decoding size s ws) (hopen : (s e).closed = false) (item : T e)
    (a : A) (c : C)
    (hwrites : (Sink.accepted eagain (serializing e) (s e).sink (.startSend item a c)).isSome →
      (serializing e).encoding c item (s e).channel.txBuffer.length ≠ []) :
    Matched decoding size ws (seen eagain reading decoding
        (s, (⟨e, .send (.startSend item a c)⟩ : Σ e, Act (T e) A C B D)))
      (Function.update s e ((s e).withSink
        (Sink.next eagain (serializing e) (s e).sink (.startSend item a c)))) := by
  obtain ⟨line, place, hc⟩ := h e
  have hbounded : (s e).sink.channel.Bounded := hc.sized.bounded
  have hrx := congrArg List.length
    (Sink.rxBuffer_next eagain (serializing e) (s e).sink (.startSend item a c))
  have hsized := Sink.sized_next eagain (serializing e) (s := (s e).sink) hc.sized
    (.startSend item a c)
  have hattempt := Sink.attempt_startSend eagain (serializing e) (s e).sink hbounded item a c
  simp only [seen, Sink.accepted]
  dsimp only [Sink.accepted] at hwrites
  dsimp only [Sink.next] at hrx hsized ⊢
  generalize Sink.startSend eagain (serializing e) (s e).sink item a c = p
    at hattempt hrx hsized hwrites
  obtain ⟨r, s'⟩ := p
  dsimp only at hattempt hrx hsized hwrites ⊢
  cases hattempt with
  | waits hr hsame htx htaken =>
    have hidle := h.idle (x := (s e).withSink s') htx hsame htaken rfl hrx rfl
    rcases hr with rfl | ⟨_, rfl⟩ <;> exact hidle
  | rejects hnone _ htaken =>
    refine h.forwards (x := (s e).withSink s') none none none hopen hopen hsized ?_ htaken nofun hrx
      rfl fun line => ⟨rfl, rfl⟩
    show s'.channel.pending = []
    unfold BincodeDatagram.pending
    rw [hnone]
  | stores hok hsome _ hbytes _ htaken =>
    refine h.forwards (x := (s e).withSink s')
      (some (item, (serializing e).encoding c item (s e).channel.txBuffer.length))
      (some (.accept item)) (some (.accepted item)) hopen hopen hsized ?_ htaken ?_ hrx rfl
      fun line => ⟨rfl, rfl⟩
    · show s'.channel.pending = _
      unfold BincodeDatagram.pending
      rw [hsome]
      exact congrArg (fun x => [x]) hbytes
    · rintro x hx
      obtain rfl := List.mem_singleton.mp hx
      refine ⟨hwrites rfl, ?_, fun d io k => (decoding e).inverts hok d io k⟩
      rw [show (item, (serializing e).encoding c item (s e).channel.txBuffer.length).2
        = s'.channel.txBuffer.take _ from hbytes.symm, List.length_take, hsized.length]
      exact Nat.min_le_right _ _

/-! ## Polls -/

variable (eagain reading decoding) in
/-- A poll leaves what an end sends alone. -/
theorem poll_frame (e : Bool) (near far : End S K) (b : B) (d : D) :
    let x := (poll eagain reading decoding e near far b d).2
    x.channel.txBuffer = far.channel.txBuffer ∧ x.channel.bufferedSend = far.channel.bufferedSend ∧
      sending.taken x.channel.io = sending.taken far.channel.io ∧ x.closed = far.closed ∧
      x.channel.rxBuffer.length = far.channel.rxBuffer.length := by
  have hlength : (Delivery.poll eagain reading.toReceiving (decoding e).toDeserializing
      (oneWay near far) b d).2.receiver.rxBuffer.length = far.channel.rxBuffer.length :=
    Delivery.length_poll ..
  dsimp only [poll, Delivery.poll, oneWay] at hlength ⊢
  have htaken := reading.taken_read b far.channel.rxBuffer.length far.channel.io
  rcases far.channel.poll_cases eagain (reading.read b) ((decoding e).run d) far.context with
    ⟨-, r, rxBuffer, heq⟩ | ⟨r, rxBuffer, message, -, -, heq⟩
  · rw [heq] at hlength ⊢
    exact ⟨rfl, rfl, htaken, rfl, hlength⟩
  · rw [heq] at hlength ⊢
    exact ⟨rfl, rfl, ((decoding e).taken_run d message _ far.context).trans htaken, rfl, hlength⟩

/-- The end of the stream is read after everything else. -/
theorem length_of_end {b : B} {bytes : List UInt8} (hb : reading.datagram b = some bytes)
    (h : arrive reading near far b = some far.arrived) :
    (sending.taken near.channel.io).length = far.arrived := by
  unfold arrive Delivery.arrive oneWay at h
  rw [hb] at h
  dsimp only at h
  split at h
  · exact absurd (Option.some.inj h) (Nat.succ_ne_self _)
  · split at h
    · next hend => simpa [End.sink] using hend.2.1
    · cases h

/-- The next datagram is that of the first item on the line. -/
theorem Carried.next_item (h : Carried decoding size e near far w line place) {bytes : List UInt8}
    (hnext : (sending.taken near.channel.io)[far.arrived]? = some bytes) :
    ∃ item rest, line = (item, bytes) :: rest := by
  have hhead : (line.map Prod.snd)[0]? = some bytes := by
    rw [← h.taken, List.getElem?_drop, Nat.add_zero]
    exact hnext
  cases line with
  | nil => cases hhead
  | cons x rest =>
    obtain ⟨item, bytes'⟩ := x
    obtain rfl : bytes' = bytes := Option.some.inj hhead
    exact ⟨item, rest, rfl⟩

/-- One datagram more has been read. -/
theorem Carried.delivered {x : T e × List UInt8}
    (h : Carried decoding size e near far w (x :: line) place)
    (hrx : far'.channel.rxBuffer.length = far.channel.rxBuffer.length)
    (harrived : far'.arrived = far.arrived + 1) :
    Carried decoding size e near far' { w with line := line.map Prod.fst } line place where
  sized := h.sized
  rx := hrx.trans h.rx
  arrived_le := by
    have hlength := congrArg List.length h.taken
    rw [List.length_drop, List.length_map, List.length_cons] at hlength
    omega
  taken := by
    rw [harrived, ← List.drop_drop, h.taken]
    rfl
  pending := h.pending
  readable y hy := h.readable y (by
    rw [List.cons_append]
    exact .tail _ hy)
  wire := by rw [h.wire]

variable (eagain reading) in
theorem Linked.poll (h : Linked decoding size s ws) {b : B} {d : D} {arrived : Nat}
    (harrive : arrive reading (s e) (s !e) b = some arrived) :
    Matched decoding size ws (seen eagain reading decoding
        (s, (⟨e, .poll b d⟩ : Σ e, Act (T e) A C B D)))
      (Function.update s (!e)
        { (Duplex.poll eagain reading decoding e (s e) (s !e) b d).2 with arrived }) := by
  obtain ⟨line, place, hc⟩ := h e
  obtain ⟨htx, hbuffered, htaken, hclosed, hrx⟩ :=
    poll_frame eagain reading decoding e (s e) (s !e) b d
  have hresult : (Duplex.poll eagain reading decoding e (s e) (s !e) b d).1
      = ((s !e).channel.poll eagain (reading.read b) ((decoding e).run d) (s !e).context).1 := rfl
  simp only [seen]
  rw [hresult]
  generalize (Duplex.poll eagain reading decoding e (s e) (s !e) b d).2 = x
    at htx hbuffered htaken hclosed hrx ⊢
  have hread := fun {bytes} (hb : reading.datagram b = some bytes) =>
    reading.read_datagram hb (s !e).channel.rxBuffer.length (s !e).channel.io
  rcases Delivery.arrive_cases harrive with ⟨hb, heq⟩ | ⟨bytes, hb, heq, hnext⟩ | ⟨hb, heq, hend⟩
  · -- nothing is read
    obtain ⟨err, herr⟩ := reading.read_nothing hb (s !e).channel.rxBuffer.length (s !e).channel.io
    have hno : ∀ r, ((s !e).channel.poll eagain (reading.read b) ((decoding e).run d)
        (s !e).context).1 ≠ .ok (.ready r) := BincodeDatagram.poll_of_error eagain herr
    have hlinked := h.updateFar (x := { x with arrived }) (w := ws e)
      ⟨line, place, hc.of_far hrx heq⟩ htx hbuffered htaken hclosed
    rw [Function.update_eq_self] at hlinked
    refine ⟨ws, ?_, hlinked⟩
    split
    · next item hready => exact absurd hready (hno _)
    · next hready => exact absurd hready (hno _)
    · exact .refl _
  · rw [List.length_nil, Nat.zero_add] at hnext
    obtain ⟨item, rest, rfl⟩ := hc.next_item hnext
    obtain ⟨hne, hlength, hok⟩ := hc.readable (item, bytes) (.head _)
    have hmessage := hread hb
    rw [hc.rx, List.take_of_length_le hlength, ← hc.rx] at hmessage
    rw [BincodeDatagram.poll_of_message eagain hmessage hne (hok d _ _)]
    refine ⟨_, ?_, h.updateFar (x := { x with arrived }) ⟨rest, place, hc.delivered hrx heq⟩ htx
      hbuffered htaken hclosed⟩
    have hline : (ws e).line = item :: rest.map Prod.fst := by rw [hc.wire]; rfl
    have hstep : (ws e).step .deliver = some { ws e with line := rest.map Prod.fst } := by
      simp [Wire.step, hline]
    have hgoes := Wires.goes_update ws hstep
    rw [Function.update_eq_self] at hgoes
    simpa [Wire.see, hline] using hgoes
  · -- nothing is left on the line
    have hmessage := hread hb
    rw [List.take_nil] at hmessage
    rw [BincodeDatagram.poll_of_nil eagain hmessage]
    have hlength := length_of_end hb (heq ▸ harrive)
    have hnil : line = [] := by
      have htaken := congrArg List.length hc.taken
      rw [List.length_drop, List.length_map, hlength, Nat.sub_self] at htaken
      exact List.length_eq_zero_iff.mp htaken.symm
    have hlinked := h.updateFar (x := { x with arrived }) (w := ws e)
      ⟨line, place, hc.of_far hrx heq⟩ htx hbuffered htaken hclosed
    have hstep : (ws e).step .finish = some (ws e) := by
      simp [Wire.step, hc.wire, hnil, show (s e).closed = true from hend]
    have hgoes := Wires.goes_update ws hstep
    rw [Function.update_eq_self] at hlinked hgoes
    exact ⟨ws, hgoes, hlinked⟩

/-- An end is closed. What is in its place is lost. -/
theorem Linked.close (h : Linked decoding size s ws) (hopen : (s e).closed = false) :
    Matched decoding size ws (seen eagain reading decoding
        (s, (⟨e, .close⟩ : Σ e, Act (T e) A C B D)))
      (Function.update s e { s e with closed := true }) := by
  obtain ⟨line, place, hc⟩ := h e
  have hstep : (ws e).step .close
      = some { place := none, line := line.map Prod.fst, closed := true } := by
    simp [Wire.step, hc.wire, hopen]
  have hgoes := Wires.goes_update ws hstep
  rw [Function.update_eq_self] at hgoes
  exact ⟨_, hgoes, h.updateNear ⟨line, place, hc.sized, hc.rx, hc.arrived_le, hc.taken, hc.pending,
    hc.readable, rfl⟩ rfl rfl⟩

/-! ## All runs -/

theorem Linked.step (h : Linked decoding size s ws) {a : Σ e, Act (T e) A C B D} {s' : State S K}
    (hwrites : WritesBytes eagain serializing (s, a))
    (hs : step eagain reading decoding s a = some s') :
    Matched decoding size ws (seen eagain reading decoding (s, a)) s' := by
  obtain ⟨e, a⟩ := a
  cases a with
  | send a =>
    obtain ⟨hopen, rfl⟩ : (s e).closed = false ∧ _ = s' := by simpa [Duplex.step] using hs
    cases a with
    | startSend item a c => exact h.startSend eagain reading hopen item a c (hwrites e item a c rfl)
    | pollComplete a => exact h.pollComplete eagain reading hopen a
  | close =>
    obtain ⟨hopen, rfl⟩ : (s e).closed = false ∧ _ = s' := by simpa [Duplex.step] using hs
    exact h.close hopen
  | poll b d =>
    have hs' : ∃ arrived, arrive reading (s e) (s !e) b = some arrived ∧ Function.update s (!e)
        { (Duplex.poll eagain reading decoding e (s e) (s !e) b d).2 with arrived } = s' := by
      simp only [Duplex.step] at hs
      split at hs
      · cases hs
      · exact Option.map_eq_some_iff.mp hs
    obtain ⟨arrived, harrive, rfl⟩ := hs'
    exact h.poll eagain reading harrive

theorem linked_init (h : ∀ e, (s e).channel.bufferedSend = none ∧
      (s e).channel.txBuffer.length = size ∧ (s e).channel.rxBuffer.length = size ∧
      (s e).closed = false ∧ (s !e).arrived = (sending.taken (s e).channel.io).length) :
    Linked decoding size s fun _ => { place := none, line := [], closed := false } := by
  intro e
  obtain ⟨hnone, htx, -, hopen, harrived⟩ := h e
  refine ⟨[], none, ⟨htx, fun n hn => absurd (hnone.symm.trans hn) nofun⟩, (h !e).2.2.1,
    harrived.le, ?_, ?_, nofun, ?_⟩
  · rw [harrived, List.drop_length]
    rfl
  · unfold BincodeDatagram.pending
    rw [hnone]
    rfl
  · rw [hopen]
    rfl

section Runs

variable {h : List (State S K × Σ e, Act (T e) A C B D)}

theorem linked_of_run (hr : Run (system eagain reading decoding size) h s)
    (hwrites : ∀ x ∈ h, WritesBytes eagain serializing x) :
    ∃ k ws, Run (Wires.system T) k ws ∧ Linked decoding size s ws ∧
      trace Wires.see k = trace (seen eagain reading decoding) h :=
  hr.simulated (Wires.system T) (seen eagain reading decoding) Wires.see
    (WritesBytes eagain serializing) (Linked decoding size)
    (fun _ h0 => ⟨_, fun _ => rfl, linked_init h0⟩)
    (fun _ _ _ _ _ _ _ hlinked hw hs => hlinked.step hw hs) hwrites

/--
Both ways at once.

Whatever calls are made at the two ends and in which order, and whatever the transport answers: what
the users see is what they would see of two separate wires, as long as no item that is accepted is
serialized to zero bytes. So in each direction the items come out once and in their turn, only the last one can be
missing and only after its end was closed without a flush, and the end is seen after everything else.
-/
theorem refines_wires (hr : Run (system eagain reading decoding size) h s)
    (hwrites : ∀ x ∈ h, WritesBytes eagain serializing x) :
    ∃ k ws, Run (Wires.system T) k ws ∧ trace Wires.see k = trace (seen eagain reading decoding) h ∧
      ∀ e, Wire.Honest (Wires.onWire e (trace (seen eagain reading decoding) h)) (ws e) := by
  obtain ⟨k, ws, hk, -, htrace⟩ := linked_of_run hr hwrites
  exact ⟨k, ws, hk, htrace, fun e => htrace ▸ Wires.honest_of_run hk e⟩

/-! ## Nothing gets stuck -/

/-- A call that sends no new item on the wire `e`. -/
def Drains (e : Bool) (x : State S K × Σ e, Act (T e) A C B D) : Prop :=
  (∃ a, x.2 = ⟨e, .send (.pollComplete a)⟩) ∨ ∃ b d, x.2 = ⟨e, .poll b d⟩

theorem Drains.writesBytes {x : State S K × Σ e, Act (T e) A C B D} (h : Drains e x) :
    WritesBytes eagain serializing x := by
  intro e' item a c heq
  rcases h with ⟨a', ha⟩ | ⟨b, d, hb⟩
  · rw [ha] at heq
    cases heq
  · rw [hb] at heq
    cases heq

/-- A transport that takes what it is given and hands over what it has, if the system so answers. -/
structure Willing (reading : Reading sending B) : Prop where
  takes : ∃ a, ∀ bytes io, (sending.write a bytes io).1 = .ok bytes.length
  gives : ∀ bytes, ∃ b, reading.datagram b = some bytes

/-- Both ends are open, and nothing is pending at the end `e`. -/
structure Flushed (e : Bool) (s : State S K) : Prop where
  isOpen : ∀ e, (s e).closed = false
  pending : (s e).channel.pending = []

variable (eagain)

/-- `poll_complete` gets rid of what is pending. -/
theorem exists_flush (hw : Willing reading) (hlinked : Linked decoding size s ws)
    (hopen : ∀ e, (s e).closed = false) :
    ∃ a s', (system eagain reading decoding size).step s ⟨e, .send (.pollComplete a)⟩ = some s' ∧
      Flushed e s' ∧ ∃ ws', Linked decoding size s' ws' := by
  obtain ⟨a, ha⟩ := hw.takes
  obtain ⟨line, place, hc⟩ := hlinked e
  have hready : (Sink.next eagain (serializing e) (s e).sink (.pollComplete a)).channel.bufferedSend
      = none :=
    BincodeDatagram.bufferedSend_of_ready (BincodeDatagram.ready_of_taken hc.sized.bounded ha)
  have hs : (system eagain reading decoding size).step s ⟨e, .send (.pollComplete a)⟩ = some _ :=
    if_neg (by rw [hopen e]; nofun)
  obtain ⟨ws', -, hlinked'⟩ := hlinked.pollComplete eagain reading (hopen e) a
  refine ⟨a, _, hs, ⟨fun e' => ?_, ?_⟩, ws', hlinked'⟩
  · by_cases he : e' = e
    · subst he
      rw [Function.update_self]
      exact hopen e'
    · rw [Function.update_of_ne he]
      exact hopen e'
  · rw [Function.update_self]
    show (Sink.next eagain (serializing e) (s e).sink (.pollComplete a)).channel.pending = []
    unfold BincodeDatagram.pending
    rw [hready]

/-- A poll gets the next datagram. -/
theorem exists_poll (hw : Willing reading) (d : D) (hlinked : Linked decoding size s ws)
    (hflushed : Flushed e s)
    (hleft : (s !e).arrived < (sending.taken (s e).channel.io).length) :
    ∃ b s', (system eagain reading decoding size).step s ⟨e, .poll b d⟩ = some s' ∧ Flushed e s' ∧
      s' e = s e ∧ (s' !e).arrived = (s !e).arrived + 1 ∧ ∃ ws', Linked decoding size s' ws' := by
  obtain ⟨b, hb⟩ := hw.gives (sending.taken (s e).channel.io)[(s !e).arrived]
  have harrive : arrive reading (s e) (s !e) b = some ((s !e).arrived + 1) := by
    unfold arrive Delivery.arrive oneWay
    rw [hb]
    dsimp only
    rw [List.length_nil, Nat.zero_add]
    exact if_pos (List.getElem?_eq_getElem hleft)
  have hs : (system eagain reading decoding size).step s ⟨e, .poll b d⟩ = some (Function.update s
      (!e) { (Duplex.poll eagain reading decoding e (s e) (s !e) b d).2 with
        arrived := (s !e).arrived + 1 }) := by
    refine (if_neg (by rw [hflushed.isOpen]; nofun)).trans ?_
    rw [harrive, Option.map_some]
  obtain ⟨ws', -, hlinked'⟩ := hlinked.poll eagain reading (d := d) harrive
  have hclosed := (poll_frame eagain reading decoding e (s e) (s !e) b d).2.2.2.1
  have hsame : Function.update s (!e) { (Duplex.poll eagain reading decoding e (s e) (s !e) b d).2
      with arrived := (s !e).arrived + 1 } e = s e := Function.update_of_ne (by simp) _ _
  refine ⟨b, _, hs, ⟨fun e' => ?_, ?_⟩, hsame, ?_, ws', hlinked'⟩
  · by_cases he : e' = !e
    · subst he
      rw [Function.update_self]
      exact hclosed.trans (hflushed.isOpen _)
    · rw [Function.update_of_ne he]
      exact hflushed.isOpen e'
  · rw [hsame]
    exact hflushed.pending
  · rw [Function.update_self]

/-- Polls get all datagrams that have been taken. -/
theorem exists_polls (hw : Willing reading) (d : D) (n : Nat) :
    ∀ (s : State S K) (ws : Wires T), Linked decoding size s ws → Flushed e s →
    (sending.taken (s e).channel.io).length = (s !e).arrived + n →
    ∃ k s', Run ((system eagain reading decoding size).startingAt s) k s' ∧ (∀ x ∈ k, Drains e x) ∧
      Flushed e s' ∧ (sending.taken (s' e).channel.io).length = (s' !e).arrived := by
  induction n with
  | zero => exact fun s _ _ hflushed hlength => ⟨[], s, .nil rfl, nofun, hflushed, hlength⟩
  | succ n ih =>
    intro s ws hlinked hflushed hlength
    obtain ⟨b, s₁, hs, hflushed₁, hsame, harrived, ws₁, hlinked₁⟩ :=
      exists_poll eagain hw d hlinked hflushed (by omega)
    obtain ⟨k, s', hk, hdrains, hdone⟩ := ih s₁ ws₁ hlinked₁ hflushed₁ (by
      rw [hsame, harrived]
      omega)
    refine ⟨_, s', (Run.one hs).append hk, fun x hx => ?_, hdone⟩
    rcases List.mem_append.mp hx with hx | hx
    · obtain rfl := List.mem_singleton.mp hx
      exact .inr ⟨b, d, rfl⟩
    · exact hdrains x hx

variable {eagain}

/--
Nothing gets stuck.

From every state that is reached while both ends are open, and whatever errors there were before,
calls of `poll_complete` at one end and of `poll` at the other get everything through that has been
accepted, if only the transport is willing again.
-/
theorem everything_gets_through (hr : Run (system eagain reading decoding size) h s)
    (hwrites : ∀ x ∈ h, WritesBytes eagain serializing x) (hw : Willing reading) (d : D)
    (hopen : ∀ e, (s e).closed = false) (e : Bool) :
    ∃ k s', Run ((system eagain reading decoding size).startingAt s) k s' ∧
      (∀ x ∈ k, Drains e x) ∧
      Wire.outs (Wires.onWire e (trace (seen eagain reading decoding) (h ++ k)))
        = Wire.ins (Wires.onWire e (trace (seen eagain reading decoding) (h ++ k))) := by
  obtain ⟨-, ws, -, hlinked, -⟩ := linked_of_run hr hwrites
  obtain ⟨a, s₁, hs₁, hflushed₁, ws₁, hlinked₁⟩ :=
    exists_flush (e := e) eagain hw hlinked hopen
  obtain ⟨line₁, place₁, hc₁⟩ := hlinked₁ e
  obtain ⟨k, s', hk, hdrains, hflushed, hread⟩ := exists_polls eagain hw d _ s₁ ws₁
    hlinked₁ hflushed₁ (Nat.add_sub_of_le hc₁.arrived_le).symm
  have hk' := (Run.one hs₁).append hk
  have hdrains' : ∀ x ∈ [(s, (⟨e, .send (.pollComplete a)⟩ : Σ e, Act (T e) A C B D))] ++ k,
      Drains e x := fun x hx => by
    rcases List.mem_append.mp hx with hx | hx
    · obtain rfl := List.mem_singleton.mp hx
      exact .inl ⟨a, rfl⟩
    · exact hdrains x hx
  refine ⟨_, s', hk', hdrains', ?_⟩
  have hall := linked_of_run (hr.append hk') fun x hx =>
    (List.mem_append.mp hx).elim (hwrites x) fun hx => (hdrains' x hx).writesBytes
  obtain ⟨k', ws', hr', hlinked', htrace⟩ := hall
  obtain ⟨line, place, hc⟩ := hlinked' e
  have hhonest := Wires.honest_of_run hr' e
  rw [htrace, hc.wire, hflushed.isOpen e] at hhonest
  obtain ⟨lost, hins, -, hlost⟩ := hhonest.whole
  have hline : line = [] := by
    have htaken := congrArg List.length hc.taken
    rw [List.length_drop, List.length_map, hread, Nat.sub_self] at htaken
    exact List.length_eq_zero_iff.mp htaken.symm
  have hplace : place = none := by
    have hpending := hc.pending
    rw [hflushed.pending] at hpending
    cases place with
    | none => rfl
    | some x => cases hpending
  rw [hins, hlost rfl, hline, hplace]
  simp

end Runs

/-! ## A transport in memory -/

/-- What it reads is up to whoever calls it. -/
def mailboxReading : Reading mailbox (Option (List UInt8)) where
  read b length io :=
    match b with
    | none => (.error .wouldBlock, io)
    | some bytes => (.ok (bytes.take length), io)
  datagram b := b
  read_datagram := by rintro b bytes rfl length io; rfl
  read_nothing := by rintro b rfl length io; exact ⟨_, rfl⟩
  taken_read b length io := by cases b <;> rfl

/-- Items of one byte, in both directions. -/
def oneByteDecoding (e : Bool) : Decoding
    ((fun _ : Bool => noopWrapper mailbox fun b : UInt8 => [b]) e) Unit where
  run _ bytes io k := ⟨(Delivery.oneByte.run () bytes () ()).result, io, k⟩
  inverts _ _ _ _ := rfl
  taken_run _ _ _ _ := rfl

/-- Two ends that send an item each, and a second one that is lost with its end. -/
def bothWays : List (Σ _ : Bool, Act UInt8 Bool Unit (Option (List UInt8)) Unit) :=
  [⟨true, .send (.startSend 7 true ())⟩, ⟨false, .send (.startSend 9 true ())⟩,
    ⟨true, .send (.pollComplete true)⟩, ⟨true, .poll (some [7]) ()⟩,
    ⟨false, .send (.pollComplete false)⟩, ⟨true, .send (.startSend 8 true ())⟩, ⟨true, .close⟩,
    ⟨true, .poll (some []) ()⟩]

theorem refines_wires_two : ∃ h s,
    Run (system 11 mailboxReading oneByteDecoding 1) h s ∧
    trace (seen 11 mailboxReading oneByteDecoding) h = [⟨true, .accepted 7⟩, ⟨false, .accepted 9⟩,
      ⟨true, .flushed⟩, ⟨true, .delivered 7⟩, ⟨true, .accepted 8⟩, ⟨true, .closed⟩,
      ⟨true, .finished⟩] ∧
    ∃ k ws, Run (Wires.system fun _ : Bool => UInt8) k ws ∧
      trace Wires.see k = trace (seen 11 mailboxReading oneByteDecoding) h ∧
      ∀ e, Wire.Honest (Wires.onWire e (trace (seen 11 mailboxReading oneByteDecoding) h)) (ws e) := by
  have hr : Run (system 11 mailboxReading oneByteDecoding 1) _ _ :=
    Run.of_replay (s := fun _ => ⟨.wrap [] 1, (), false, 0⟩) bothWays
      (fun _ => ⟨rfl, rfl, rfl, rfl, rfl⟩) rfl
  refine ⟨_, _, hr, rfl, refines_wires hr ?_⟩
  rintro x hx e item a c -
  nofun

theorem mailboxReading_willing : Willing mailboxReading where
  takes := ⟨true, fun _ _ => rfl⟩
  gives bytes := ⟨some bytes, rfl⟩

/-- An item is pending, because the transport would block. It gets through later on. -/
theorem everything_gets_through_one : ∃ h s,
    Run (system 11 mailboxReading oneByteDecoding 1) h s ∧ (s true).channel.pending = [[7]] ∧
    ∃ k s', Run ((system 11 mailboxReading oneByteDecoding 1).startingAt s) k s' ∧
      (∀ x ∈ k, Drains true x) ∧
      Wire.outs (Wires.onWire true (trace (seen 11 mailboxReading oneByteDecoding) (h ++ k)))
        = Wire.ins (Wires.onWire true (trace (seen 11 mailboxReading oneByteDecoding) (h ++ k))) := by
  have hr : Run (system 11 mailboxReading oneByteDecoding 1) _ _ :=
    Run.of_replay (s := fun _ => ⟨.wrap [] 1, (), false, 0⟩)
      [⟨true, .send (.startSend 7 true ())⟩, ⟨true, .send (.pollComplete false)⟩]
      (fun _ => ⟨rfl, rfl, rfl, rfl, rfl⟩) rfl
  refine ⟨_, _, hr, rfl, everything_gets_through hr ?_ mailboxReading_willing () ?_ true⟩
  · rintro x hx e item a c -
    nofun
  · rintro (_ | _) <;> rfl

end Duplex

end SandboxIpc
