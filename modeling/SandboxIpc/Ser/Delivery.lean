import SandboxIpc.Ser.Sink

/-!
# Delivery from one end of a channel to the other

Two ends are wrapped with the same buffer size. The transport delivers datagrams whole and in order;
once the sending end is closed and everything has been read, it reads zero bytes.

* `Receiving`, `Deserializing` — what is assumed of the other end
* `Delivers` — the polls give the items that were sent, and `None` after the end only
* `delivers` — it holds if no item that is accepted is serialized to zero bytes
* `unit_ends_stream` — such an item is taken for the end of the stream
-/

namespace SandboxIpc

open Infra

/-- A transport that is read by whole datagrams. `B` is what the system answers in one call. -/
structure Receiving (S B : Type) where
  read : B → Nat → S → Except IoError (List UInt8) × S
  /-- The datagram an answer hands over. At the end of the stream it is empty. -/
  datagram : B → Option (List UInt8)
  read_datagram : ∀ {b bytes}, datagram b = some bytes → ∀ length io,
    (read b length io).1 = .ok (bytes.take length)
  read_nothing : ∀ {b}, datagram b = none → ∀ length io, ∃ e, (read b length io).1 = .error e

/-- A deserialization that inverts a serialization. `D` is what the system answers meanwhile. -/
structure Deserializing {S A T K C : Type} {sending : Sending S A}
    (serializing : Serializing sending T K C) (S' K' D : Type) where
  run : D → List UInt8 → S' → K' → Deserialized T S' K'
  inverts : ∀ {c item buffer io k}, (serializing.run c item ⟨buffer, 0⟩ io k).result = .ok () →
    ∀ d io' k', (run d (serializing.encoding c item buffer.length) io' k').result = .ok item

/-! ## A transport in memory -/

/-- What it reads is up to whoever calls it. -/
def outlet : Receiving Unit (Option (List UInt8)) where
  read b length io :=
    match b with
    | none => (.error .wouldBlock, io)
    | some bytes => (.ok (bytes.take length), io)
  datagram b := b
  read_datagram := by rintro b bytes rfl length io; rfl
  read_nothing := by rintro b rfl length io; exact ⟨_, rfl⟩

/-- `NoopWrapper` around a `Deserialize` that inverts `encode`. -/
def noopUnwrapper {S A T : Type} (sending : Sending S A) {encode : T → List UInt8}
    (decode : List UInt8 → Except Failure T) (h : ∀ item, decode (encode item) = .ok item) :
    Deserializing (noopWrapper sending encode) Unit Unit Unit where
  run _ bytes io k := ⟨decode bytes, io, k⟩
  inverts _ _ _ _ := h _

namespace Delivery

variable {S A T K C S' K' B D : Type} (eagain : Int) {sending : Sending S A}
  {serializing : Serializing sending T K C} (receiving : Receiving S' B)
  (deserializing : Deserializing serializing S' K' D)

structure State (S K S' K' : Type) where
  sender : Sink.State S K
  receiver : BincodeDatagram S'
  context : K'
  /-- The sending end has been closed. -/
  closed : Bool
  /-- Not in the source: the number of datagrams that have been read. -/
  arrived : Nat

/-- A call at one of the ends, with the answers it gets from below. -/
inductive Act (T A C B D : Type)
  | send (a : Sink.Act T A C)
  | close
  | poll (b : B) (d : D)

def poll (s : State S K S' K') (b : B) (d : D) : Outcome (Async (Option T)) × State S K S' K' :=
  let (result, receiver, context) := s.receiver.poll eagain (receiving.read b) (deserializing.run d)
    s.context
  (result, { s with receiver, context })

/-- The number of datagrams read after this answer, if the transport can give it: the next datagram,
or nothing, or the end of the stream. Those in `base` are older than the two ends. -/
def arrive (sending : Sending S A) (base : List (List UInt8)) (s : State S K S' K') (b : B) :
    Option Nat :=
  match receiving.datagram b with
  | none => some s.arrived
  | some bytes =>
    if (sending.taken s.sender.channel.io)[base.length + s.arrived]? = some bytes then
      some (s.arrived + 1)
    else if s.closed ∧ (sending.taken s.sender.channel.io).length = base.length + s.arrived ∧
        bytes = [] then
      some s.arrived
    else none

def step (base : List (List UInt8)) (s : State S K S' K') :
    Act T A C B D → Option (State S K S' K')
  | .send a =>
    if s.closed then none else some { s with sender := Sink.next eagain serializing s.sender a }
  | .close => if s.closed then none else some { s with closed := true }
  | .poll b d =>
    (arrive receiving sending base s b).map fun arrived =>
      { (poll eagain receiving deserializing s b d).2 with arrived }

/-- Two ends that have been wrapped for messages of up to `size` bytes. -/
def system (base : List (List UInt8)) (size : Nat) :
    System (State S K S' K') (Act T A C B D) where
  init s := s.sender.channel.bufferedSend = none ∧ sending.taken s.sender.channel.io = base ∧
    s.sender.channel.txBuffer.length = size ∧ s.receiver.rxBuffer.length = size ∧
    s.closed = false ∧ s.arrived = 0
  step := step eagain receiving deserializing base

/-- The calls at the sending end. -/
def sends (h : List (State S K S' K' × Act T A C B D)) : List (Sink.State S K × Sink.Act T A C) :=
  h.filterMap fun e =>
    match e.2 with
    | .send a => some (e.1.sender, a)
    | _ => none

/-- The item a call gives to the user of the receiving end. -/
def given (s : State S K S' K') : Act T A C B D → Option T
  | .poll b d =>
    match (poll eagain receiving deserializing s b d).1 with
    | .ok (.ready item) => item
    | _ => none
  | _ => none

/-- All items the polls have given, in their order. -/
def received (h : List (State S K S' K' × Act T A C B D)) : List T :=
  h.filterMap fun e => given eagain receiving deserializing e.1 e.2

/-- The items accepted at the sending end, in their order. -/
def sent (serializing : Serializing sending T K C) (h : List (State S K S' K' × Act T A C B D)) :
    List T :=
  (Sink.acceptedIn eagain serializing (sends h)).map Prod.fst

/-- The polls give the items that were sent, and `None` only after the sending end is closed. -/
structure Delivers (base : List (List UInt8)) (h : List (State S K S' K' × Act T A C B D))
    (s : State S K S' K') : Prop where
  /-- Each datagram that has been read has become its item. -/
  items : received eagain receiving deserializing h
    = (sent eagain serializing h).take s.arrived
  /-- If everything is flushed and has been read, no item is missing. -/
  complete : s.sender.channel.bufferedSend = none →
    (sending.taken s.sender.channel.io).length = base.length + s.arrived →
    received eagain receiving deserializing h = sent eagain serializing h
  ended : Always (fun _ e => ∀ b d, e.2 = .poll b d →
    (poll eagain receiving deserializing e.1 b d).1 = .ok (.ready none) → e.1.closed) h

/-! ## What a call can do -/

inductive Move (base : List (List UInt8)) (s : State S K S' K') :
    Act T A C B D → State S K S' K' → Prop
  | send (a : Sink.Act T A C) : s.closed = false →
      Move base s (.send a) { s with sender := Sink.next eagain serializing s.sender a }
  | close : Move base s .close { s with closed := true }
  | poll {b : B} (d : D) {arrived : Nat} : arrive receiving sending base s b = some arrived →
      Move base s (.poll b d) { (poll eagain receiving deserializing s b d).2 with arrived }

variable {eagain receiving deserializing}

theorem move_of_step {base : List (List UInt8)} {s s' : State S K S' K'} {a : Act T A C B D}
    (h : step eagain receiving deserializing base s a = some s') :
    Move eagain receiving deserializing base s a s' := by
  cases a with
  | send a =>
    obtain ⟨hopen, heq⟩ : s.closed = false ∧ _ := by simpa [step] using h
    rw [← heq]
    exact .send a hopen
  | close =>
    obtain ⟨-, heq⟩ : s.closed = false ∧ _ := by simpa [step] using h
    rw [← heq]
    exact .close
  | poll b d =>
    obtain ⟨arrived, harrive, rfl⟩ := Option.map_eq_some_iff.mp h
    exact .poll d harrive

/-- The transport answers with nothing, with the next datagram, or with the end of the stream. -/
theorem arrive_cases {base : List (List UInt8)} {s : State S K S' K'} {b : B} {arrived : Nat}
    (h : arrive receiving sending base s b = some arrived) :
    (receiving.datagram b = none ∧ arrived = s.arrived) ∨
    (∃ bytes, receiving.datagram b = some bytes ∧ arrived = s.arrived + 1 ∧
      (sending.taken s.sender.channel.io)[base.length + s.arrived]? = some bytes) ∨
    (receiving.datagram b = some [] ∧ arrived = s.arrived ∧ s.closed) := by
  unfold arrive at h
  cases hb : receiving.datagram b with
  | none =>
    rw [hb] at h
    exact .inl ⟨rfl, (Option.some.inj h).symm⟩
  | some bytes =>
    rw [hb] at h
    dsimp only at h
    split at h
    · next hnext => exact .inr (.inl ⟨bytes, rfl, (Option.some.inj h).symm, hnext⟩)
    · split at h
      · next hend =>
        obtain ⟨hclosed, -, rfl⟩ := hend
        exact .inr (.inr ⟨rfl, (Option.some.inj h).symm, hclosed⟩)
      · cases h

/-- What the receiving end reads fits its buffer. -/
theorem length_read (b : B) (io : S') {length : Nat} {message : List UInt8}
    (h : (receiving.read b length io).1 = .ok message) : message.length ≤ length := by
  cases hb : receiving.datagram b with
  | none =>
    obtain ⟨e, he⟩ := receiving.read_nothing hb length io
    rw [he] at h
    cases h
  | some bytes =>
    rw [receiving.read_datagram hb length io] at h
    obtain rfl := Except.ok.inj h
    rw [List.length_take]
    exact Nat.min_le_left _ _

theorem length_poll (s : State S K S' K') (b : B) (d : D) :
    (poll eagain receiving deserializing s b d).2.receiver.rxBuffer.length
      = s.receiver.rxBuffer.length :=
  BincodeDatagram.length_rxBuffer_poll eagain fun _ => length_read b _

/-! ## Runs -/

/-- The sending end is a sink by itself. -/
theorem run_sends {base : List (List UInt8)} {size : Nat}
    {h : List (State S K S' K' × Act T A C B D)} {s : State S K S' K'}
    (hr : Run (system eagain receiving deserializing base size) h s) :
    Run (Sink.system eagain serializing base) (sends h) s.sender := by
  refine hr.ledger (fun h s => Run (Sink.system eagain serializing base) (sends h) s.sender) ?_ ?_
  · rintro s ⟨hnone, htaken, -⟩
    exact .nil ⟨hnone, htaken⟩
  · intro h s a s' ih hs
    have hmove := move_of_step hs
    cases hmove with
    | send a hopen =>
      have hnext := ih.snoc (a := a) rfl
      simpa [sends] using hnext
    | close => simpa [sends] using ih
    | poll d harrive => simpa [sends, poll] using ih

/-- The item is serialized to something, if it is accepted. -/
def WritesBytes (eagain : Int) (serializing : Serializing sending T K C)
    (e : State S K S' K' × Act T A C B D) : Prop :=
  ∀ item a c, e.2 = .send (.startSend item a c) →
    (Sink.accepted eagain serializing e.1.sender (.startSend item a c)).isSome →
    serializing.encoding c item e.1.sender.channel.txBuffer.length ≠ []

/-- What is kept during a run. -/
structure Kept (deserializing : Deserializing serializing S' K' D) (eagain : Int)
    (receiving : Receiving S' B) (size : Nat) (h : List (State S K S' K' × Act T A C B D))
    (s : State S K S' K') : Prop where
  tx : s.sender.channel.txBuffer.length = size
  rx : s.receiver.rxBuffer.length = size
  /-- Every datagram is some bytes, fits the buffers, and can be deserialized. -/
  readable : ∀ e ∈ Sink.acceptedIn eagain serializing (sends h), e.2 ≠ [] ∧ e.2.length ≤ size ∧
    ∀ d io k, (deserializing.run d e.2 io k).result = .ok e.1
  items : received eagain receiving deserializing h = (sent eagain serializing h).take s.arrived
  arrived_le : s.arrived ≤ (sent eagain serializing h).length

/-- The next datagram is that of the next item. -/
theorem item_of_datagram {base : List (List UInt8)} {size : Nat}
    {h : List (State S K S' K' × Act T A C B D)} {s : State S K S' K'} {bytes : List UInt8}
    (hr : Run (system eagain receiving deserializing base size) h s)
    (hbytes : (sending.taken s.sender.channel.io)[base.length + s.arrived]? = some bytes) :
    ∃ item, (Sink.acceptedIn eagain serializing (sends h))[s.arrived]? = some (item, bytes) := by
  have hledger := Sink.ledger_of_run (run_sends hr)
  have hlt := (List.getElem?_eq_some_iff.mp hbytes).1
  have hnext : (base ++ (Sink.acceptedIn eagain serializing (sends h)).map Prod.snd)[
      base.length + s.arrived]? = some bytes := by
    rw [hledger, List.getElem?_append_left hlt]
    exact hbytes
  rw [List.getElem?_append_right (Nat.le_add_right _ _), Nat.add_sub_cancel_left,
    List.getElem?_map] at hnext
  obtain ⟨⟨item, bytes'⟩, hget, rfl⟩ := Option.map_eq_some_iff.mp hnext
  exact ⟨item, hget⟩

/-- A poll gives nothing, or the next item, or the end of a closed stream. -/
theorem poll_of_kept {base : List (List UInt8)} {size : Nat}
    {h : List (State S K S' K' × Act T A C B D)} {s : State S K S' K'}
    (hr : Run (system eagain receiving deserializing base size) h s)
    (hk : Kept deserializing eagain receiving size h s) {b : B} (d : D) {arrived : Nat}
    (harrive : arrive receiving sending base s b = some arrived) :
    (arrived = s.arrived ∧
      ∀ r, (poll eagain receiving deserializing s b d).1 ≠ .ok (.ready r)) ∨
    (∃ item, arrived = s.arrived + 1 ∧ (sent eagain serializing h)[s.arrived]? = some item ∧
      (poll eagain receiving deserializing s b d).1 = .ok (.ready (some item))) ∨
    (arrived = s.arrived ∧ s.closed ∧
      (poll eagain receiving deserializing s b d).1 = .ok (.ready none)) := by
  rcases arrive_cases harrive with ⟨hb, heq⟩ | ⟨bytes, hb, heq, hnext⟩ | ⟨hb, heq, hclosed⟩
  · obtain ⟨e, he⟩ := receiving.read_nothing hb s.receiver.rxBuffer.length s.receiver.io
    exact .inl ⟨heq, BincodeDatagram.poll_of_error eagain he⟩
  · obtain ⟨item, hitem⟩ := item_of_datagram hr hnext
    obtain ⟨hne, hlength, hok⟩ := hk.readable _ (List.mem_of_getElem? hitem)
    have hread := receiving.read_datagram hb s.receiver.rxBuffer.length s.receiver.io
    rw [hk.rx, List.take_of_length_le hlength, ← hk.rx] at hread
    refine .inr (.inl ⟨item, heq, ?_, ?_⟩)
    · unfold sent
      rw [List.getElem?_map, hitem]
      rfl
    · exact BincodeDatagram.poll_of_message eagain hread hne (hok d _ _)
  · have hread := receiving.read_datagram hb s.receiver.rxBuffer.length s.receiver.io
    rw [List.take_nil] at hread
    exact .inr (.inr ⟨heq, hclosed, BincodeDatagram.poll_of_nil eagain hread⟩)

theorem received_snoc (h : List (State S K S' K' × Act T A C B D)) (s : State S K S' K')
    (a : Act T A C B D) : received eagain receiving deserializing (h ++ [(s, a)])
      = received eagain receiving deserializing h
        ++ (given eagain receiving deserializing s a).toList := by
  unfold received
  cases hgiven : given eagain receiving deserializing s a <;> simp [hgiven]

/-- An item that is accepted can be read at the other end. -/
theorem readable_of_accepted {s : Sink.State S K} (hs : s.channel.Bounded) {a : Sink.Act T A C}
    {e : T × List UInt8} (h : Sink.accepted eagain serializing s a = some e) :
    e.2.length ≤ s.channel.txBuffer.length ∧
      ∀ d io k, (deserializing.run d e.2 io k).result = .ok e.1 := by
  obtain ⟨item, bytes⟩ := e
  obtain ⟨a', c, io, -, rfl, hok⟩ := Sink.startSend_of_accepted eagain serializing hs h
  refine ⟨?_, fun d io' k' => deserializing.inverts hok d io' k'⟩
  rw [← serializing.written_run _ _ _ _ _ hok]
  unfold Cursor.written
  rw [List.length_take]
  exact Nat.le_trans (Nat.min_le_left _ _) (serializing.position_le _ _ _ _ _)

section Step

variable {base : List (List UInt8)} {size : Nat} {h : List (State S K S' K' × Act T A C B D)}
  {s : State S K S' K'}

theorem Kept.send (hk : Kept deserializing eagain receiving size h s)
    (hbounded : s.sender.channel.Bounded) {a : Sink.Act T A C}
    (hwrites : WritesBytes eagain serializing (s, (.send a : Act T A C B D))) :
    Kept deserializing eagain receiving size (h ++ [(s, .send a)])
      { s with sender := Sink.next eagain serializing s.sender a } := by
  have hsends : sends (h ++ [(s, .send a)]) = sends h ++ [(s.sender, a)] := by simp [sends]
  have hsent : sent eagain serializing (h ++ [(s, .send a)]) = sent eagain serializing h
      ++ (Sink.accepted eagain serializing s.sender a).toList.map Prod.fst := by
    unfold sent
    rw [hsends, Sink.acceptedIn_snoc, List.map_append]
  refine ⟨(Sink.length_next eagain serializing hbounded a).trans hk.tx, hk.rx, ?_, ?_, ?_⟩
  · intro e he
    rw [hsends, Sink.acceptedIn_snoc, List.mem_append] at he
    rcases he with he | he
    · exact hk.readable e he
    · have hacc : Sink.accepted eagain serializing s.sender a = some e := Option.mem_toList.mp he
      obtain ⟨hlength, hok⟩ := readable_of_accepted hbounded hacc
      obtain ⟨a', c, io, rfl, hbytes, -⟩ :=
        Sink.startSend_of_accepted eagain serializing hbounded hacc
      refine ⟨?_, hk.tx ▸ hlength, hok⟩
      rw [hbytes]
      exact hwrites _ _ _ rfl (Option.isSome_of_mem hacc)
  · rw [received_snoc, hsent, List.take_append_of_le_length hk.arrived_le]
    exact (List.append_nil _).trans hk.items
  · rw [hsent, List.length_append]
    exact Nat.le_add_right_of_le hk.arrived_le

theorem Kept.close (hk : Kept deserializing eagain receiving size h s) :
    Kept deserializing eagain receiving size (h ++ [(s, .close)]) { s with closed := true } := by
  have hsends : sends (h ++ [(s, .close)]) = sends h := by simp [sends]
  refine ⟨hk.tx, hk.rx, ?_, ?_, ?_⟩
  · rw [hsends]
    exact hk.readable
  · unfold sent
    rw [received_snoc, hsends]
    exact (List.append_nil _).trans hk.items
  · unfold sent
    rw [hsends]
    exact hk.arrived_le

theorem Kept.poll (hr : Run (system eagain receiving deserializing base size) h s)
    (hk : Kept deserializing eagain receiving size h s) {b : B} (d : D) {arrived : Nat}
    (harrive : arrive receiving sending base s b = some arrived) :
    Kept deserializing eagain receiving size (h ++ [(s, .poll b d)])
      { (Delivery.poll eagain receiving deserializing s b d).2 with arrived } := by
  have hsends : sends (h ++ [(s, .poll b d)]) = sends h := by simp [sends]
  have hsent : sent eagain serializing (h ++ [(s, .poll b d)]) = sent eagain serializing h := by
    unfold sent
    rw [hsends]
  have hrx : (Delivery.poll eagain receiving deserializing s b d).2.receiver.rxBuffer.length = size :=
    (length_poll s b d).trans hk.rx
  have hreadable := hk.readable
  rw [← hsends] at hreadable
  rcases poll_of_kept hr hk d harrive with
    ⟨rfl, hne⟩ | ⟨item, rfl, hitem, hpoll⟩ | ⟨rfl, -, hpoll⟩
  · -- nothing is read
    have hgiven : given eagain receiving deserializing s (.poll b d) = none := by
      dsimp only [given]
      split
      · next r hr => exact absurd hr (hne r)
      · rfl
    refine ⟨hk.tx, hrx, hreadable, ?_, hsent ▸ hk.arrived_le⟩
    rw [received_snoc, hsent, hgiven]
    exact (List.append_nil _).trans hk.items
  · have hgiven : given eagain receiving deserializing s (.poll b d) = some item := by
      dsimp only [given]
      rw [hpoll]
    refine ⟨hk.tx, hrx, hreadable, ?_, hsent ▸ (List.getElem?_eq_some_iff.mp hitem).1⟩
    rw [received_snoc, hsent, hgiven, hk.items]
    dsimp only
    rw [List.take_add_one, hitem]
  · have hgiven : given eagain receiving deserializing s (.poll b d) = none := by
      dsimp only [given]
      rw [hpoll]
    refine ⟨hk.tx, hrx, hreadable, ?_, hsent ▸ hk.arrived_le⟩
    rw [received_snoc, hsent, hgiven]
    exact (List.append_nil _).trans hk.items

theorem kept_of_run (hr : Run (system eagain receiving deserializing base size) h s)
    (hwrites : ∀ e ∈ h, WritesBytes eagain serializing e) :
    Kept deserializing eagain receiving size h s := by
  refine hr.history (WritesBytes eagain serializing) (Kept deserializing eagain receiving size) ?_
    ?_ hwrites
  · rintro s ⟨-, -, htx, hrx, -, harrived⟩
    exact ⟨htx, hrx, nofun, by rw [harrived]; rfl, by rw [harrived]; exact Nat.zero_le _⟩
  · intro h s a s' hr _ hk hwrites hs
    cases move_of_step hs with
    | send a _ => exact hk.send (Sink.bounded_of_run (run_sends hr)) hwrites
    | close => exact hk.close
    | poll d harrive => exact hk.poll hr d harrive

end Step

/--
If no item that is accepted is serialized to zero bytes, then in every run the polls give exactly the items that were
sent, in their order and up to the full size of the buffers, and `None` only after the sending end
has been closed.
-/
theorem delivers {base : List (List UInt8)} {size : Nat}
    {h : List (State S K S' K' × Act T A C B D)} {s : State S K S' K'}
    (hr : Run (system eagain receiving deserializing base size) h s)
    (hwrites : ∀ e ∈ h, WritesBytes eagain serializing e) :
    Delivers eagain receiving deserializing base h s where
  items := (kept_of_run hr hwrites).items
  complete hnone hall := by
    have hledger := congrArg List.length (Sink.ledger_of_run (run_sends hr))
    have hpending : s.sender.channel.pending = [] := by
      unfold BincodeDatagram.pending
      rw [hnone]
    rw [hpending, List.append_nil, hall, List.length_append, List.length_map] at hledger
    have hlength : (sent eagain serializing h).length ≤ s.arrived := by
      unfold sent
      rw [List.length_map]
      omega
    rw [(kept_of_run hr hwrites).items, List.take_of_length_le hlength]
  ended := by
    rintro pre ⟨s₁, a⟩ post rfl b d rfl hpoll
    obtain ⟨hpre, s₂, hs, -⟩ := hr.split
    have hk := kept_of_run hpre fun e he => hwrites e (List.mem_append_left _ he)
    have hmove : Move eagain receiving deserializing base s₁ (.poll b d) s₂ := move_of_step hs
    cases hmove with
    | poll _ harrive =>
      rcases poll_of_kept hpre hk d harrive with
        ⟨-, hne⟩ | ⟨item, -, -, hitem⟩ | ⟨-, hclosed, -⟩
      · exact absurd hpoll (hne none)
      · exact absurd (hitem.symm.trans hpoll) nofun
      · exact hclosed

/-- Items of one byte, and buffers of one byte. -/
def oneByte : Deserializing (noopWrapper mailbox fun b : UInt8 => [b]) Unit Unit Unit :=
  noopUnwrapper mailbox
    (fun
      | [] => .error (.error "unexpected end of file")
      | b :: _ => .ok b)
    fun _ => rfl

/-- Two items go through, one after the other. -/
theorem delivers_two : ∃ h s, Run (system 11 outlet oneByte [] 1) h s ∧
    received 11 outlet oneByte h = [7, 9] ∧ Delivers 11 outlet oneByte [] h s := by
  have hr : Run (system 11 outlet oneByte [] 1) _ _ :=
    Run.of_replay (s := ⟨⟨.wrap [] 1, ()⟩, .wrap () 1, (), false, 0⟩)
      [.send (.startSend 7 true ()), .send (.startSend 9 true ()), .poll (some [7]) (),
        .poll none (), .send (.pollComplete true), .close, .poll (some [9]) (), .poll (some []) ()]
      ⟨rfl, rfl, rfl, rfl, rfl, rfl⟩ rfl
  refine ⟨_, _, hr, rfl, delivers hr ?_⟩
  rintro e he item a c - -
  nofun

/-- The unit type, which is serialized to nothing. -/
def units : Deserializing (noopWrapper mailbox fun _ : Unit => []) Unit Unit Unit :=
  noopUnwrapper mailbox (fun _ => .ok ()) fun _ => rfl

/-- A unit is accepted and sent, and the other end takes it for the end of the stream. -/
theorem unit_ends_stream : ∃ h s, Run (system 11 outlet units [] 16) h s ∧
    sent 11 (noopWrapper mailbox fun _ : Unit => []) h = [()] ∧
    s.sender.channel.io = [[]] ∧ s.closed = false ∧
    ¬ Delivers 11 outlet units [] h s := by
  have hr : Run (system 11 outlet units [] 16) _ _ :=
    Run.of_replay (s := ⟨⟨.wrap [] 16, ()⟩, .wrap () 16, (), false, 0⟩)
      [.send (.startSend () true ()), .send (.pollComplete true), .poll (some []) ()]
      ⟨rfl, rfl, rfl, rfl, rfl, rfl⟩ rfl
  refine ⟨_, _, hr, rfl, rfl, rfl, ?_⟩
  intro hdelivers
  have hended := hdelivers.ended [_, _] _ [] rfl (some []) () rfl rfl
  cases hended

end Delivery

end SandboxIpc
