import SandboxIpc.Infra.Refinement
import SandboxIpc.Infra.Registry
import SandboxIpc.Windows.Copies
import SandboxIpc.Windows.Reading
import Mathlib.Data.List.Nodup

/-!
# The way of an item from one process to another

What becomes of the handles of an item between the `start_send` that accepts it and the `poll` that
returns it, whatever else the processes open and close meanwhile. In a message a handle is only a
number, so nothing keeps an item together but the tables of the two processes.

* `Link.step` — both ends of a channel, the pipe between them and the open handles
* `Link.accepts`, `Link.delivers` — items, with the objects that their handles stand for
* `Link.Carried` — the messages on their way, and the handles that were made for them
* `Link.items_arrive` — items arrive in their order, with handles for the objects that were sent
-/

namespace SandboxIpc.Windows

open Infra

variable {p : PointerWidth} {Pid O : Type}

/-- An open handle. -/
structure Opened (O : Type) where
  object : O
  /-- Not in the source: `HandleSender::send` has made it, and nobody has adopted it yet. -/
  forMessage : Bool
  deriving DecidableEq

/-- Both ends of a channel, for the messages that go one way. -/
structure Link (Pid O : Type) where
  sender : State
  inbox : Inbox
  /-- Not in the source: the handles that have been made for the message that is pending. -/
  waiting : List Handle
  /-- Not in the source: the open handles of all processes. -/
  handles : Registry (Pid × Handle) (Opened O)

namespace Link

inductive Act (p : PointerWidth) (Pid O : Type)
  /-- A call at the sending end. -/
  | call (a : Windows.Act (Payload p) Unit)
  /-- A poll at the receiving end. -/
  | poll (ready : Except IoError Unit) (wsaSocket : WsaProtoInfo → Except IoError RawSocket)
  /-- A process gets a handle, from wherever. -/
  | obtain (process : Pid) (handle : Handle) (object : O)
  /-- A process closes a handle of its own. -/
  | close (process : Pid) (handle : Handle)

section Step

/-- What a handle of a process stands for. -/
def objectOf (s : Link Pid O) (process : Pid) (handle : Handle) : Option O :=
  (s.handles (process, handle)).map Opened.object

variable [Bincode] [DecidableEq Pid] [DecidableEq O] (here there : Pid) (fromRaw : Handle → Bool)
  (limit : Nat) (reader : Reader)

/-- What is duplicated in a call, in the tables of the two processes. -/
def pairs (made : List (Handle × Handle)) : List ((Pid × Handle) × (Pid × Handle)) :=
  made.map fun c => ((here, c.1), (there, c.2))

/-- The system duplicates handles that are open, and what it makes of them are handles that were
free. -/
def call (s : Link Pid O) (a : Windows.Act (Payload p) Unit) : Option (Link Pid O) :=
  let sender := next (Payload.encode limit) s.sender a
  let made := copies limit s.sender a
  let taken := sender.io.pipe.sent.drop s.sender.io.pipe.sent.length
  if a.whole s.sender = true ∧ s.handles.CanCopy (pairs here there made) ∧
      ∀ c ∈ made, fromRaw c.2 = true ∧ c.2 < 2 ^ 64 then
    some {
      sender
      inbox := { s.inbox with incoming := s.inbox.incoming ++ taken.map (⟨·, s.waiting⟩) }
      waiting := if (accepted (Payload.encode limit) s.sender a).isSome then made.map Prod.snd
        else s.waiting
      handles := (s.handles.put (s.handles.copied (fun opened => ⟨opened.object, true⟩)
        (pairs here there made))).close ((closes limit s.sender a).map (there, ·)) }
  else none

/-- What a poll makes objects of is theirs. -/
def poll (s : Link Pid O) (ready : Except IoError Unit)
    (wsaSocket : WsaProtoInfo → Except IoError RawSocket) : Option (Link Pid O) :=
  let build := reader.building wsaSocket []
  (s.inbox.step fromRaw build (.poll ready)).map fun inbox =>
    { s with
      inbox
      handles := s.handles.amend
        ((s.inbox.adopted fromRaw build (.poll ready)).map fun o => (there, o.handle))
        fun opened => { opened with forMessage := false } }

def step (s : Link Pid O) : Act p Pid O → Option (Link Pid O)
  | .call a => s.call here there fromRaw limit a
  | .poll ready wsaSocket => s.poll there fromRaw reader ready wsaSocket
  | .obtain process handle object =>
    if s.handles.Free [(process, handle)] then
      some { s with handles := s.handles.put [((process, handle), ⟨object, false⟩)] }
    else none
  | .close process handle =>
    match s.handles (process, handle) with
    | some ⟨_, false⟩ => some { s with handles := s.handles.close [(process, handle)] }
    | _ => none

/-- A channel between two ends that have been wrapped for messages of the same size. -/
def system : System (Link Pid O) (Act p Pid O) where
  init s := (∃ io, s.sender = .wrap io limit) ∧ s.inbox.channel.rxBuffer.length = limit ∧
    s.inbox.incoming = []
  step := step here there fromRaw limit reader

end Step

section Events

variable [Bincode] (here there : Pid) (fromRaw : Handle → Bool) (limit : Nat) (reader : Reader)

/-- The item that a call accepts, with the objects that its handles stand for. -/
def accepts (e : Link Pid O × Act p Pid O) : Option (List (Part (Option O))) :=
  match e.2 with
  | .call (.startSend item w a) =>
    let call : Windows.Act (Payload p) Unit := .startSend item w a
    match accepted (Payload.encode limit) e.1.sender call, item.answers e.1.sender.io a with
    | some _, .ok sent =>
      some ((partsOf item.serialization (sent.drop item.resources.length)).map
        (Part.map fun c => e.1.objectOf here c.1))
    | _, _ => none
  | _ => none

/-- The item that a poll returns, with the objects that its handles stand for. -/
def delivers (e : Link Pid O × Act p Pid O) : Option (List (Part (Option O))) :=
  match e.2 with
  | .poll ready wsaSocket =>
    match (e.1.inbox.channel.poll wsaewouldblock (MessageChannel.read (e.1.inbox.answer ready))
      (deserialize (Inbox.decode fromRaw (reader.building wsaSocket []))) ()).1 with
    | .ok (.ready (some parts)) => some (parts.map (Part.map (e.1.objectOf there)))
    | _ => none
  | _ => none

/-- Items are values of the type that is read, and the system makes sockets when it is asked to. -/
def Act.Typed (reader : Reader) : Act p Pid O → Prop
  | .call (.startSend item _ _) => reader.accepts item.serialization = true ∧ 0 < item.size
  | .poll _ wsaSocket => ∀ info, ∃ socket, wsaSocket info = .ok socket
  | _ => True

/-- Whatever a poll makes objects of is open and has been made for a message, is nobody's yet, and
becomes one object. -/
def AdoptsFresh (e : Link Pid O × Act p Pid O) : Prop :=
  match e.2 with
  | .poll ready wsaSocket =>
    let adopted := (e.1.inbox.adopted fromRaw (reader.building wsaSocket []) (.poll ready)).map
      Owned.handle
    adopted.Nodup ∧ ∀ handle ∈ adopted, ∃ o, e.1.handles (there, handle) = some ⟨o, true⟩
  | _ => True

end Events

/-! ## Messages on their way -/

/-- A message, and the item it was made of. Each handle in it comes with the object that the handle
it was made of stood for. -/
structure Parcel (O : Type) where
  arrival : Arrival
  parts : List (Part (Handle × Option O))

namespace Parcel

def handles (q : Parcel O) : List Handle := (Part.handles q.parts).map Prod.fst

def content (q : Parcel O) : List (Part (Option O)) := q.parts.map (Part.map Prod.snd)

/-- The bytes are read as the parts. -/
structure Readable [Bincode] (fromRaw : Handle → Bool) (limit : Nat) (reader : Reader)
    (q : Parcel O) : Prop where
  ne : q.arrival.bytes ≠ []
  fits : q.arrival.bytes.length ≤ limit
  run : ∀ wsaSocket, (∀ info, ∃ socket, wsaSocket info = .ok socket) →
    (reader.building wsaSocket [] q.arrival.bytes).run (some ⟨⟩) fromRaw
      = .ok (q.parts.map (Part.map Prod.fst))
  named : ∀ wsaSocket, (∀ info, ∃ socket, wsaSocket info = .ok socket) →
    (reader.building wsaSocket [] q.arrival.bytes).named fromRaw = q.handles

/-- The handles in the message are open in the receiving process for the objects of the item, and
nobody knows of them. -/
def Held (there : Pid) (t : Registry (Pid × Handle) (Opened O)) (q : Parcel O) : Prop :=
  ∀ x ∈ Part.handles q.parts, ∃ o, x.2 = some o ∧ t (there, x.1) = some ⟨o, true⟩

variable {there : Pid} {t t' : Registry (Pid × Handle) (Opened O)} {q : Parcel O}

theorem Held.exists_of_mem (h : q.Held there t) {handle : Handle} (hmem : handle ∈ q.handles) :
    ∃ o, t (there, handle) = some ⟨o, true⟩ := by
  obtain ⟨x, hx, rfl⟩ := List.mem_map.mp hmem
  obtain ⟨o, -, hopen⟩ := h x hx
  exact ⟨o, hopen⟩

/-- What its handles stand for in the receiving process are the objects of the item. -/
theorem Held.content_eq {s : Link Pid O} (h : q.Held there s.handles) :
    (q.parts.map (Part.map Prod.fst)).map (Part.map (s.objectOf there)) = q.content := by
  have hsame : ∀ x ∈ Part.handles q.parts, s.objectOf there x.1 = x.2 := by
    intro x hx
    obtain ⟨o, ho, hopen⟩ := h x hx
    rw [ho]
    exact congrArg (Option.map Opened.object) hopen
  unfold content
  rw [← Part.map_congr hsame, List.map_map]
  exact List.map_congr_left fun part _ => Part.map_map Prod.fst (s.objectOf there) part

theorem Held.mono (h : q.Held there t)
    (ht : ∀ handle ∈ q.handles, ∀ o, t (there, handle) = some ⟨o, true⟩ →
      t' (there, handle) = some ⟨o, true⟩) : q.Held there t' := by
  intro x hx
  obtain ⟨o, ho, hopen⟩ := h x hx
  exact ⟨o, ho, ht x.1 (List.mem_map.mpr ⟨x, hx, rfl⟩) o hopen⟩

end Parcel

variable {here there : Pid} {fromRaw : Handle → Bool} {limit : Nat}
  {reader : Reader} {stranded : List Handle} {s s' : Link Pid O} {parcels : List (Parcel O)}

/-- What is made for a message is new to the receiving process. -/
theorem free_of_canCopy {t : Registry (Pid × Handle) (Opened O)} {made : List (Handle × Handle)}
    (h : t.CanCopy (pairs here there made)) :
    (made.map Prod.snd).Nodup ∧ ∀ handle ∈ made.map Prod.snd, t (there, handle) = none := by
  have hsnd : (pairs here there made).map Prod.snd = (made.map Prod.snd).map (there, ·) := by
    unfold pairs
    rw [List.map_map, List.map_map]
    rfl
  obtain ⟨-, hnodup, hfree⟩ := h
  rw [hsnd] at hnodup hfree
  refine ⟨List.Nodup.of_map _ hnodup, fun handle hmem => ?_⟩
  exact hfree _ (List.mem_map.mpr ⟨handle, hmem, rfl⟩)

/-- The messages that the pipe has taken in a call, and the one that is pending after it. -/
theorem line_of_forwards {sender : State} (h : Forwards s.sender sender) :
    (sender.io.pipe.sent.drop s.sender.io.pipe.sent.length).map (⟨·, s.waiting⟩)
        ++ sender.pending.map (⟨·, s.waiting⟩)
      = s.sender.pending.map fun bytes => (⟨bytes, s.waiting⟩ : Arrival) := by
  rcases h with ⟨hsent, hpending⟩ | ⟨hsent, hpending⟩
  · rw [hsent, hpending, List.drop_length]
    rfl
  · rw [hsent, hpending, List.drop_left, List.map_nil, List.append_nil]

/-- A poll takes the first message off the line, if there is one. -/
theorem answer_cases (s : Inbox) (ready : Except IoError Unit) :
    (∃ e, s.answer ready = .error e ∧
      (if ready.isOk then s.incoming.tail else s.incoming) = s.incoming) ∨
    ∃ m rest, ready = .ok () ∧ s.incoming = m :: rest ∧ s.answer ready = .ok m.bytes := by
  obtain ⟨channel, incoming⟩ := s
  cases ready with
  | error e => exact .inl ⟨e, rfl, rfl⟩
  | ok _ =>
    cases incoming with
    | nil => exact .inl ⟨.wouldBlock, rfl, rfl⟩
    | cons m rest => exact .inr ⟨m, rest, rfl, rfl, rfl⟩

section Pairs

variable [DecidableEq Pid]

/-- A call leaves the handles that were open open. -/
theorem handles_call {t : Registry (Pid × Handle) (Opened O)} {made : List (Handle × Handle)}
    {closed : List Handle} (hcan : t.CanCopy (pairs here there made))
    (hclosed : ∀ handle ∈ closed, handle ∈ made.map Prod.snd) {handle : Handle} {opened : Opened O}
    (h : t (there, handle) = some opened) :
    ((t.put (t.copied (fun opened => ⟨opened.object, true⟩) (pairs here there made))).close
      (closed.map (there, ·))) (there, handle) = some opened := by
  rw [Registry.close_of_notMem]
  · exact Registry.put_copied_of_eq_some hcan h
  · intro hmem
    obtain ⟨handle', hmem', heq⟩ := List.mem_map.mp hmem
    obtain rfl : handle' = handle := congrArg Prod.snd heq
    rw [(free_of_canCopy hcan).2 handle' (hclosed handle' hmem')] at h
    cases h

/-- What has been made stands for the object that it was made of. -/
theorem open_of_made {t : Registry (Pid × Handle) (Opened O)} {made : List (Handle × Handle)}
    (hcan : t.CanCopy (pairs here there made)) {c : Handle × Handle} (hc : c ∈ made) :
    ∃ opened, t (here, c.1) = some opened ∧
      t.put (t.copied (fun opened => ⟨opened.object, true⟩) (pairs here there made)) (there, c.2)
        = some ⟨opened.object, true⟩ := by
  have hpair : ((here, c.1), (there, c.2)) ∈ pairs here there made :=
    List.mem_map.mpr ⟨c, hc, rfl⟩
  obtain ⟨opened, hopened⟩ := Option.isSome_iff_exists.mp (hcan.1 _ hpair)
  exact ⟨opened, hopened, Registry.put_copied_of_mem hcan hpair hopened⟩

end Pairs

section Carrying

variable [Bincode]

/-- These messages are on their way, the pending one last, and these handles of the receiving
process have been made for messages that do not name them. -/
structure Carried (there : Pid) (fromRaw : Handle → Bool) (limit : Nat) (reader : Reader)
    (stranded : List Handle) (s : Link Pid O) (parcels : List (Parcel O)) : Prop where
  sized : s.sender.Sized limit
  room : s.inbox.channel.rxBuffer.length = limit
  line : s.inbox.incoming ++ s.sender.pending.map (⟨·, s.waiting⟩) = parcels.map Parcel.arrival
  readable : ∀ q ∈ parcels, q.Readable fromRaw limit reader
  held : ∀ q ∈ parcels, q.Held there s.handles
  kept : ∀ handle ∈ stranded, ∃ o, s.handles (there, handle) = some ⟨o, true⟩
  nodup : (stranded ++ parcels.flatMap Parcel.handles).Nodup

/-- The message of an item that is accepted. -/
def parcelOf (here : Pid) (s : Link Pid O) (item : Payload p) (made : List (Handle × Handle))
    (sent : List Sent) : Parcel O where
  arrival := ⟨render Sent.content item.serialization sent, made.map Prod.snd⟩
  parts := (partsOf item.serialization sent).map (Part.map fun c => (c.2, s.objectOf here c.1))

theorem content_parcelOf (here : Pid) (s : Link Pid O) (item : Payload p)
    (made : List (Handle × Handle)) (sent : List Sent) :
    (parcelOf here s item made sent).content
      = (partsOf item.serialization sent).map (Part.map fun c => s.objectOf here c.1) := by
  unfold Parcel.content parcelOf
  rw [List.map_map]
  exact List.map_congr_left fun part _ => Part.map_map _ _ part

theorem handles_parcelOf (here : Pid) (s : Link Pid O) {item : Payload p}
    (made : List (Handle × Handle)) {sent : List Sent}
    (h : List.Forall₂ Answers item.resources sent) :
    (parcelOf here s item made sent).handles = remotes sent := by
  unfold Parcel.handles parcelOf
  rw [Part.handles_map, List.map_map]
  exact remotes_partsOf h

/-- It can be read as the item. -/
theorem readable_parcelOf (here : Pid) (s : Link Pid O) {item : Payload p}
    (made : List (Handle × Handle)) {sent : List Sent}
    (h : List.Forall₂ Answers item.resources sent)
    (htype : reader.accepts item.serialization = true) (hne : 0 < item.size)
    (hfits : item.size ≤ limit)
    (hraw : ∀ handle ∈ remotes sent, fromRaw handle = true ∧ handle < 2 ^ 64) :
    (parcelOf here s item made sent).Readable fromRaw limit reader where
  ne hnil := by
    have hlength := length_render h
    rw [show render Sent.content item.serialization sent = [] from hnil] at hlength
    exact absurd hlength (Nat.ne_of_lt hne)
  fits := Nat.le_trans (Nat.le_of_eq (length_render h)) hfits
  run wsaSocket hsockets := by
    refine (Reader.run_building htype h hraw hsockets []).1.trans ?_
    unfold parcelOf
    rw [List.nil_append, List.map_map]
    exact congrArg Except.ok (List.map_congr_left fun part _ =>
      (Part.map_map (fun c => (c.2, s.objectOf here c.1)) Prod.fst part).symm)
  named wsaSocket hsockets := by
    rw [handles_parcelOf here s made h]
    exact (Reader.run_building htype h hraw hsockets []).2

/-- What is on its way stays there if the handles that were made for it stay. -/
theorem Carried.of_handles (h : Carried there fromRaw limit reader stranded s parcels)
    {t : Registry (Pid × Handle) (Opened O)}
    (ht : ∀ handle o, s.handles (there, handle) = some ⟨o, true⟩ →
      t (there, handle) = some ⟨o, true⟩) :
    Carried there fromRaw limit reader stranded { s with handles := t } parcels :=
  { h with
    held := fun q hq => (h.held q hq).mono fun handle _ o => ht handle o
    kept := fun handle hmem => (h.kept handle hmem).imp fun o => ht handle o }

/-- All of them are open, and nobody knows of them. -/
theorem Carried.exists_of_mem (h : Carried there fromRaw limit reader stranded s parcels)
    {handle : Handle} (hmem : handle ∈ stranded ++ parcels.flatMap Parcel.handles) :
    ∃ o, s.handles (there, handle) = some ⟨o, true⟩ := by
  rcases List.mem_append.mp hmem with hmem | hmem
  · exact h.kept handle hmem
  · obtain ⟨q, hq, hmem⟩ := List.mem_flatMap.mp hmem
    exact (h.held q hq).exists_of_mem hmem

/-- A handle that is stranded is in no message on its way. -/
theorem Carried.not_named (hcarried : Carried there fromRaw limit reader stranded s parcels)
    {handle : Handle} (hmem : handle ∈ stranded) {bytes : List UInt8}
    (hbytes : bytes ∈ s.inbox.incoming.map Arrival.bytes ++ s.sender.pending)
    {wsaSocket : WsaProtoInfo → Except IoError RawSocket}
    (hsockets : ∀ info, ∃ socket, wsaSocket info = .ok socket) :
    handle ∉ (reader.building wsaSocket [] bytes).named fromRaw := by
  have hline := congrArg (List.map Arrival.bytes) hcarried.line
  rw [List.map_append, List.map_map, List.map_map] at hline
  have hpending : s.sender.pending.map (Arrival.bytes ∘ fun bytes => ⟨bytes, s.waiting⟩)
      = s.sender.pending := List.map_id _
  rw [hpending] at hline
  rw [hline] at hbytes
  obtain ⟨q, hq, rfl⟩ := List.mem_map.mp hbytes
  obtain ⟨-, -, hapart⟩ := List.nodup_append.mp hcarried.nodup
  intro hnamed
  rw [Function.comp_apply, (hcarried.readable q hq).named wsaSocket hsockets] at hnamed
  exact hapart handle hmem handle (List.mem_flatMap.mpr ⟨q, hq, hnamed⟩) rfl

variable [DecidableEq Pid]

/-- Its handles have been made of those of the item. -/
theorem held_parcelOf {made : List (Handle × Handle)}
    (hcan : s.handles.CanCopy (pairs here there made)) {item : Payload p} {sent : List Sent}
    (h : List.Forall₂ Answers item.resources sent)
    (hmade : ∀ c ∈ (handlesOf item.resources).zip (remotes sent), c ∈ made) :
    (parcelOf here s item made sent).Held there (s.handles.put
      (s.handles.copied (fun opened => ⟨opened.object, true⟩) (pairs here there made))) := by
  intro x hx
  unfold parcelOf at hx
  rw [Part.handles_map] at hx
  obtain ⟨c, hc, rfl⟩ := List.mem_map.mp hx
  obtain ⟨opened, hopened, hput⟩ := open_of_made hcan (hmade c (handles_partsOf h ▸ hc))
  exact ⟨opened.object, congrArg (Option.map Opened.object) hopened, hput⟩

/-! ## Steps -/

section Steps

variable [DecidableEq O]

/-- A call at the sending end puts at most the message of the item that it accepts on its way. -/
theorem Carried.call (h : Carried there fromRaw limit reader stranded s parcels)
    {a : Windows.Act (Payload p) Unit} (htyped : (Act.call a : Act p Pid O).Typed reader)
    (hs : s.call here there fromRaw limit a = some s') :
    ∃ (new : Option (Parcel O)) (left : List Handle),
      accepts here limit (s, (.call a : Act p Pid O)) = new.map Parcel.content ∧
      left.length = (new.toList.flatMap Parcel.handles).length ∧
      Carried there fromRaw limit reader (stranded ++ left) s' (parcels ++ new.toList) := by
  obtain ⟨⟨hwhole, hcan, hraw⟩, hs⟩ := Option.ite_none_right_eq_some.mp hs
  obtain rfl := Option.some.inj hs
  have hafter := h.of_handles fun handle o hopen => handles_call hcan (closes_subset a) hopen
  have hsized : (next (Payload.encode limit) s.sender a).Sized limit := sized_next h.sized a
  rcases next_spec h.sized hwhole with
    ⟨hnone, hforwards⟩ |
    ⟨item, w, answers, sent, rfl, hanswers, hfits, haccepted, hsent, hpending, hcopies, hcloses⟩
  · refine ⟨none, [], ?_, rfl, ?_⟩
    · unfold accepts
      cases a with
      | startSend item w answers =>
        dsimp only
        rw [hnone]
        rfl
      | pollComplete w => rfl
      | poll r decode => rfl
    · rw [Option.toList_none, List.append_nil, List.append_nil]
      refine ⟨hsized, h.room, ?_, h.readable, hafter.held, hafter.kept, h.nodup⟩
      dsimp only
      rw [hnone, ← h.line, ← line_of_forwards hforwards, List.append_assoc]
      rfl
  · obtain ⟨accepted, haccepted⟩ := Option.isSome_iff_exists.mp haccepted
    have hall := answers_of_serve answers.send _ 0 _ hanswers
    have hfirst : List.Forall₂ Answers item.resources (sent.take item.resources.length) := by
      have htake := List.forall₂_take item.resources.length hall
      rwa [List.take_left] at htake
    have hsecond : List.Forall₂ Answers item.resources (sent.drop item.resources.length) := by
      have hdrop := List.forall₂_drop item.resources.length hall
      rwa [List.drop_left] at hdrop
    have hhandles := handles_parcelOf here s (copies limit s.sender (.startSend item w answers))
      hsecond
    have hmade : (copies limit s.sender (.startSend item w answers)).map Prod.snd
        = remotes (sent.take item.resources.length)
          ++ remotes (sent.drop item.resources.length) := by
      rw [hcopies, ← remotes_append, List.take_append_drop]
      exact List.map_snd_zip (Nat.le_of_eq (length_remotes hall))
    refine ⟨some (parcelOf here s item (copies limit s.sender (.startSend item w answers))
      (sent.drop item.resources.length)), remotes (sent.take item.resources.length), ?_, ?_, ?_⟩
    · unfold accepts
      dsimp only
      rw [haccepted, hanswers, Option.map_some, content_parcelOf]
    · rw [Option.toList_some, List.flatMap_singleton, hhandles, length_remotes hfirst,
        length_remotes hsecond]
    · obtain ⟨hnew, hfree⟩ := free_of_canCopy hcan
      rw [hmade] at hnew hfree
      rw [hcloses] at hafter ⊢
      refine ⟨hsized, h.room, ?_, ?_, ?_, ?_, ?_⟩
      · dsimp only
        rw [hsent, hpending, List.drop_left, haccepted, List.map_append, ← h.line]
        rfl
      · intro q hq
        rcases List.mem_append.mp hq with hq | hq
        · exact h.readable q hq
        · obtain rfl := List.mem_singleton.mp hq
          refine readable_parcelOf here s _ hsecond htyped.1 htyped.2 hfits fun handle hmem => ?_
          obtain ⟨c, hc, rfl⟩ := List.mem_map.mp (hmade ▸ List.mem_append_right _ hmem)
          exact hraw c hc
      · intro q hq
        rcases List.mem_append.mp hq with hq | hq
        · exact hafter.held q hq
        · obtain rfl := List.mem_singleton.mp hq
          refine (held_parcelOf hcan hsecond fun c hc => ?_).mono fun handle _ o hopen =>
            (Registry.close_of_notMem List.not_mem_nil).trans hopen
          -- the second pass comes after the first one
          rw [hcopies, handlesOf_append, ← List.take_append_drop item.resources.length sent,
            remotes_append, List.zip_append]
          · exact List.mem_append_right _ hc
          · exact (length_remotes hfirst).symm
      · intro handle hmem
        rcases List.mem_append.mp hmem with hmem | hmem
        · exact hafter.kept handle hmem
        · obtain ⟨c, hc, rfl⟩ := List.mem_map.mp (hmade ▸ List.mem_append_left _ hmem)
          obtain ⟨opened, -, hput⟩ := open_of_made hcan hc
          exact ⟨opened.object, (Registry.close_of_notMem List.not_mem_nil).trans hput⟩
      · rw [List.flatMap_append, Option.toList_some, List.flatMap_singleton, hhandles]
        have hperm : (stranded ++ remotes (sent.take item.resources.length)
              ++ (parcels.flatMap Parcel.handles ++ remotes (sent.drop item.resources.length))).Perm
            ((stranded ++ parcels.flatMap Parcel.handles)
              ++ (remotes (sent.take item.resources.length)
                ++ remotes (sent.drop item.resources.length))) := by
          simp only [List.append_assoc]
          refine List.Perm.append_left stranded ?_
          rw [← List.append_assoc, ← List.append_assoc]
          exact List.Perm.append_right _ List.perm_append_comm
        refine hperm.nodup_iff.mpr (List.nodup_append.mpr ⟨h.nodup, hnew, ?_⟩)
        rintro handle hold _ hmem rfl
        obtain ⟨o, hopen⟩ := h.exists_of_mem hold
        rw [hfree handle hmem] at hopen
        cases hopen

omit [DecidableEq O] in
theorem poll_eq (s : Link Pid O) (ready : Except IoError Unit)
    (wsaSocket : WsaProtoInfo → Except IoError RawSocket) :
    s.poll there fromRaw reader ready wsaSocket = some { s with
      inbox := {
        channel := (s.inbox.channel.poll wsaewouldblock (MessageChannel.read (s.inbox.answer ready))
          (deserialize (Inbox.decode fromRaw (reader.building wsaSocket []))) ()).2.1
        incoming := if ready.isOk then s.inbox.incoming.tail else s.inbox.incoming }
      handles := s.handles.amend
        ((s.inbox.adopted fromRaw (reader.building wsaSocket []) (.poll ready)).map
          fun o => (there, o.handle))
        fun opened => { opened with forMessage := false } } := rfl

omit [DecidableEq O] in
/-- A poll at the receiving end returns the item of the first message on its way, with handles for
the objects that were sent, or nothing. -/
theorem Carried.poll (h : Carried there fromRaw limit reader stranded s parcels)
    {ready : Except IoError Unit} {wsaSocket : WsaProtoInfo → Except IoError RawSocket}
    (hsockets : ∀ info, ∃ socket, wsaSocket info = .ok socket)
    (hs : s.poll there fromRaw reader ready wsaSocket = some s') :
    AdoptsFresh there fromRaw reader (s, (.poll ready wsaSocket : Act p Pid O)) ∧
      ∃ old : Option (Parcel O), ∃ rest, parcels = old.toList ++ rest ∧
        delivers there fromRaw reader (s, (.poll ready wsaSocket : Act p Pid O))
          = old.map Parcel.content ∧
        Carried there fromRaw limit reader stranded s' rest := by
  rw [poll_eq] at hs
  obtain rfl := Option.some.inj hs
  have hroom : (s.inbox.channel.poll wsaewouldblock
      (MessageChannel.read (s.inbox.answer ready))
      (deserialize (Inbox.decode fromRaw (reader.building wsaSocket []))) ()).2.1.rxBuffer.length
      = limit := by
    refine (BincodeDatagram.length_rxBuffer_poll wsaewouldblock ?_).trans h.room
    intro message hmessage
    unfold MessageChannel.read at hmessage
    cases hanswer : s.inbox.answer ready with
    | error e =>
      rw [hanswer] at hmessage
      cases hmessage
    | ok bytes =>
      rw [hanswer] at hmessage
      obtain rfl : bytes.take s.inbox.channel.rxBuffer.length = message := Except.ok.inj hmessage
      exact List.length_take_le _ _
  rcases answer_cases s.inbox ready with
    ⟨e, hanswer, hincoming⟩ | ⟨m, rest, rfl, hincoming, hanswer⟩
  · -- nothing is read
    have hadopted : s.inbox.adopted fromRaw (reader.building wsaSocket []) (.poll ready) = [] := by
      unfold Inbox.adopted
      dsimp only
      rw [hanswer]
      rfl
    have hread : (MessageChannel.read (s.inbox.answer ready) s.inbox.channel.rxBuffer.length
        s.inbox.channel.io).1 = .error e := by
      rw [hanswer]
      rfl
    have hafter := h.of_handles (t := s.handles.amend [] fun opened => { opened with
      forMessage := false }) fun handle o hopen =>
        (Registry.amend_of_notMem List.not_mem_nil).trans hopen
    rw [hadopted]
    refine ⟨?_, none, parcels, rfl, ?_, h.sized, hroom, ?_, h.readable, hafter.held, hafter.kept,
      h.nodup⟩
    · unfold AdoptsFresh
      dsimp only
      rw [hadopted]
      exact ⟨List.nodup_nil, nofun⟩
    · unfold delivers
      dsimp only
      split
      · next heq => exact absurd heq (BincodeDatagram.poll_of_error wsaewouldblock hread _)
      · rfl
    · dsimp only
      rw [hincoming, h.line]
  · -- the first message is read
    have hline := h.line
    rw [hincoming] at hline
    cases parcels with
    | nil => cases hline
    | cons q parcels =>
      obtain ⟨rfl, htail⟩ := List.cons.inj hline
      have hreadable := h.readable q (.head _)
      have hheld := h.held q (.head _)
      obtain ⟨hstranded, hothers, hdisjoint⟩ := List.nodup_append.mp h.nodup
      rw [List.flatMap_cons] at hothers hdisjoint
      obtain ⟨hown, hothers, hapart⟩ := List.nodup_append.mp hothers
      have hbytes : q.arrival.bytes.take s.inbox.channel.rxBuffer.length = q.arrival.bytes :=
        List.take_of_length_le (by rw [h.room]; exact hreadable.fits)
      have hadopted : (s.inbox.adopted fromRaw (reader.building wsaSocket []) (.poll (.ok ()))).map
          Owned.handle = q.handles := by
        have hreads : s.inbox.reads (.poll (.ok ())) = some q.arrival :=
          congrArg List.head? hincoming
        rw [Inbox.handles_adopted hreads, hbytes, if_neg hreadable.ne,
          hreadable.named wsaSocket hsockets]
      have hkeys : (s.inbox.adopted fromRaw (reader.building wsaSocket []) (.poll (.ok ()))).map
          (fun o => (there, o.handle)) = q.handles.map (there, ·) := by
        rw [← hadopted, List.map_map]
        rfl
      have hread : (MessageChannel.read (s.inbox.answer (.ok ()))
          s.inbox.channel.rxBuffer.length s.inbox.channel.io).1 = .ok q.arrival.bytes := by
        rw [hanswer]
        exact congrArg Except.ok hbytes
      -- the handles of this message become the user's, and no others do
      have hafter : ∀ handle ∉ q.handles, ∀ o, s.handles (there, handle) = some ⟨o, true⟩ →
          s.handles.amend (q.handles.map (there, ·)) (fun opened => { opened with
            forMessage := false }) (there, handle) = some ⟨o, true⟩ := by
        intro handle hnot o hopen
        rw [Registry.amend_of_notMem, hopen]
        intro hkey
        obtain ⟨handle', hmem, heq⟩ := List.mem_map.mp hkey
        obtain rfl : handle' = handle := congrArg Prod.snd heq
        exact hnot hmem
      rw [hkeys]
      refine ⟨?_, some q, parcels, rfl, ?_, h.sized, hroom, ?_,
        fun q' hq' => h.readable q' (.tail _ hq'), fun q' hq' => ?_, fun handle hmem => ?_,
        List.nodup_append.mpr ⟨hstranded, hothers, fun a ha b hb =>
          hdisjoint a ha b (List.mem_append_right _ hb)⟩⟩
      · unfold AdoptsFresh
        dsimp only
        rw [hadopted]
        exact ⟨hown, fun handle hmem => hheld.exists_of_mem hmem⟩
      · have hrun : (deserialize (Inbox.decode fromRaw (reader.building wsaSocket []))
            q.arrival.bytes (MessageChannel.read (s.inbox.answer (.ok ()))
              s.inbox.channel.rxBuffer.length s.inbox.channel.io).2 ()).result
            = .ok (q.parts.map (Part.map Prod.fst)) := hreadable.run wsaSocket hsockets
        unfold delivers
        dsimp only
        rw [BincodeDatagram.poll_of_message wsaewouldblock hread hreadable.ne hrun, Option.map_some]
        exact congrArg some hheld.content_eq
      · dsimp only
        rw [hincoming]
        exact htail
      · refine (h.held q' (.tail _ hq')).mono fun handle hmem o hopen => hafter handle ?_ o hopen
        exact fun hq => hapart handle hq handle (List.mem_flatMap.mpr ⟨q', hq', hmem⟩) rfl
      · refine (h.kept handle hmem).imp fun o hopen => hafter handle ?_ o hopen
        exact fun hq => hdisjoint handle hmem handle (List.mem_append_left _ hq) rfl

/-- Whatever is done, a message goes on its way when its item is accepted and leaves it when its
item is returned. -/
theorem Carried.step (h : Carried there fromRaw limit reader stranded s parcels) {a : Act p Pid O}
    (htyped : a.Typed reader) (hs : s.step here there fromRaw limit reader a = some s') :
    AdoptsFresh there fromRaw reader (s, a) ∧
      ∃ (old new : Option (Parcel O)) (rest : List (Parcel O)) (left : List Handle),
        parcels = old.toList ++ rest ∧
        delivers there fromRaw reader (s, a) = old.map Parcel.content ∧
        accepts here limit (s, a) = new.map Parcel.content ∧
        left.length = (new.toList.flatMap Parcel.handles).length ∧
        Carried there fromRaw limit reader (stranded ++ left) s' (rest ++ new.toList) := by
  cases a with
  | call a =>
    obtain ⟨new, left, haccepts, hleft, hcarried⟩ := h.call htyped hs
    exact ⟨trivial, none, new, parcels, left, rfl, rfl, haccepts, hleft, hcarried⟩
  | poll ready wsaSocket =>
    obtain ⟨hadopts, old, rest, hparcels, hdelivers, hcarried⟩ := h.poll (p := p) htyped hs
    refine ⟨hadopts, old, none, rest, [], hparcels, hdelivers, rfl, rfl, ?_⟩
    rwa [Option.toList_none, List.append_nil, List.append_nil]
  | obtain process handle object =>
    obtain ⟨hfree, hs⟩ := Option.ite_none_right_eq_some.mp hs
    obtain rfl := Option.some.inj hs
    refine ⟨trivial, none, none, parcels, [], rfl, rfl, rfl, rfl, ?_⟩
    rw [Option.toList_none, List.append_nil, List.append_nil]
    exact h.of_handles fun handle' o hopen => Registry.put_of_eq_some hfree hopen
  | close process handle =>
    unfold Link.step at hs
    dsimp only at hs
    split at hs
    · next o hown =>
      obtain rfl := Option.some.inj hs
      refine ⟨trivial, none, none, parcels, [], rfl, rfl, rfl, rfl, ?_⟩
      rw [Option.toList_none, List.append_nil, List.append_nil]
      refine h.of_handles fun handle' o' hopen => ?_
      -- a handle that is on its way is not the user's to close
      rw [Registry.close_of_notMem]
      · exact hopen
      · intro hmem
        rw [List.mem_singleton.mp hmem, hown] at hopen
        cases hopen
    · cases hs

end Steps

/-! ## Runs -/

section Runs

variable [DecidableEq O] {h : List (Link Pid O × Act p Pid O)}

/-- What was on its way or has been accepted since has been returned or is on its way. For every
handle that has been accepted one more is stranded. -/
theorem Carried.run (hcarried : Carried there fromRaw limit reader stranded s parcels)
    (hr : Run ((system here there fromRaw limit reader).startingAt s) h s')
    (htyped : ∀ e ∈ h, e.2.Typed reader) :
    (∀ e ∈ h, AdoptsFresh there fromRaw reader e) ∧ ∃ (rest : List (Parcel O)) (left : List Handle),
      parcels.map Parcel.content ++ h.filterMap (accepts here limit)
        = h.filterMap (delivers there fromRaw reader) ++ rest.map Parcel.content ∧
      left.length = ((h.filterMap (accepts here limit)).flatMap Part.handles).length ∧
      Carried there fromRaw limit reader (stranded ++ left) s' rest := by
  refine hr.history (fun e => e.2.Typed reader) (fun h s' =>
    (∀ e ∈ h, AdoptsFresh there fromRaw reader e) ∧ ∃ (rest : List (Parcel O)) (left : List Handle),
      parcels.map Parcel.content ++ h.filterMap (accepts here limit)
        = h.filterMap (delivers there fromRaw reader) ++ rest.map Parcel.content ∧
      left.length = ((h.filterMap (accepts here limit)).flatMap Part.handles).length ∧
      Carried there fromRaw limit reader (stranded ++ left) s' rest) ?_ ?_ htyped
  · rintro s' rfl
    exact ⟨List.forall_mem_nil _, parcels, [], List.append_nil _, rfl, by rwa [List.append_nil]⟩
  · rintro h s a s' - - ⟨hadopts, parcels', left, hledger, hleft, hcarried⟩ htyped hs
    obtain ⟨hadopt, old, new, rest, left', rfl, hdelivers, haccepts, hleft', hcarried⟩ :=
      hcarried.step htyped hs
    have hone : ∀ f : Link Pid O × Act p Pid O → Option (List (Part (Option O))),
        [(s, a)].filterMap f = (f (s, a)).toList := fun f => trace_singleton f (s, a)
    refine ⟨?_, rest ++ new.toList, left ++ left', ?_, ?_, ?_⟩
    · intro e he
      rcases List.mem_append.mp he with he | he
      · exact hadopts e he
      · obtain rfl := List.mem_singleton.mp he
        exact hadopt
    · rw [List.filterMap_append, List.filterMap_append, ← List.append_assoc, hledger, hone, hone,
        hdelivers, haccepts]
      simp only [List.map_append, Option.toList_map, List.append_assoc]
    · rw [List.filterMap_append, List.flatMap_append, List.length_append, List.length_append, hleft,
        hone, haccepts, hleft']
      cases new with
      | none => rfl
      | some q =>
        rw [Option.map_some, Option.toList_some, Option.toList_some, List.flatMap_singleton,
          List.flatMap_singleton]
        unfold Parcel.content Parcel.handles
        rw [Part.handles_map, List.length_map, List.length_map]
    · rwa [← List.append_assoc]

theorem carried_of_init (hinit : (system (p := p) here there fromRaw limit reader).init s) :
    Carried there fromRaw limit reader [] s [] := by
  obtain ⟨⟨io, hsender⟩, hroom, hincoming⟩ := hinit
  refine ⟨?_, hroom, ?_, List.forall_mem_nil _, List.forall_mem_nil _, List.forall_mem_nil _,
    List.nodup_nil⟩
  · rw [hsender]
    exact BincodeDatagram.sized_wrap io limit
  · rw [hincoming, hsender]
    rfl

/--
Items arrive in their order, with handles for the objects that were sent.

Every item that is returned is the next one of those that were accepted. Each of its handles stands
for the object that the handle in its place stood for when the item was accepted, is nobody else's,
and becomes one object. Once nothing is on its way every item that was accepted has been returned.
-/
theorem items_arrive (hr : Run (system here there fromRaw limit reader) h s)
    (htyped : ∀ e ∈ h, e.2.Typed reader) :
    (h.filterMap (delivers there fromRaw reader) <+: h.filterMap (accepts here limit)) ∧
      (∀ e ∈ h, AdoptsFresh there fromRaw reader e) ∧
      (s.inbox.incoming = [] → s.sender.bufferedSend = none →
        h.filterMap (delivers there fromRaw reader) = h.filterMap (accepts here limit)) := by
  obtain ⟨s₀, hinit, hr⟩ := hr.exists_start
  obtain ⟨hadopts, rest, left, hledger, -, hcarried⟩ := (carried_of_init hinit).run hr htyped
  rw [List.map_nil, List.nil_append] at hledger
  refine ⟨⟨rest.map Parcel.content, hledger.symm⟩, hadopts, fun hincoming hnone => ?_⟩
  have hline := hcarried.line
  unfold BincodeDatagram.pending at hline
  rw [hincoming, hnone] at hline
  obtain rfl := List.map_eq_nil_iff.mp hline.symm
  rw [hledger, List.map_nil, List.append_nil]

/--
For every handle that is sent one is left behind.

In the receiving process at least as many handles are open as handles have been sent, which no
message names. Nobody knows of them: they are neither adopted nor closed, whatever is done from now
on.
-/
theorem handles_stranded (hr : Run (system here there fromRaw limit reader) h s)
    (htyped : ∀ e ∈ h, e.2.Typed reader) :
    ∃ stranded : List Handle, stranded.Nodup ∧
      stranded.length = ((h.filterMap (accepts here limit)).flatMap Part.handles).length ∧
      ∀ (k : List (Link Pid O × Act p Pid O)) (s' : Link Pid O),
        Run ((system here there fromRaw limit reader).startingAt s) k s' →
        (∀ e ∈ k, e.2.Typed reader) →
        ∀ handle ∈ stranded, (∃ o, s'.handles (there, handle) = some ⟨o, true⟩) ∧
          ∀ bytes ∈ s'.inbox.incoming.map Arrival.bytes ++ s'.sender.pending,
            ∀ wsaSocket, (∀ info, ∃ socket, wsaSocket info = .ok socket) →
              handle ∉ (reader.building wsaSocket [] bytes).named fromRaw := by
  obtain ⟨s₀, hinit, hr⟩ := hr.exists_start
  obtain ⟨-, rest, left, -, hleft, hcarried⟩ := (carried_of_init hinit).run hr htyped
  rw [List.nil_append] at hcarried
  refine ⟨left, (List.nodup_append.mp hcarried.nodup).1, hleft, fun k s' hk htyped' handle hmem => ?_⟩
  obtain ⟨-, rest', left', -, -, hlater⟩ := hcarried.run hk htyped'
  have hstranded : handle ∈ left ++ left' := List.mem_append_left _ hmem
  exact ⟨hlater.kept handle hstranded,
    fun bytes hbytes wsaSocket hsockets => hlater.not_named hstranded hbytes hsockets⟩

end Runs

end Carrying

/-! ## A file that is closed once it has been sent -/

open LittleEndian

/-- The handle 3 of one process is a file. -/
def fileLink : Link Bool Nat where
  sender := .wrap ⟨⟨5, []⟩, true, .remoteProcess ⟨4, 77⟩, [], []⟩ 64
  inbox := ⟨.wrap ⟨⟨6, []⟩, false, .remoteProcess ⟨8, 76⟩, [], []⟩ 64, []⟩
  waiting := []
  handles k := if k = (false, 3) then some ⟨7, false⟩ else none

/-- Handles are numbered from 100 on in the target. -/
def fromHundred (n : Nat) : SendAnswers := { generous n with duplicateHandle _ _ := .ok (100 + n) }

/-- The file is sent, closed and received. -/
def fileActs : List (Act .w64 Bool Nat) :=
  [.call (.startSend (.sendableFile 3) (.error .wouldBlock)
      ⟨fromHundred, ⟨fun _ => true, fun _ _ => true⟩⟩),
    .close false 3, .call (.pollComplete (.ok 8)), .poll (.ok ()) fun _ => .ok 0]

def fileSystem : System (Link Bool Nat) (Act .w64 Bool Nat) :=
  system false true Inbox.notNull 64 (.winHandle .file .done)

theorem file_run : ∃ h s, Run fileSystem h s ∧ (∀ e ∈ h, e.2.Typed (.winHandle .file .done)) ∧
    (s.handles (false, 3) = none ∧ s.handles (true, 101) = some ⟨7, false⟩) ∧
    (h.filterMap (accepts false 64)).map Part.handles = [[some 7]] ∧
    s.inbox.incoming = [] ∧ s.sender.bufferedSend = none := by
  have hsome : (fileSystem.replay fileLink fileActs).isSome = true := by decide +kernel
  have htables : (fileSystem.replay fileLink fileActs).map (fun x =>
      (x.2.handles (false, 3), x.2.handles (true, 101))) = some (none, some ⟨7, false⟩) := by
    decide +kernel
  have hends : (fileSystem.replay fileLink fileActs).map (fun x =>
      (x.2.inbox.incoming.length, x.2.sender.bufferedSend)) = some (0, none) := by decide +kernel
  have haccepts : (fileSystem.replay fileLink fileActs).map (fun x =>
      (x.1.filterMap (accepts false 64)).map Part.handles) = some [[some 7]] := by decide +kernel
  obtain ⟨⟨h, s⟩, hreplay⟩ := Option.isSome_iff_exists.mp hsome
  rw [hreplay] at htables hends haccepts
  obtain ⟨hincoming, hnone⟩ := Prod.mk.inj (Option.some.inj hends)
  have hall : ∀ a ∈ fileActs, a.Typed (.winHandle .file .done) :=
    List.forall_mem_cons.mpr ⟨⟨rfl, by decide⟩, List.forall_mem_cons.mpr ⟨trivial,
      List.forall_mem_cons.mpr ⟨trivial, List.forall_mem_singleton.mpr fun _ => ⟨0, rfl⟩⟩⟩⟩
  refine ⟨h, s, Run.of_replay fileActs ⟨⟨_, rfl⟩, rfl, rfl⟩ hreplay, fun e he => hall e.2 ?_,
    Prod.mk.inj (Option.some.inj htables), Option.some.inj haccepts,
    List.length_eq_zero_iff.mp hincoming, hnone⟩
  rw [← System.actions_of_replay hreplay]
  exact List.mem_map.mpr ⟨e, he, rfl⟩

/-- It is received as the handle 101. -/
theorem items_arrive_file : ∃ h s, Run fileSystem h s ∧
    (s.handles (false, 3) = none ∧ s.handles (true, 101) = some ⟨7, false⟩) ∧
    (h.filterMap (accepts false 64)).map Part.handles = [[some 7]] ∧
    h.filterMap (delivers true Inbox.notNull (.winHandle .file .done))
      = h.filterMap (accepts false 64) := by
  obtain ⟨h, s, hr, htyped, htables, haccepts, hincoming, hnone⟩ := file_run
  exact ⟨h, s, hr, htables, haccepts, (items_arrive hr htyped).2.2 hincoming hnone⟩

/-- The handle of the first pass is still there. -/
theorem handles_stranded_file : ∃ h s, ∃ stranded : List Handle, Run fileSystem h s ∧
    stranded.length = 1 ∧ ∀ handle ∈ stranded, ∃ o, s.handles (true, handle) = some ⟨o, true⟩ := by
  obtain ⟨h, s, hr, htyped, -, haccepts, -, -⟩ := file_run
  obtain ⟨stranded, -, hlength, hkept⟩ := handles_stranded hr htyped
  refine ⟨h, s, stranded, hr, ?_, fun handle hmem =>
    (hkept [] s (.nil rfl) (List.forall_mem_nil _) handle hmem).1⟩
  rw [hlength, List.flatMap_def, haccepts]
  rfl

end Link

end SandboxIpc.Windows
