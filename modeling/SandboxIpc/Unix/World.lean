import SandboxIpc.Infra.Registry
import SandboxIpc.Unix.Duplicates
import SandboxIpc.Unix.Reading
import SandboxIpc.Unix.Travel

/-!
# Shared memory among processes

Processes that make, clone, drop, send and receive shared memory, each with its table of descriptors.
The kernel carries the descriptors of a message from the table of one process to that of another. The
code of the users is honest: what is sent over a channel is of the type that the other end receives.

* `Description`, `Descriptors` — what the descriptors of a process refer to
* `Share` — a handle, with its descent
* `Net` — the processes and the ends of channels between them
* `World`, `World.step` — the processes at work
-/

namespace SandboxIpc.Unix

open Infra

deriving instance DecidableEq for SharedMem

/-! ## Descriptors -/

/-- What an open descriptor refers to. -/
inductive Description
  | memory (object : Nat) (writable : Bool)
  | other
  deriving DecidableEq

/-- Not in the source: what a descriptor is open for. -/
inductive Keeper
  /-- A `_SharedMem`, which closes it in the end. -/
  | share (id : Nat)
  /-- A message. Nobody closes what `HandleSender::send` has duplicated. -/
  | message
  /-- The user, or nobody. It may be closed at any time. -/
  | user
  deriving DecidableEq

structure Slot where
  description : Description
  keeper : Keeper
  deriving DecidableEq

abbrev Descriptors := Registry RawFd Slot

namespace Descriptors

variable (t : Descriptors)

def descriptions (fds : List RawFd) : List Description :=
  fds.filterMap fun fd => (t fd).map Slot.description

/-- What `dup` makes of some descriptors; each of `copies` is a descriptor and its duplicate. -/
def copied (keeper : Keeper) (copies : List (RawFd × RawFd)) : List (RawFd × Slot) :=
  Registry.copied t (fun slot => ⟨slot.description, keeper⟩) copies

end Descriptors

/-! ## Handles -/

variable {p : PointerWidth}

/-- A `shm::SharedMem`. -/
structure Share (p : PointerWidth) where
  /-- Which `Arc`. -/
  id : Nat
  inner : SharedMem p
  token : Token
  /-- Not in the source: the object it descends from. -/
  object : Nat
  /-- Not in the source: a `clone_with_access(Read)` is among the steps that have led to it. -/
  readOnly : Bool
  deriving DecidableEq

namespace Share

/-- A handle as it is serialized. -/
def field (s : Share p) : Field p RawFd :=
  .memory s.inner.rwFd s.inner.roFd s.inner.size s.token

/-- The descriptions that a handle of this descent is entitled to. -/
def origin (s : Share p) : Field p Description :=
  .memory (if s.readOnly then none else some (.memory s.object true)) (.memory s.object false)
    s.inner.size s.token

end Share

/-- A process. -/
structure Peer (p : PointerWidth) where
  fds : Descriptors
  shares : List (Share p)
  /-- The number of the next `Arc`. -/
  made : Nat

/-- A part of an item that is sent. -/
inductive Content (p : PointerWidth)
  | plain (bytes : List UInt8)
  | share (s : Share p)
  | fd (fd : RawFd)

namespace Content

def field : Content p → Field p RawFd
  | .plain bytes => .plain bytes
  | .share s => s.field
  | .fd d => .fd d

def origin : Content p → Field p Description
  | .plain bytes => .plain bytes
  | .share s => s.origin
  | .fd _ => .fd .other

/-- The process has it to send. Its other descriptors are not shared memory. -/
def HeldBy (peer : Peer p) : Content p → Prop
  | .plain _ => True
  | .share s => s ∈ peer.shares
  | .fd d => peer.fds d = some ⟨.other, .user⟩

instance (peer : Peer p) (c : Content p) : Decidable (c.HeldBy peer) := by
  unfold HeldBy
  cases c <;> infer_instance

end Content

/-! ## The processes and their channels -/

/-- A message that the kernel has taken and not yet delivered. -/
structure Parcel (p : PointerWidth) where
  bytes : List UInt8
  descriptions : List Description
  /-- Not in the source: the item it was made of. -/
  origin : List (Field p Description)

/-- One end of a channel. -/
structure Link (libc : Libc) (p : PointerWidth) where
  state : State libc
  /-- Not in the source: the item that was accepted last, and the reads since then. -/
  item : Option Item
  /-- Not in the source: what that item was made of. -/
  origin : List (Field p Description)
  /-- What is on its way to this end, oldest first. -/
  incoming : List (Parcel p)

/-- Something that was done on behalf of `origin`, and the descriptions that were duplicated or sent
thereby. -/
structure Deed (p : PointerWidth) where
  origin : List (Field p Description)
  given : List Description

/-- The ends of channels between the processes: the process an end is in, the end it is connected to,
what it receives, and the size limit. -/
structure Net (P E : Type) where
  home : E → P
  other : E → E
  reader : E → Reader
  limit : E → Nat

structure World (P E : Type) (libc : Libc) (p : PointerWidth) where
  peer : P → Peer p
  link : E → Link libc p
  /-- How many objects have been made. -/
  objects : Nat
  /-- Not in the source: what has been done so far. -/
  log : List (Deed p)

/-- The `serialize` of a descriptor, and what has been duplicated so far. -/
def serveCopying (answers : Nat → DupAnswers) (n : Nat) (fd : RawFd)
    (x : Option HandleSender × List (RawFd × RawFd)) :
    Except String Nat × Option HandleSender × List (RawFd × RawFd) :=
  let (index, sender) := SendableFd.serialize x.1 fd (answers n)
  (index, sender, x.2 ++ ((x.1.bind fun s => s.obtains fd (answers n)).map (fd, ·)).toList)

/-- The descriptors that are duplicated in a serialization, each with its duplicate. -/
def Encoder.copies (answers : Nat → DupAnswers) (code : Encoder) (buffer : List UInt8) :
    List (RawFd × RawFd) :=
  (code.code.run (serveCopying answers) 0 (some .new, []) ⟨buffer, 0⟩).2.1.2

namespace State

variable {T R : Type} {libc : Libc} (s : State libc)

/-- The descriptors that are duplicated in a call. The serialization does not begin while another item
is pending. -/
def copies (encode : T → Encoder) : Act T → List (RawFd × RawFd)
  | .startSend item w answers =>
    match (s.channel.pollComplete libc.eagain (MessageChannel.write w)).1 with
    | .ok (.ready ()) => (encode item).copies answers s.channel.txBuffer
    | _ => []
  | _ => []

/-- The value that a call hands over. -/
def received (decode : List UInt8 → Decoder R) (r : ReadAnswers) (answers : Nat → FcntlAnswers) :
    Option R :=
  match (s.channel.poll libc.eagain (MessageChannel.read r) (deserialize answers decode)
    s.context).1 with
  | .ok (.ready (some value)) => some value
  | _ => none

end State

namespace Net

variable [Bincode] {P E : Type} (net : Net P E) (e : E)

def encode (item : List (Content p)) : Encoder :=
  encoder (Bincode.serializeInto usizeBytes (net.limit e)
    ((item.map Content.field).flatMap Field.pieces))

def decode : List UInt8 → Decoder (List (Field p RawFd)) := (net.reader e).decoder []

/-- A call at an end of a channel. -/
abbrev Call (p : PointerWidth) := Act (List (Content p))

variable {libc : Libc}

def next (s : State libc) (a : Call p) : State libc :=
  Unix.next (net.encode e) (net.decode (p := p) e) s a

def copies (s : State libc) (a : Call p) : List (RawFd × RawFd) := s.copies (net.encode e) a

/-- The messages the kernel takes in a call. -/
def taken (s : State libc) (a : Call p) : List Message :=
  (net.next e s a).channel.io.socket.sent.drop s.channel.io.socket.sent.length

/-- The fields of the message that a call hands over. -/
def received (s : State libc) (r : ReadAnswers) (answers : Nat → FcntlAnswers) :
    List (Field p RawFd) :=
  (s.received (net.decode e) r answers).getD []

end Net

/-- The item of a call that sends one. -/
def Act.item {T : Type} : Act T → Option T
  | .startSend item _ _ => some item
  | _ => none

/-- What is received, as new handles. The descent is that of what was sent. -/
def adopt : Nat → List (Field p RawFd) → List (Field p Description) → List (Share p)
  | id, .memory rw ro size token :: fields, .memory rw' ro' _ _ :: origin =>
    { id
      inner := ⟨rw, ro, size⟩
      token
      object := match ro' with
        | .memory object _ => object
        | .other => 0
      readOnly := rw'.isNone } :: adopt (id + 1) fields origin
  | id, _ :: fields, _ :: origin => adopt id fields origin
  | _, _, _ => []

namespace Descriptors

/-- The descriptors that `recvmsg` installs. -/
def arrived (fds : List RawFd) (descriptions : List Description) : List (RawFd × Slot) :=
  fds.zip (descriptions.map fun d => ⟨d, .user⟩)

/-- New handles own the descriptors they are made of. -/
def claim (t : Descriptors) (shares : List (Share p)) : Descriptors := fun fd =>
  match shares.find? fun s => fd ∈ s.inner.fds with
  | some s => (t fd).map fun slot => { slot with keeper := .share s.id }
  | none => t fd

end Descriptors

namespace World

variable {P E : Type} [DecidableEq P] [DecidableEq E] {libc : Libc}

inductive Act (P E : Type) (p : PointerWidth)
  | new (i : P) (size : Usize p) (token : Token) (answers : NewAnswers)
  /-- `Clone`. A map holds a handle as well. -/
  | clone (i : P) (s : Share p)
  | cloneWithAccess (i : P) (s : Share p) (access : Access) (dup : Nat → Except IoError RawFd)
  | drop (i : P) (s : Share p)
  /-- The user gets a descriptor from elsewhere. -/
  | obtain (i : P) (fd : RawFd)
  /-- The user closes a descriptor. -/
  | close (i : P) (fd : RawFd)
  /-- A call at an end of a channel. -/
  | call (e : E) (a : Net.Call p)

variable (w : World P E libc p)

def setPeer (i : P) (peer : Peer p) : World P E libc p :=
  { w with peer := Function.update w.peer i peer }

def setLink (e : E) (link : Link libc p) : World P E libc p :=
  { w with link := Function.update w.link e link }

def note (deeds : List (Deed p)) : World P E libc p := { w with log := w.log ++ deeds }

/-- `SharedMem::new`. What it has opened is closed again if it fails. -/
def new (i : P) (size : Usize p) (token : Token) (answers : NewAnswers) :
    Option (World P E libc p) :=
  let peer := w.peer i
  match SharedMem.new size answers with
  | .error _ => some w
  | .ok m =>
    let share : Share p := ⟨peer.made, m, token, w.objects, false⟩
    if peer.fds.Free m.fds then
      some { w.setPeer i {
          fds := peer.fds.put (m.fds.zip
            [⟨.memory w.objects true, .share peer.made⟩, ⟨.memory w.objects false, .share peer.made⟩])
          shares := peer.shares ++ [share]
          made := peer.made + 1 } with objects := w.objects + 1 }
    else none

def cloneWithAccess (i : P) (s : Share p) (access : Access) (dup : Nat → Except IoError RawFd) :
    Option (World P E libc p) :=
  let peer := w.peer i
  let (result, copies) := s.inner.clone dup access
  if s ∈ peer.shares ∧ peer.fds.CanCopy copies then
    let deed : Deed p := ⟨[s.origin], peer.fds.descriptions (copies.map Prod.fst)⟩
    match result with
    | .error _ =>
      some ((w.setPeer i { peer with
        fds := peer.fds.put (peer.fds.copied .user copies) }).note [deed])
    | .ok inner =>
      some ((w.setPeer i {
        fds := peer.fds.put (peer.fds.copied (.share peer.made) copies)
        shares := peer.shares
          ++ [⟨peer.made, inner, s.token, s.object, s.readOnly || access = .read⟩]
        made := peer.made + 1 }).note [deed])
  else none

/-- The drop of a handle. The last one closes the descriptors. -/
def drop (i : P) (s : Share p) : Option (World P E libc p) :=
  let peer := w.peer i
  if s ∈ peer.shares then
    let shares := peer.shares.erase s
    some (w.setPeer i { peer with
      fds := if ∃ s' ∈ shares, s'.id = s.id then peer.fds else peer.fds.close s.inner.fds
      shares })
  else none

variable [Bincode] (net : Net P E) (e : E)

/-- A call that may send. -/
def transmit (a : Net.Call p) : Option (World P E libc p) :=
  let link := w.link e
  let peer := w.peer (net.home e)
  let s := net.next e link.state a
  let copies := net.copies e link.state a
  let taken := net.taken e link.state a
  let honest := ∀ item ∈ a.item, (∀ c ∈ item, c.HeldBy peer) ∧
    (net.reader (net.other e)).accepts (item.map Content.origin) = true
  if honest ∧ peer.fds.CanCopy copies ∧ ∀ m ∈ taken, ∀ fd ∈ m.fds, (peer.fds fd).isSome then
    let origin := (a.item.getD []).map Content.origin
    let parcels : List (Parcel p) :=
      taken.map fun m => ⟨m.bytes, peer.fds.descriptions m.fds, link.origin⟩
    let w := w.setPeer (net.home e)
      { peer with fds := peer.fds.put (peer.fds.copied .message copies) }
    let w := w.setLink e { link with
      state := s
      item := Item.step (net.encode e) link.item (link.state, a)
      origin := if (accepted (net.encode e) link.state a).isSome then origin else link.origin }
    let far := w.link (net.other e)
    let w := w.setLink (net.other e) { far with incoming := far.incoming ++ parcels }
    some (w.note (⟨origin, peer.fds.descriptions (copies.map Prod.fst)⟩
      :: parcels.map fun q => ⟨q.origin, q.descriptions⟩))
  else none

/-- A call that may receive. -/
def receive (r : ReadAnswers) (answers : Nat → FcntlAnswers) : Option (World P E libc p) :=
  let link := w.link e
  let peer := w.peer (net.home e)
  let a : Net.Call p := .poll r answers
  let link' := { link with
    state := net.next e link.state a
    item := Item.step (net.encode e) link.item (link.state, a) }
  match r.outcome, link.incoming with
  | some (.ok d), q :: rest =>
    if d.bytes = q.bytes ∧ d.fds.length = q.descriptions.length ∧ peer.fds.Free d.fds then
      let shares := adopt peer.made (net.received e link.state r answers) q.origin
      some ((w.setPeer (net.home e) {
          fds := Descriptors.claim (peer.fds.put (Descriptors.arrived d.fds q.descriptions)) shares
          shares := peer.shares ++ shares
          made := peer.made + shares.length }).setLink e { link' with incoming := rest })
    else none
  | some (.ok d), [] =>
    -- the other end is closed
    if d.bytes = [] ∧ d.fds = [] then some (w.setLink e link') else none
  | _, _ => some (w.setLink e link')

def step (w : World P E libc p) : Act P E p → Option (World P E libc p)
  | .new i size token answers => w.new i size token answers
  | .clone i s =>
    let peer := w.peer i
    if s ∈ peer.shares then some (w.setPeer i { peer with shares := peer.shares ++ [s] }) else none
  | .cloneWithAccess i s access dup => w.cloneWithAccess i s access dup
  | .drop i s => w.drop i s
  | .obtain i fd =>
    let peer := w.peer i
    if peer.fds.Free [fd] then
      some (w.setPeer i { peer with fds := peer.fds.put [(fd, ⟨.other, .user⟩)] })
    else none
  | .close i fd =>
    let peer := w.peer i
    match peer.fds fd with
    | some ⟨_, .user⟩ => some (w.setPeer i { peer with fds := peer.fds.close [fd] })
    | _ => none
  | .call e a =>
    match a with
    | .poll r answers => w.receive net e r answers
    | _ => w.transmit net e a

/-- The processes before any of them has used the crate, with channels that have just been made. -/
def system : System (World P E libc p) (Act P E p) where
  init w :=
    (∀ i, (w.peer i).shares = [] ∧ (w.peer i).made = 0 ∧
      ∀ fd slot, (w.peer i).fds fd = some slot → slot = ⟨.other, .user⟩) ∧
    (∀ e, (w.link e).item = none ∧ (w.link e).incoming = [] ∧
      ∃ io, (w.link e).state.channel = .wrap io (net.limit e)) ∧
    w.log = []
  step := step net

end World

end SandboxIpc.Unix
