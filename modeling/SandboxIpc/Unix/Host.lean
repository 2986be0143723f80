import SandboxIpc.Unix.Copies
import SandboxIpc.Unix.DataSource
import SandboxIpc.Unix.Naming

/-!
# A process and its peers

A process that makes, clones, drops and receives shared memory. What its peers send may be anything:
any bytes, and descriptors of any objects. They may also truncate the objects they have.

* `Host`, `Host.step` — the process, with the objects of the kernel
* `Host.Backed` — no handle claims more than there is of its object
* `Host.Fits` — what a peer must not do
-/

namespace SandboxIpc.Unix

open Infra

variable {libc : Libc} {p : PointerWidth} {E : Type}

/-- The handle that is made of a field. -/
def Field.share : Field p RawFd → Option (SharedMem p)
  | .memory rw ro size _ => some ⟨rw, ro, size⟩
  | _ => none

/-- The descriptors of a field that is shared memory. -/
def Field.backing {D : Type} : Field p D → List D
  | .memory rw ro _ _ => rw.toList ++ [ro]
  | _ => []

/-- A descriptor that is read on its own: a file or a socket. -/
def Field.file : Field p RawFd → Option RawFd
  | .fd d => some d
  | _ => none

/-- A process. -/
structure Host (E : Type) (libc : Libc) (p : PointerWidth) where
  /-- The objects its descriptors refer to. -/
  fds : Registry RawFd Nat
  /-- How large the objects are. -/
  sizes : Nat → Nat
  /-- How many objects there are. -/
  objects : Nat
  /-- One for each `Arc`. -/
  shares : List (SharedMem p)
  /-- The other descriptors that have an owner. -/
  files : List RawFd
  link : E → State libc

namespace Host

variable {T : Type} [DecidableEq E]

inductive Act (E T : Type) (p : PointerWidth)
  | new (size : Usize p) (answers : NewAnswers)
  | cloneWithAccess (m : SharedMem p) (access : Access) (dup : Nat → Except IoError RawFd)
  /-- The last `Arc` of a handle is dropped. -/
  | drop (m : SharedMem p)
  /-- The user opens something. -/
  | obtain (fd : RawFd) (object : Nat)
  /-- The user closes what is not shared memory. -/
  | close (fd : RawFd)
  /-- Somebody makes an object. -/
  | create (size : Nat)
  /-- Somebody calls `ftruncate`. -/
  | truncate (object size : Nat)
  | startSend (e : E) (item : T) (w : WriteAnswers) (answers : Nat → DupAnswers)
  | pollComplete (e : E) (w : WriteAnswers)
  /-- `objects` are those of the descriptors that arrive. -/
  | poll (e : E) (r : ReadAnswers) (answers : Nat → FcntlAnswers) (objects : List Nat)

variable (w : Host E libc p)

/-- `SharedMem::new`. What it has opened is closed again if it fails. -/
def new (size : Usize p) (answers : NewAnswers) : Option (Host E libc p) :=
  match SharedMem.new size answers with
  | .error _ => some w
  | .ok m =>
    if w.fds.Free m.fds then
      some { w with
        fds := w.fds.put (m.fds.map (·, w.objects))
        sizes := Function.update w.sizes w.objects size.toNat
        objects := w.objects + 1
        shares := w.shares ++ [m] }
    else none

def cloneWithAccess (m : SharedMem p) (access : Access) (dup : Nat → Except IoError RawFd) :
    Option (Host E libc p) :=
  let (result, copies) := m.clone dup access
  if m ∈ w.shares ∧ w.fds.CanCopy copies then
    some { w with
      fds := w.fds.put (w.fds.copied id copies)
      shares := w.shares ++ result.toOption.toList }
  else none

variable [Bincode] (encode : E → T → Encoder) (reader : E → Reader) (e : E)

def decode : List UInt8 → Decoder (List (Field p RawFd)) := (reader e).decoder []

def setLink (s : State libc) : Host E libc p := { w with link := Function.update w.link e s }

/-- A call that does not read. -/
def transmit (a : Unix.Act T) : Option (Host E libc p) :=
  let s := w.link e
  let copies := s.copies (encode e) a
  if w.fds.CanCopy copies then
    some { w.setLink e (next (encode e) (decode (p := p) reader e) s a) with
      fds := w.fds.put (w.fds.copied id copies) }
  else none

/-- A call that reads. If nothing comes of what has been read, the parts of it that have been made are
dropped. -/
def receive (r : ReadAnswers) (answers : Nat → FcntlAnswers) (objects : List Nat) :
    Option (Host E libc p) :=
  let s := w.link e
  let a : Unix.Act T := .poll r answers
  let w' := w.setLink e (next (encode e) (decode (p := p) reader e) s a)
  match r.outcome with
  | some (.ok d) =>
    if d.fds.length = objects.length ∧ (∀ object ∈ objects, object < w.objects) ∧
        w.fds.Free d.fds then
      let fds := w.fds.put (d.fds.zip objects)
      match s.received (decode reader e) r answers with
      | some fields => some { w' with
          fds
          shares := w.shares ++ fields.filterMap Field.share
          files := w.files ++ fields.filterMap Field.file }
      | none => some { w' with
          fds := fds.close (handed (recvCalls (encode e) (decode (p := p) reader e) (s, a))) }
    else none
  | _ => some w'

def step (w : Host E libc p) : Act E T p → Option (Host E libc p)
  | .new size answers => w.new size answers
  | .cloneWithAccess m access dup => w.cloneWithAccess m access dup
  | .drop m =>
    if m ∈ w.shares then
      some { w with fds := w.fds.close m.fds, shares := w.shares.erase m }
    else none
  | .obtain fd object =>
    if w.fds.Free [fd] ∧ object < w.objects then
      some { w with fds := w.fds.put [(fd, object)], files := w.files ++ [fd] }
    else none
  | .close fd =>
    if fd ∈ w.files then
      some { w with fds := w.fds.close [fd], files := w.files.erase fd }
    else none
  | .create size =>
    some { w with
      sizes := Function.update w.sizes w.objects size
      objects := w.objects + 1 }
  | .truncate object size => some { w with sizes := Function.update w.sizes object size }
  | .startSend e item wa answers => w.transmit encode reader e (.startSend item wa answers)
  | .pollComplete e wa => w.transmit encode reader e (.pollComplete wa)
  | .poll e r answers objects => w.receive encode reader e r answers objects

/-- The process before it has any shared memory. Its channels may have been in use. -/
def system : System (Host E libc p) (Act E T p) where
  init w :=
    w.shares = [] ∧ w.files.Nodup ∧ (∀ fd ∈ w.files, (w.fds fd).isSome) ∧
    ∀ fd object, w.fds fd = some object → object < w.objects
  step := step encode reader

/-! ## What is there of an object -/

/-- The descriptors of the handles. -/
def owned : List RawFd := w.shares.flatMap SharedMem.fds

/-- The descriptors of a handle refer to objects that are as large as the handle says. -/
def Backs (m : SharedMem p) : Prop :=
  ∀ fd ∈ m.fds, ∃ object, w.fds fd = some object ∧ m.size.toNat ≤ w.sizes object

/-- Every byte of a slice is there in the object that has been mapped. -/
def Exposes (m : SharedMem p) (access : Access) (map : SharedMemMap p) (slice : Slice p) : Prop :=
  ∃ prot fd object, m.protection access = .ok (prot, fd) ∧ w.fds fd = some object ∧
    slice.Inside map (w.sizes object)

/-- No handle claims more than there is of its object, and no slice of a map reaches beyond it. -/
structure Backed : Prop where
  shares : ∀ m ∈ w.shares, w.Backs m
  maps : ∀ m ∈ w.shares, ∀ b page mmap range access map,
    m.map b page mmap range access = .ok map → w.Exposes m access map ⟨map.pointer, map.len⟩
  toRead : ∀ m ∈ w.shares, ∀ b page mmap map slice,
    (SendableDataSource.memory m).toRead b page mmap = .ok (.memory map slice) →
    w.Exposes m .read map slice
  toBytes : ∀ m ∈ w.shares, ∀ b page mmap readToEnd bytes slice,
    (SendableDataSource.memory m).toBytes b page mmap readToEnd = .ok bytes →
    bytes.deref = .inr slice → ∃ map, bytes = .shared map ∧ w.Exposes m .read map slice

end Host

/-! ## What a peer must not do -/

/-- The size in the bytes is not larger than the objects at the indices next to it. -/
def Field.Fits (sizes : Nat → Nat) (objects : List Nat) : Field p Nat → Prop
  | .memory rw ro size _ => ∀ i ∈ rw.toList ++ [ro], ∀ object, objects[i]? = some object →
    size.toNat ≤ sizes object
  | _ => True

variable [Bincode]

/-- The bytes stand for these fields, and the descriptors they name have come with them. -/
def Reader.Describes (reader : Reader) (bytes : List UInt8) (count : Nat)
    (fields : List (Field p Nat)) : Prop :=
  reader.indices bytes = some fields ∧ ∀ i ∈ Field.descriptors fields, i < count

/-- A datagram describes the shared memory that comes with it as it is. Descriptors that become files
or sockets do not matter. -/
structure Reader.Fits (reader : Reader) (answers : Nat → FcntlAnswers) (w : Host E libc p)
    (s : State libc) (objects : List Nat) (d : Datagram) : Prop where
  /-- Without descriptors, it makes no shared memory of what earlier messages have left, and takes
  nothing of it that a handle has. -/
  own : d.fds = [] → d.bytes.take s.channel.rxBuffer.length ≠ [] →
    (reader.decoder [] (d.bytes.take s.channel.rxBuffer.length)).Takes answers s.channel.io.cmsg.data
      (· ∉ w.owned) (fun fields : List (Field p RawFd) => fields.filterMap Field.share = []) 0
  /-- It does not name a descriptor of shared memory twice. -/
  distinct : ∀ fields : List (Field p Nat),
    reader.Describes (d.bytes.take s.channel.rxBuffer.length) d.fds.length fields →
    (fields.flatMap Field.backing).Nodup
  sized : ∀ fields : List (Field p Nat),
    reader.Describes (d.bytes.take s.channel.rxBuffer.length) d.fds.length fields →
    ∀ f ∈ fields, f.Fits w.sizes objects

/-- What is received describes its shared memory as it is, no file is closed that shares its number
with a handle of the process, and no object is cut down below one. -/
def Host.Fits {T : Type} (reader : E → Reader) : Host E libc p × Host.Act E T p → Prop
  | (w, .poll e r answers objects) => ∀ d, r.outcome = some (.ok d) →
    (reader e).Fits answers w (w.link e) objects d
  | (w, .close fd) => fd ∉ w.owned
  | (w, .truncate object size) => ∀ m ∈ w.shares, ∀ fd ∈ m.fds, w.fds fd = some object →
    m.size.toNat ≤ size
  | _ => True

end SandboxIpc.Unix
