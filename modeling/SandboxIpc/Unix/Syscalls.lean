import SandboxIpc.Infra.Obligation
import SandboxIpc.Infra.Run
import SandboxIpc.Unix.Payload
import Mathlib.Logic.Function.Basic

/-!
# The functions of the crate as programs of system calls

The functions that make, receive or close descriptors, call by call, and a process that runs them. Code
of the user runs before, after and in the middle of them. Calls that have nothing to do with the table
of descriptors are left out.

* `Call`, `Table.effect` — the calls and what the kernel makes of them
* `Op`, `Op.prog` — the functions of the crate
* `Proc`, `Proc.step` — a process in which they are at work
-/

namespace SandboxIpc.Unix

open Infra

/-! ## Calls -/

inductive Call
  | dup (fd : RawFd)
  | accept (fd : RawFd)
  | socket
  | socketpair
  | shmOpen
  | recvmsg (fd : RawFd)
  /-- `fcntl` with `F_GETFD`. -/
  | getfd (fd : RawFd)
  /-- `fcntl` with `F_SETFD`. `FD_CLOEXEC` is the only flag there is. -/
  | setfd (fd : RawFd) (cloexec : Bool)
  | close (fd : RawFd)
  /-- The registration in `PollEvented::new_with_handle`. -/
  | register (fd : RawFd)
  | bind (fd : RawFd)
  | listen (fd : RawFd)
  | connect (fd : RawFd)
  | shmUnlink
  | ftruncate (fd : RawFd)
  /-- Not a system call: the crate takes over a descriptor that the process has inherited. The answer
  is zero if it comes without the flag. -/
  | inherit (fd : RawFd)
  /-- Not a system call: code of the user. -/
  | user

structure Answer where
  result : Int
  errno : Int
  /-- What `socketpair` has written into its argument. -/
  sockets : List RawFd
  /-- What `recvmsg` has received. -/
  datagram : Datagram

/-- An answer that is nothing but a number. -/
def Answer.number (result : Int) : Answer := ⟨result, 0, [], ⟨[], [], Nat.zero_le _⟩⟩

namespace Call

/-- The descriptors the kernel has made. -/
def created (c : Call) (a : Answer) : List RawFd :=
  match c with
  | .dup _ | .accept _ | .socket | .shmOpen => if a.result < 0 then [] else [a.result]
  | .socketpair => if a.result = -1 then [] else a.sockets
  | .recvmsg _ => if a.result < 0 then [] else a.datagram.fds
  | _ => []

/-- Only `shm_open` sets the flag. -/
def setsFlag : Call → Bool
  | .shmOpen => true
  | _ => false

/-- `socketpair` makes a pair. -/
def Plausible (c : Call) (a : Answer) : Prop :=
  match c with
  | .socketpair => a.result ≠ -1 → a.sockets.length = 2
  | _ => True

instance (c : Call) (a : Answer) : Decidable (c.Plausible a) := by
  unfold Plausible
  cases c <;> infer_instance

end Call

/-- An open descriptor. -/
structure Entry where
  cloexec : Bool
  /-- Not in the source: the crate has made it, received it or taken it over. -/
  crate : Bool
  /-- Not in the source: the function that has left it without the flag. -/
  exposer : Nat

abbrev Table := RawFd → Option Entry

namespace Table

/-- What `F_GETFD` answers. -/
def flag (t : Table) (fd : RawFd) : Int :=
  match t fd with
  | none => -1
  | some e => if e.cloexec then 1 else 0

/-- What `inherit` answers. -/
def taken (t : Table) (fd : RawFd) : Int :=
  match t fd with
  | none => -1
  | some e => if e.cloexec || e.crate then 1 else 0

/-- The call makes its descriptors, under numbers that are not in use. -/
def make (t : Table) (id : Nat) (c : Call) (a : Answer) : Option Table :=
  if c.Plausible a ∧ (c.created a).Nodup ∧ ∀ fd ∈ c.created a, t fd = none then
    some fun fd => if fd ∈ c.created a then some ⟨c.setsFlag, true, id⟩ else t fd
  else none

/-- The table after a call of the function number `id`, `none` if the kernel does not answer so. -/
def effect (t : Table) (id : Nat) (c : Call) (a : Answer) : Option Table :=
  match c with
  | .getfd fd => if a.result = t.flag fd then some t else none
  | .setfd fd cloexec =>
    match t fd with
    | none => if a.result = -1 then some t else none
    | some e =>
      if a.result = 0 then
        some (Function.update t fd
          (some { e with cloexec, exposer := if cloexec then e.exposer else id }))
      else none
  | .close fd => some (Function.update t fd none)
  | .inherit fd =>
    if a.result = t.taken fd then
      some (Function.update t fd ((t fd).map fun e =>
        if e.crate then e else { e with crate := true, exposer := id }))
    else none
  | c => t.make id c a

end Table

/-! ## The functions of the crate -/

abbrev Program := Prog Call Answer (Outcome (List RawFd))

/-- An error of the system. -/
def Answer.err (a : Answer) : IoError := .os a.errno

section Programs

def setCloexec (fd : RawFd) (next : Except IoError Unit → Program) : Program :=
  .call (.getfd fd) fun _ => .call (.setfd fd true) fun r =>
    next (if r.result = -1 then .error r.err else .ok ())

def clearCloexec (fd : RawFd) (next : Except IoError Unit → Program) : Program :=
  .call (.getfd fd) fun _ => .call (.setfd fd false) fun r =>
    next (if r.result = -1 then .error r.err else .ok ())

/-- The drop of a `ScopedFd`. -/
def closeFd (fd : RawFd) (next : Program) : Program := .call (.close fd) fun _ => next

/-- `PollEvented::new_with_handle` of a `ScopedFd`, which is dropped if it fails. -/
def newWithHandle (fd : RawFd) (next : Except IoError Unit → Program) : Program :=
  .call (.register fd) fun r =>
    if r.result < 0 then closeFd fd (next (.error r.err)) else next (.ok ())

def rawSocketpair (next : Except IoError (RawFd × RawFd) → Program) : Program :=
  .call .socketpair fun r =>
    if r.result = -1 then next (.error r.err)
    else
      let first := r.sockets.getD 0 0
      let second := r.sockets.getD 1 0
      setCloexec first fun
        | .error e => next (.error e)
        | .ok () => setCloexec second fun
          | .error e => next (.error e)
          | .ok () => next (.ok (first, second))

/-- The end of a function that fails. -/
def failed (e : IoError) : Program := .done (.error (.err e))

/-- `MessageChannel::pair`. -/
def pair : Program :=
  rawSocketpair fun
    | .error e => failed e
    | .ok (a, b) => newWithHandle a fun
      | .error e => closeFd b (failed e)
      | .ok () => newWithHandle b fun
        | .error e => closeFd a (failed e)
        | .ok () => .done (.ok [a, b])

/-- `PreMessageChannel::pair`. -/
def prePair : Program :=
  rawSocketpair fun
    | .error e => failed e
    | .ok (a, b) => .done (.ok [a, b])

/-- `PreMessageChannel::into_channel` and `into_sealed_channel`. -/
def preIntoChannel (fd : RawFd) : Program :=
  newWithHandle fd fun
    | .error e => failed e
    | .ok () => .done (.ok [fd])

/-- The drops at the end of `establish_with_child`, the guard first. There is no guard if `new` has
failed. -/
def dropChildEnd (guard : Except IoError Unit) (b : RawFd) (next : Program) : Program :=
  match guard with
  | .error _ => closeFd b next
  | .ok () => setCloexec b fun _ => closeFd b next

/-- `establish_with_child` and `establish_with_child_custom` of `MessageChannel`. The user transmits
the descriptor of the child and launches it. -/
def establishWithChild : Program :=
  rawSocketpair fun
    | .error e => failed e
    | .ok (a, b) => clearCloexec b fun guard => .call .user fun launched =>
      if launched.result < 0 then dropChildEnd guard b (closeFd a (failed launched.err))
      else newWithHandle a fun
        | .error e => dropChildEnd guard b (failed e)
        | .ok () => dropChildEnd guard b (.done (.ok [a]))

/-- `ChildMessageChannel::into_channel`. -/
def childIntoChannel (fd : RawFd) : Program :=
  .call (.inherit fd) fun _ => newWithHandle fd fun
    | .error e => failed e
    | .ok () => .done (.ok [fd])

/-- The text of the assertion in `sockaddr_un`. -/
def pathTooLong : Outcome (List RawFd) := .error (.panic "path too long for sockaddr_un")

/-- `NamedMessageChannel::new`; `fits` is whether the path is short enough. -/
def namedNew (fits : Bool) : Program :=
  .call .socket fun s => setCloexec s.result fun
    | .error e => closeFd s.result (failed e)
    | .ok () =>
      if fits then
        .call (.bind s.result) fun r =>
          if r.result < 0 then closeFd s.result (failed r.err)
          else .call (.listen s.result) fun r =>
            if r.result < 0 then closeFd s.result (failed r.err) else .done (.ok [s.result])
      else closeFd s.result (.done pathTooLong)

/-- `NamedMessageChannel::accept`, which drops the named channel in the end. -/
def namedAccept (listener : RawFd) : Program :=
  .call (.accept listener) fun s =>
    if s.result < 0 then closeFd listener (failed s.err)
    else newWithHandle s.result fun
      | .error e => closeFd listener (failed e)
      | .ok () => closeFd listener (.done (.ok [s.result]))

/-- `NamedMessageChannel::connect`. The socket is a bare number until it is connected. -/
def namedConnect (fits : Bool) : Program :=
  .call .socket fun s => setCloexec s.result fun
    | .error e => failed e
    | .ok () =>
      if fits then
        .call (.connect s.result) fun r =>
          if r.result < 0 then failed r.err
          else newWithHandle s.result fun
            | .error e => failed e
            | .ok () => .done (.ok [s.result])
      else .done pathTooLong

/-- `HandleSender::send`, after `index` descriptors. -/
def sendFd (index : Nat) (fd : RawFd) (next : Except IoError Nat → Program) : Program :=
  if index < maxMsgFds then
    .call (.dup fd) fun r =>
      if r.result < 0 then next (.error r.err)
      else setCloexec r.result fun
        | .error e => next (.error e)
        | .ok () => next (.ok index)
  else next (.error tooMany)

/-- The serialization of an item, in the middle of which any code may run. -/
def Encoder.prog : Encoder → Nat → Cursor → Program
  | .done, _, _ => .done (.ok [])
  | .fail failure, _, _ => .done (.error (failure.toStop .invalidInput))
  | .write bytes next, index, cursor =>
    let (fitted, cursor) := cursor.writeAll bytes
    .call .user fun _ => (next fitted).prog index cursor
  | .sendableFd fd next, index, cursor =>
    .call .user fun _ => sendFd index fd fun
      | .error e => (next (.error e.display)).prog index cursor
      | .ok i => (next (.ok i)).prog (index + 1) cursor

/-- `HandleReceiver::recv`, if `visible` are the descriptors an index can name. -/
def recvFd (visible : List RawFd) (index : Nat) (next : Except IoError RawFd → Program) : Program :=
  match visible[index]? with
  | none => next (.error outOfRange)
  | some fd => .call (.getfd fd) fun r =>
    if r.result < 0 then next (.error (.new .invalidData "invalid file descriptor received"))
    else setCloexec fd fun
      | .error e => next (.error e)
      | .ok () => next (.ok fd)

/-- A deserialization, in the middle of which any code may run. -/
def Decoder.prog (visible : List RawFd) : Decoder (List RawFd) → Program
  | .done fds => .done (.ok fds)
  | .fail failure => .done (.error (failure.toStop .invalidData))
  | .sendableFd index next => .call .user fun _ => recvFd visible index fun
    | .error e => (next (.error e.display)).prog visible
    | .ok fd => (next (.ok fd)).prog visible

/-- The descriptors the receiver sees after a datagram. -/
def sightOf {libc : Libc} (cmsg : Cmsg libc maxMsgFds) (d : Datagram) : List RawFd :=
  (HandleReceiver.ofCmsg (cmsg.recvmsg (.ok d))).visible

/-- `poll` of a channel: `read`, and then the deserialization. -/
def receive {libc : Libc} (socket : RawFd) (cmsg : Cmsg libc maxMsgFds) (length : Nat)
    (decode : List UInt8 → Decoder (List RawFd)) : Program :=
  .call (.recvmsg socket) fun r =>
    if r.result < 0 then failed r.err
    else
      let message := r.datagram.bytes.take length
      if message = [] then .done (.ok []) else (decode message).prog (sightOf cmsg r.datagram)

/-- `SharedMem::new`. -/
def sharedMemNew : Program :=
  .call .shmOpen fun rw =>
    if rw.result < 0 then failed rw.err
    else .call .shmOpen fun ro =>
      if ro.result < 0 then closeFd rw.result (failed ro.err)
      else .call .shmUnlink fun r =>
        if r.result < 0 then closeFd ro.result (closeFd rw.result (failed r.err))
        else .call (.ftruncate rw.result) fun r =>
          if r.result < 0 then closeFd ro.result (closeFd rw.result (failed r.err))
          else .done (.ok [rw.result, ro.result])

/-- `SharedMem::clone`. -/
def sharedMemClone (rwFd : Option RawFd) (roFd : RawFd) : Access → Program
  | .read => .call (.dup roFd) fun ro =>
    if ro.result < 0 then failed ro.err else .done (.ok [ro.result])
  | .readWrite =>
    match rwFd with
    | none => failed (.new .permissionDenied "this shared memory handle is read-only")
    | some rwFd => .call (.dup rwFd) fun rw =>
      if rw.result < 0 then failed rw.err
      else .call (.dup roFd) fun ro =>
        -- the first duplicate is a bare number
        if ro.result < 0 then failed ro.err else .done (.ok [rw.result, ro.result])

end Programs

/-- A function of the crate, with its arguments and what it finds. -/
inductive Op (libc : Libc)
  | pair
  | prePair
  | preIntoChannel (fd : RawFd)
  | establishWithChild
  | childIntoChannel (fd : RawFd)
  | namedNew (fits : Bool)
  | namedAccept (listener : RawFd)
  | namedConnect (fits : Bool)
  | send (item : Encoder) (buffer : List UInt8)
  | receive (socket : RawFd) (cmsg : Cmsg libc maxMsgFds) (length : Nat)
      (decode : List UInt8 → Decoder (List RawFd))
  | sharedMemNew
  | sharedMemClone (rwFd : Option RawFd) (roFd : RawFd) (access : Access)

variable {libc : Libc}

def Op.prog : Op libc → Program
  | .pair => Unix.pair
  | .prePair => Unix.prePair
  | .preIntoChannel fd => Unix.preIntoChannel fd
  | .establishWithChild => Unix.establishWithChild
  | .childIntoChannel fd => Unix.childIntoChannel fd
  | .namedNew fits => Unix.namedNew fits
  | .namedAccept listener => Unix.namedAccept listener
  | .namedConnect fits => Unix.namedConnect fits
  | .send item buffer => item.prog 0 ⟨buffer, 0⟩
  | .receive socket cmsg length decode => Unix.receive socket cmsg length decode
  | .sharedMemNew => Unix.sharedMemNew
  | .sharedMemClone rwFd roFd access => Unix.sharedMemClone rwFd roFd access

/-! ## A process -/

/-- A function that is at work. -/
structure Frame (libc : Libc) where
  id : Nat
  op : Op libc
  prog : Program

structure Proc (libc : Libc) where
  table : Table
  /-- The functions that are at work, the innermost first. -/
  stack : List (Frame libc)
  /-- Not in the source: how many have been called. -/
  started : Nat

namespace Proc

inductive Act (libc : Libc)
  | start (op : Op libc)
  /-- The answer to the call the innermost function is at. -/
  | answer (a : Answer)
  | finish
  /-- The user drops an object that owns a descriptor. -/
  | drop (fd : RawFd)
  /-- Somebody else opens a descriptor. -/
  | foreign (fd : RawFd) (cloexec : Bool)

/-- Whether it is the turn of the user. -/
def idle (s : Proc libc) : Bool :=
  match s.stack with
  | [] => true
  | ⟨_, _, .call .user _⟩ :: _ => true
  | _ => false

def step (s : Proc libc) : Act libc → Option (Proc libc)
  | .start op =>
    if s.idle then
      some { s with stack := ⟨s.started, op, op.prog⟩ :: s.stack, started := s.started + 1 }
    else none
  | .answer a =>
    match s.stack with
    | ⟨id, op, .call c next⟩ :: rest =>
      (s.table.effect id c a).map fun table => { s with table, stack := ⟨id, op, next a⟩ :: rest }
    | _ => none
  | .finish =>
    match s.stack with
    | ⟨_, _, .done _⟩ :: rest => some { s with stack := rest }
    | _ => none
  | .drop fd => if s.idle then some { s with table := Function.update s.table fd none } else none
  | .foreign fd cloexec =>
    if s.idle ∧ s.table fd = none then
      some { s with table := Function.update s.table fd (some ⟨cloexec, false, 0⟩) }
    else none

/-- A process that has not used the crate yet. -/
def system : System (Proc libc) (Act libc) where
  init s := (∀ fd e, s.table fd = some e → e.crate = false) ∧ s.stack = [] ∧ s.started = 0
  step := step

end Proc

end SandboxIpc.Unix
