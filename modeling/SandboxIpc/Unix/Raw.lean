import SandboxIpc.Unix.Channel

/-!
# Raw channels, `channel.rs`

A `RawMessageChannel` passes bytes to and from the `MessageChannel` of the platform. It never sets
the control buffer, so that every `sendmsg` takes what the constructor or the last `recvmsg` left
there.

* `Constructed` — what the constructors make
* `BytesOnly` — no `sendmsg` takes descriptors
* `AfterBareRead` — before every `sendmsg` the last `recvmsg` has brought a datagram without any
* `bytesOnly_iff` — the second is what the first takes
* `sent_thirty_two` — the very first write does not meet it
-/

namespace SandboxIpc.Unix

open Infra

variable {libc : Libc}

/-- What every constructor of the platform makes of a descriptor. -/
def MessageChannel.new (libc : Libc) (fd : RawFd) : MessageChannel libc where
  socket := ⟨fd, []⟩
  cmsg := .new libc maxMsgFds

structure PreMessageChannel where
  fd : RawFd

structure ChildMessageChannel where
  fd : RawFd

/-- `PreMessageChannel::into_channel`. -/
def PreMessageChannel.intoChannel (libc : Libc) (pre : PreMessageChannel) : MessageChannel libc :=
  .new libc pre.fd

/-- `PreMessageChannel::into_sealed_channel`. Nothing is done yet to seal the channel. -/
def PreMessageChannel.intoSealedChannel (libc : Libc) (pre : PreMessageChannel) :
    MessageChannel libc :=
  .new libc pre.fd

/-- `ChildMessageChannel::into_channel`. -/
def ChildMessageChannel.intoChannel (libc : Libc) (child : ChildMessageChannel) :
    MessageChannel libc :=
  .new libc child.fd

structure RawMessageChannel (libc : Libc) where
  inner : MessageChannel libc

namespace RawMessageChannel

/-- `pair`; `raw_socketpair` answers with the two descriptors. -/
def pair (libc : Libc) (a b : RawFd) : RawMessageChannel libc × RawMessageChannel libc :=
  (⟨.new libc a⟩, ⟨.new libc b⟩)

/-- The parent's end of `establish_with_child` and `establish_with_child_custom`. -/
def establishWithChild (libc : Libc) (a : RawFd) : RawMessageChannel libc := ⟨.new libc a⟩

/-- What the constructors make. -/
inductive Constructed : RawMessageChannel libc → Prop
  | first (a b : RawFd) : Constructed (pair libc a b).1
  | second (a b : RawFd) : Constructed (pair libc a b).2
  | parent (a : RawFd) : Constructed (establishWithChild libc a)
  /-- `ChildRawMessageChannel::into_channel`. -/
  | child (c : ChildMessageChannel) : Constructed ⟨c.intoChannel libc⟩
  /-- `PreRawMessageChannel::into_raw_channel`. -/
  | unsealed (pre : PreMessageChannel) : Constructed ⟨pre.intoChannel libc⟩
  /-- `PreRawMessageChannel::into_sealed_raw_channel`. -/
  | sealed (pre : PreMessageChannel) : Constructed ⟨pre.intoSealedChannel libc⟩

def write (a : WriteAnswers) (bytes : List UInt8) (ch : RawMessageChannel libc) :
    Except IoError Nat × RawMessageChannel libc :=
  let (result, inner) := ch.inner.write a bytes
  (result, { inner })

def read (a : ReadAnswers) (length : Nat) (ch : RawMessageChannel libc) :
    Except IoError (List UInt8) × RawMessageChannel libc :=
  let (result, inner) := ch.inner.read a length
  (result, { inner })

/-- A call of the user, with the answers it gets from below. -/
inductive Act
  | write (bytes : List UInt8) (a : WriteAnswers)
  | read (length : Nat) (a : ReadAnswers)

/-- The outcome of the `recvmsg` of a call, if it makes one. -/
def Act.recvmsg : Act → Option (Except IoError Datagram)
  | .write _ _ => none
  | .read _ a => a.outcome

/-- The call gets as far as `sendmsg`. -/
def Act.sends : Act → Bool
  | .write _ a =>
    match a.pollWriteReady with
    | .ok true => true
    | _ => false
  | .read _ _ => false

def next (ch : RawMessageChannel libc) : Act → RawMessageChannel libc
  | .write bytes a => (ch.write a bytes).2
  | .read length a => (ch.read a length).2

/-- A raw channel from its construction on. -/
def system (libc : Libc) : System (RawMessageChannel libc) Act where
  init := Constructed
  step ch a := some (next ch a)

/-- The outcomes of all `recvmsg` calls so far, oldest first. -/
def outcomes (h : List (RawMessageChannel libc × Act)) : List (Except IoError Datagram) :=
  h.filterMap fun e => e.2.recvmsg

/-- No `sendmsg` takes any descriptors. -/
def BytesOnly (h : List (RawMessageChannel libc × Act)) : Prop :=
  Always (fun _ e => e.2.sends = true → e.1.inner.cmsg.rights = []) h

/-- The last `recvmsg` has brought a datagram without descriptors. -/
def Bare (reads : List (Except IoError Datagram)) : Prop :=
  ∃ d, reads.getLast? = some (.ok d) ∧ d.fds = []

/-- Before every `sendmsg` the last `recvmsg` has brought a datagram without descriptors. -/
def AfterBareRead (h : List (RawMessageChannel libc × Act)) : Prop :=
  Always (fun pre e => e.2.sends = true → Bare (outcomes pre)) h

/-! ## The control buffer of a raw channel -/

theorem cmsg_of_constructed {ch : RawMessageChannel libc} (h : Constructed ch) :
    ch.inner.cmsg = .new libc maxMsgFds := by
  cases h with
  | first | second | parent | child | unsealed | sealed => rfl

/-- A write leaves the control buffer alone, a read passes it to `recvmsg`. -/
theorem cmsg_next (ch : RawMessageChannel libc) (a : Act) :
    (next ch a).inner.cmsg = a.recvmsg.elim ch.inner.cmsg ch.inner.cmsg.recvmsg := by
  cases a with
  | write bytes a =>
    show (ch.inner.write a bytes).2.cmsg = ch.inner.cmsg
    rcases ch.inner.write_cases a bytes with ⟨e, hw⟩ | ⟨n, hw⟩
    · rw [hw]
    · rw [hw]
      rfl
  | read length a =>
    show (ch.inner.read a length).2.cmsg = _
    rw [MessageChannel.read_snd]
    rfl

theorem cmsg_of_run {h : List (RawMessageChannel libc × Act)} {ch : RawMessageChannel libc}
    (hr : Run (system libc) h ch) :
    ch.inner.cmsg = (outcomes h).foldl Cmsg.recvmsg (.new libc maxMsgFds) := by
  refine hr.ledger (fun h ch => ch.inner.cmsg
    = (outcomes h).foldl Cmsg.recvmsg (.new libc maxMsgFds)) ?_ ?_
  · intro ch hinit
    exact cmsg_of_constructed hinit
  · intro h ch a ch' ih hs
    obtain rfl := Option.some.inj hs
    unfold outcomes at ih ⊢
    rw [cmsg_next, ih, List.filterMap_append, List.foldl_append]
    cases hrecv : a.recvmsg with
    | none => simp [hrecv]
    | some r => simp [hrecv]

/-- What `sendmsg` takes from a control buffer nobody has set. -/
theorem rights_eq_nil_iff (reads : List (Except IoError Datagram)) :
    (reads.foldl Cmsg.recvmsg (.new libc maxMsgFds)).rights = [] ↔ Bare reads := by
  have hfull : ∀ c : Cmsg libc maxMsgFds, c.data ≠ [] := by
    intro c hnil
    have hlength := c.data_length
    rw [hnil] at hlength
    cases hlength
  unfold Bare
  rcases List.eq_nil_or_concat reads with rfl | ⟨before, r, rfl⟩
  · -- the constructor announces as many descriptors as there is room for
    refine iff_of_false ?_ (by rintro ⟨d, hd, -⟩; cases hd)
    show ((Cmsg.new libc maxMsgFds).recvmsg (.error .wouldBlock)).rights ≠ []
    rw [Cmsg.rights_recvmsg_error]
    exact hfull _
  · rw [List.concat_eq_append, List.foldl_append, List.getLast?_concat]
    cases r with
    | ok d =>
      show ((before.foldl Cmsg.recvmsg _).recvmsg (.ok d)).rights = [] ↔ _
      rw [Cmsg.rights_recvmsg_ok]
      constructor
      · intro hd
        exact ⟨d, rfl, hd⟩
      · rintro ⟨d', hd', hfds⟩
        obtain rfl := Except.ok.inj (Option.some.inj hd')
        exact hfds
    | error e =>
      refine iff_of_false ?_ (by rintro ⟨d, hd, -⟩; cases hd)
      show ((before.foldl Cmsg.recvmsg _).recvmsg (.error e)).rights ≠ []
      rw [Cmsg.rights_recvmsg_error]
      exact hfull _

/--
A raw channel carries bytes only, if and only if every `sendmsg` comes right after the `recvmsg` of
a datagram without descriptors.
-/
theorem bytesOnly_iff {h : List (RawMessageChannel libc × Act)} {ch : RawMessageChannel libc}
    (hr : Run (system libc) h ch) : BytesOnly h ↔ AfterBareRead h := by
  refine hr.always_iff ?_
  intro pre ch a ch' hpre _
  rw [cmsg_of_run hpre, rights_eq_nil_iff]

/-! ## The first write -/

/-- One end of a pair on Linux. -/
def freshEnd : RawMessageChannel linux := (pair linux 3 4).1

/-- A datagram of one byte comes in, without descriptors. -/
def barelyRead : ReadAnswers := ⟨.ok true, .ok ⟨[1], [], Nat.zero_le _⟩, .ok ()⟩

/-- An end that reads before it writes. -/
theorem bytesOnly_after_read : ∃ h ch, Run (system linux) h ch ∧
    ch.inner.socket.sent = [⟨[2, 3], []⟩] ∧ BytesOnly h := by
  have hr : Run (system linux) _ _ :=
    Run.of_replay (s := freshEnd) [.read 64 barelyRead, .write [2, 3] takesEight]
      (Constructed.first 3 4) rfl
  refine ⟨_, _, hr, by decide, (bytesOnly_iff hr).mpr ?_⟩
  intro pre e post he hsends
  rcases pre with _ | ⟨e₀, _ | ⟨e₁, pre⟩⟩
  · -- the read sends nothing
    obtain ⟨rfl, -⟩ := List.cons.inj he
    cases hsends
  · obtain ⟨rfl, -⟩ := List.cons.inj he
    exact ⟨_, rfl, rfl⟩
  · have hlength := congrArg List.length he
    simp only [List.length_append, List.length_cons, List.length_nil] at hlength
    omega

def writesFirst : List (RawMessageChannel linux × Act) := [(freshEnd, .write [2, 3] takesEight)]

/-- The first message of a new end carries thirty-two copies of the standard input. -/
theorem sent_thirty_two : ∃ ch, Run (system linux) writesFirst ch ∧
    ch.inner.socket.sent = [⟨[2, 3], List.replicate 32 0⟩] ∧ ¬ BytesOnly writesFirst := by
  refine ⟨_, Run.of_replay (s := freshEnd) [.write [2, 3] takesEight] (Constructed.first 3 4) rfl,
    by decide, fun hbytes => ?_⟩
  exact absurd (hbytes [] _ [] rfl rfl) (by decide)

end RawMessageChannel

end SandboxIpc.Unix
