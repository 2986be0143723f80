import SandboxIpc.Infra.Picking
import SandboxIpc.Unix.Receive

/-!
# Who owns the descriptors of a datagram

`recv` looks a descriptor up and leaves it where it is. `ScopedFd`, `SendableFile` and
`SendableSocket` then own what they were given, and close it when they are dropped. Nothing else
closes what `recvmsg` has installed.

* `Building` — the code of a `Deserialize`, with the objects it makes
* `SingleOwner` — each descriptor of a datagram has one owner or has been closed
* `NamesOnce` — each datagram names each of its descriptors once
* `single_owner_iff` — the second is what the first takes
* `owned_twice` — a peer can have one descriptor owned twice and lose another
-/

namespace SandboxIpc.Unix

open Infra

/-- The types that own the descriptor they are made of. -/
inductive Owner
  | scopedFd
  | file
  | socket
  deriving DecidableEq

/-- The code of a `Deserialize`, once it has its bytes. -/
inductive Building (R : Type)
  | done (value : R)
  | fail (failure : Failure)
  /-- Deserialize a `SendableFd` that reads this index, and make an object of the descriptor. A
  `SendableFd` by itself owns nothing. -/
  | descriptor (owner : Option Owner) (index : Nat) (next : Except String RawFd → Building R)

/-- An object that owns a descriptor. -/
structure Owned where
  owner : Owner
  fd : RawFd
  deriving DecidableEq

namespace Building

variable {R : Type}

/-- The code without the objects. -/
def decoder : Building R → Decoder R
  | .done value => .done value
  | .fail failure => .fail failure
  | .descriptor _ index next => .sendableFd index fun answer => (next answer).decoder

/-- The objects that are made, oldest first. -/
def objects (answers : Nat → FcntlAnswers) (receiver : HandleReceiver) :
    Building R → Nat → List Owned
  | .done _, _ => []
  | .fail _, _ => []
  | .descriptor owner index next, n =>
    let result := receiver.recv index (answers n)
    let rest := (next (result.mapError IoError.display)).objects answers receiver (n + 1)
    match owner, result with
    | some owner, .ok fd => ⟨owner, fd⟩ :: rest
    | _, _ => rest

/-- The indices an object is asked for at, and which the system accepts, if `fds` are in sight. -/
def named (answers : Nat → FcntlAnswers) (fds : List RawFd) : Building R → Nat → List Nat
  | .done _, _ => []
  | .fail _, _ => []
  | .descriptor owner index next, n =>
    match fds[index]? with
    | none => (next (.error outOfRange.display)).named answers fds (n + 1)
    | some fd =>
      match (answers n).accept fd with
      | .error e => (next (.error e.display)).named answers fds (n + 1)
      | .ok fd =>
        let rest := (next (.ok fd)).named answers fds (n + 1)
        if owner.isSome then index :: rest else rest

variable {answers : Nat → FcntlAnswers} {receiver : HandleReceiver}

/-- The objects hold what is in sight at the indices they were asked for at. -/
theorem fds_objects (b : Building R) (n : Nat) :
    (b.objects answers receiver n).map Owned.fd
      = pick receiver.visible (b.named answers receiver.visible n) := by
  induction b generalizing n with
  | done value => rfl
  | fail failure => rfl
  | descriptor owner index next ih =>
    unfold objects named
    rw [HandleReceiver.recv_eq]
    cases hfd : receiver.visible[index]? with
    | none => cases owner <;> exact ih _ (n + 1)
    | some fd =>
      dsimp only
      cases haccept : (answers n).accept fd with
      | error e => cases owner <;> exact ih _ (n + 1)
      | ok fd' =>
        obtain rfl := FcntlAnswers.eq_of_accept haccept
        cases owner with
        | none => exact ih _ (n + 1)
        | some owner => exact (congrArg (fd :: ·) (ih _ (n + 1))).trans (pick_cons hfd _).symm

/-- Only indices in range are accepted. -/
theorem named_lt {fds : List RawFd} (b : Building R) (n : Nat) :
    ∀ i ∈ b.named answers fds n, i < fds.length := by
  induction b generalizing n with
  | done value => nofun
  | fail failure => nofun
  | descriptor owner index next ih =>
    unfold named
    cases hfd : fds[index]? with
    | none => exact ih _ (n + 1)
    | some fd =>
      dsimp only
      cases (answers n).accept fd with
      | error e => exact ih _ (n + 1)
      | ok fd' =>
        cases owner with
        | none => exact ih _ (n + 1)
        | some owner =>
          intro i hi
          rcases List.mem_cons.mp hi with rfl | hi
          · exact (List.getElem?_eq_some_iff.mp hfd).1
          · exact ih _ (n + 1) i hi

end Building

/-! ## The objects of a datagram -/

variable {libc : Libc} {T R : Type}

section History

variable (encode : T → Encoder) (build : List UInt8 → Building R)

/-- The objects a call makes. -/
def made (e : State libc × Act T) : List Owned :=
  match e.2 with
  | .poll r answers =>
    match e.1.channel.io.read r e.1.channel.rxBuffer.length with
    | (.error _, _) => []
    | (.ok message, io) =>
      if message.length = 0 then [] else (build message).objects answers (.ofCmsg io.cmsg) 0
  | _ => []

/-- Whether a call hands a message to the user. -/
def handsOver (e : State libc × Act T) : Bool :=
  match e.2 with
  | .poll r answers =>
    match (e.1.channel.poll libc.eagain (MessageChannel.read r)
      (deserialize answers fun bytes => (build bytes).decoder) e.1.context).1 with
    | .ok (.ready (some _)) => true
    | _ => false
  | _ => false

/-- The objects in the message a call hands over. -/
def held (e : State libc × Act T) : List Owned := if handsOver build e then made build e else []

/-- The objects that are dropped because there is no message. Each closes its descriptor. -/
def dropped (e : State libc × Act T) : List Owned := if handsOver build e then [] else made build e

/-- Every descriptor of a datagram has one owner in the message or is closed once, and no two objects
have the same. -/
def SingleOwner (h : List (State libc × Act T)) : Prop :=
  Always (fun _ e => ∀ d, e.2.recvmsg = some (.ok d) →
    (∀ fd ∈ d.fds, ((held build e ++ dropped build e).map Owned.fd).count fd = 1) ∧
    ((held build e ++ dropped build e).map Owned.fd).Nodup) h

/-- These bytes name each of the descriptors that came with them once. If none did, they name
different leftovers; and without bytes there are no descriptors. -/
def NamesEachOnce (answers : Nat → FcntlAnswers) (leftovers : List RawFd) (bytes : List UInt8)
    (fds : List RawFd) : Prop :=
  if bytes = [] then fds = []
  else if fds = [] then (pick leftovers ((build bytes).named answers leftovers 0)).Nodup
  else ((build bytes).named answers fds 0).Perm (List.range fds.length)

instance (answers : Nat → FcntlAnswers) (leftovers : List RawFd) (bytes : List UInt8)
    (fds : List RawFd) : Decidable (NamesEachOnce build answers leftovers bytes fds) :=
  inferInstanceAs (Decidable (if bytes = [] then fds = [] else if fds = [] then _ else _))

def NamesOnce (cmsg : Cmsg libc maxMsgFds) (h : List (State libc × Act T)) : Prop :=
  Always (fun pre e => ∀ r answers d, e.2 = .poll r answers → r.outcome = some (.ok d) →
    NamesEachOnce build answers (leftover encode cmsg pre)
      (d.bytes.take e.1.channel.rxBuffer.length) d.fds) h

/-- The kernel installs the descriptors of a datagram under different numbers. -/
def Distinct (e : State libc × Act T) : Prop := ∀ d, e.2.recvmsg = some (.ok d) → d.fds.Nodup

end History

variable {encode : T → Encoder} {build : List UInt8 → Building R}

theorem held_append_dropped (e : State libc × Act T) :
    held build e ++ dropped build e = made build e := by
  unfold held dropped
  cases handsOver build e with
  | true => exact List.append_nil _
  | false => rfl

/-- The objects a datagram is made into. -/
theorem fds_made {s : State libc} {r : ReadAnswers} {answers : Nat → FcntlAnswers} {d : Datagram}
    (h : r.outcome = some (.ok d)) (hne : d.bytes.take s.channel.rxBuffer.length ≠ []) :
    (made build (s, (.poll r answers : Act T))).map Owned.fd
      = pick (if d.fds = [] then s.channel.io.cmsg.data else d.fds)
        ((build (d.bytes.take s.channel.rxBuffer.length)).named answers
          (if d.fds = [] then s.channel.io.cmsg.data else d.fds) 0) := by
  have hread : (s.channel.io.read r s.channel.rxBuffer.length).1
      = .ok (d.bytes.take s.channel.rxBuffer.length) := MessageChannel.read_ok_iff.mpr ⟨d, h, rfl⟩
  have hio := s.channel.io.read_snd r s.channel.rxBuffer.length
  rw [h] at hio
  unfold made
  dsimp only
  generalize s.channel.io.read r s.channel.rxBuffer.length = p at hread hio
  obtain ⟨message, io⟩ := p
  obtain rfl : message = .ok (d.bytes.take s.channel.rxBuffer.length) := hread
  obtain rfl := hio
  dsimp only [Option.elim]
  rw [if_neg fun hzero => hne (List.length_eq_zero_iff.mp hzero), Building.fds_objects,
    visible_of_datagram]

theorem made_of_nothing {s : State libc} {r : ReadAnswers} {answers : Nat → FcntlAnswers}
    (h : ∀ d, r.outcome = some (.ok d) → d.bytes.take s.channel.rxBuffer.length = []) :
    made build (s, (.poll r answers : Act T)) = [] := by
  unfold made
  dsimp only
  rcases hread : s.channel.io.read r s.channel.rxBuffer.length with ⟨message | message, io⟩
  · rfl
  · obtain ⟨d, hd, rfl⟩ := MessageChannel.read_ok_iff.mp (congrArg Prod.fst hread)
    dsimp only
    rw [h d hd]
    rfl

/-- What becomes of the descriptors of one datagram. -/
theorem owners_iff {s : State libc} {r : ReadAnswers} {answers : Nat → FcntlAnswers} {d : Datagram}
    (h : r.outcome = some (.ok d)) (hdistinct : d.fds.Nodup) :
    ((∀ fd ∈ d.fds, ((made build (s, (.poll r answers : Act T))).map Owned.fd).count fd = 1) ∧
      ((made build (s, (.poll r answers : Act T))).map Owned.fd).Nodup) ↔
    NamesEachOnce build answers s.channel.io.cmsg.data
      (d.bytes.take s.channel.rxBuffer.length) d.fds := by
  unfold NamesEachOnce
  by_cases hbytes : d.bytes.take s.channel.rxBuffer.length = []
  · -- nothing is decoded, so nothing takes the descriptors
    have hnothing : ∀ d', r.outcome = some (.ok d') →
        d'.bytes.take s.channel.rxBuffer.length = [] := by
      intro d' hd'
      obtain rfl := Except.ok.inj (Option.some.inj (h.symm.trans hd'))
      exact hbytes
    rw [if_pos hbytes, made_of_nothing hnothing]
    constructor
    · rintro ⟨honce, -⟩
      exact List.eq_nil_iff_forall_not_mem.mpr fun fd hfd => absurd (honce fd hfd) nofun
    · intro hnone
      rw [hnone]
      exact ⟨nofun, List.nodup_nil⟩
  · rw [if_neg hbytes, fds_made h hbytes]
    by_cases hfds : d.fds = []
    · rw [if_pos hfds, if_pos hfds, hfds]
      exact and_iff_right nofun
    · rw [if_neg hfds, if_neg hfds]
      exact pick_once_iff hdistinct (Building.named_lt _ 0)

/--
Every descriptor of every datagram gets one owner or is closed, and none gets two, if and only if each
datagram names each of its descriptors once.
-/
theorem single_owner_iff {cmsg : Cmsg libc maxMsgFds} {h : List (State libc × Act T)}
    {s : State libc} (hr : Run (system encode (fun bytes => (build bytes).decoder) cmsg) h s)
    (hkernel : ∀ e ∈ h, Distinct e) :
    SingleOwner build h ↔ NamesOnce encode build cmsg h := by
  refine hr.always_iff_of Distinct hkernel ?_
  intro pre s a s' hpre hdistinct _
  rw [held_append_dropped, ← data_of_run hpre]
  constructor
  · rintro howners r answers d rfl hd
    exact (owners_iff hd (hdistinct d hd)).mp (howners d hd)
  · intro hnames d hd
    cases a with
    | startSend item w answers => cases hd
    | pollComplete w => cases hd
    | poll r answers => exact (owners_iff hd (hdistinct d hd)).mpr (hnames r answers d rfl hd)

/-! ## Two descriptors in one message -/

/-- The `deserialize` of `ScopedFd`, and what follows it. -/
def scopedFd (bytes : List UInt8) (next : RawFd → List UInt8 → Building R) : Building R :=
  if bytes.length < 8 then .fail (.error "io error: unexpected end of file")
  else .descriptor (some .scopedFd) (Nat.ofDigits 256 ((bytes.take 8).map UInt8.toNat)) fun
    | .error message => .fail (.error message)
    | .ok fd => next fd (bytes.drop 8)

def scopedFdPair (bytes : List UInt8) : Building (RawFd × RawFd) :=
  scopedFd bytes fun first bytes => scopedFd bytes fun second _ => .done (first, second)

/-- A datagram with the descriptors nine and ten that names these two. -/
def bringsTwo (first second : Nat) : ReadAnswers :=
  ⟨.ok true, .ok ⟨indexBytes first ++ indexBytes second, [9, 10], by decide⟩, .ok ()⟩

/-- Each is named, and each has one owner. -/
theorem single_owner_pair : ∃ h s,
    Run (system SendableFd.encode (fun bytes => (scopedFdPair bytes).decoder)
      (.new linux maxMsgFds)) h s ∧
    h.map (held scopedFdPair) = [[⟨.scopedFd, 9⟩, ⟨.scopedFd, 10⟩]] ∧
    SingleOwner scopedFdPair h := by
  have hr : Run (system SendableFd.encode (fun bytes => (scopedFdPair bytes).decoder)
      (.new linux maxMsgFds)) _ _ :=
    Run.of_replay (s := freshChannel) [.poll (bringsTwo 0 1) accepting] ⟨rfl, rfl⟩ rfl
  refine ⟨_, _, hr, rfl, (single_owner_iff hr ?_).mpr (always_singleton.mpr ?_)⟩
  · rintro e he d hd
    obtain rfl := List.mem_singleton.mp he
    obtain rfl := Except.ok.inj (Option.some.inj hd)
    decide
  · rintro r answers d hact hd
    obtain ⟨rfl, rfl⟩ := Act.poll.inj hact
    obtain rfl := Except.ok.inj (Option.some.inj hd)
    decide

/-- One is named twice, and the other is not: the first is closed twice in the end, and the second
never. -/
theorem owned_twice : ∃ h s,
    Run (system SendableFd.encode (fun bytes => (scopedFdPair bytes).decoder)
      (.new linux maxMsgFds)) h s ∧
    h.map (held scopedFdPair) = [[⟨.scopedFd, 9⟩, ⟨.scopedFd, 9⟩]] ∧
    ¬ SingleOwner scopedFdPair h := by
  have hr : Run (system SendableFd.encode (fun bytes => (scopedFdPair bytes).decoder)
      (.new linux maxMsgFds)) _ _ :=
    Run.of_replay (s := freshChannel) [.poll (bringsTwo 0 0) accepting] ⟨rfl, rfl⟩ rfl
  refine ⟨_, _, hr, rfl, fun howner => ?_⟩
  obtain ⟨honce, -⟩ := howner [] _ [] rfl ⟨indexBytes 0 ++ indexBytes 0, [9, 10], by decide⟩ rfl
  exact absurd (honce 10 (by decide)) (by decide)

end SandboxIpc.Unix
