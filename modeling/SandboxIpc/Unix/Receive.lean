import SandboxIpc.Unix.Channel

/-!
# Which descriptors a message can name

`before_deserialize` counts the descriptors of a datagram by `cmsg_len`, which `reset_fd_count` has
just set to the maximum. A datagram without descriptors leaves it there: every entry of the control
buffer then counts as one of its own.

* `leftover` — what earlier items and datagrams have left in the control buffer
* `OwnOnly` — a message is handed only the descriptors that came with it
* `Covered` — datagrams without descriptors name none of the leftovers
* `own_only_iff` — the second is what the first takes
* `hands_out_leftovers` — a peer can name the descriptors of an earlier message
-/

namespace SandboxIpc.Unix

open Infra

variable {libc : Libc} {T R : Type}

section History

variable (encode : T → Encoder) (decode : List UInt8 → Decoder R)

/-- The descriptors a call writes over the start of the control buffer. -/
def written (e : State libc × Act T) : List RawFd :=
  match accepted encode e.1 e.2, e.2.recvmsg with
  | some m, _ => m.fds
  | none, some (.ok d) => d.fds
  | none, _ => []

/-- What a control buffer holds after the calls of `h`. -/
def leftover (cmsg : Cmsg libc maxMsgFds) (h : List (State libc × Act T)) : List RawFd :=
  h.foldl (fun data e => overwrite (written encode e) data) cmsg.data

/-- The calls of `recv` in a call of the user. -/
def recvCalls (e : State libc × Act T) : List RecvCall :=
  (next encode decode e.1 e.2).context.calls.drop e.1.context.calls.length

/-- Whatever `recv` returns is the descriptor at that index of the datagram being deserialized. -/
def OwnOnly (h : List (State libc × Act T)) : Prop :=
  Always (fun _ e => ∀ c ∈ recvCalls encode decode e, ∀ fd, c.result = .ok fd →
    ∃ d, e.2.recvmsg = some (.ok d) ∧ d.fds[c.index]? = some fd) h

/-- Where a datagram has no descriptors, its bytes name no leftover that the system accepts. -/
def Covered (cmsg : Cmsg libc maxMsgFds) (h : List (State libc × Act T)) : Prop :=
  Always (fun pre e => ∀ r answers d, e.2 = .poll r answers → r.outcome = some (.ok d) → d.fds = [] →
    d.bytes.take e.1.channel.rxBuffer.length ≠ [] →
    (decode (d.bytes.take e.1.channel.rxBuffer.length)).Rejects answers
      (leftover encode cmsg pre) 0) h

end History

variable {encode : T → Encoder} {decode : List UInt8 → Decoder R}

/-! ## The control buffer over a run -/

theorem data_next (s : State libc) (a : Act T) :
    (next encode decode s a).channel.io.cmsg.data
      = overwrite (written encode (s, a)) s.channel.io.cmsg.data := by
  have hmove := move_next encode decode s a
  unfold written
  generalize accepted encode s a = m at hmove
  generalize next encode decode s a = s' at hmove
  have hflush : ∀ d, Flush s.channel d → d.io.cmsg = s.channel.io.cmsg := by
    intro d hf
    cases hf with
    | kept => rfl
    | taken => rfl
  cases hmove with
  | flush hread hf =>
    rw [hread, hflush _ hf]
    rfl
  | @reject _ d _ hread hf _ =>
    rw [hread]
    exact congrArg Cmsg.data (hflush d hf)
  | accept _ hf hset _ =>
    rw [hflush _ hf] at hset
    exact (Cmsg.rights_setFds hset).2
  | @poll r =>
    dsimp only [Act.recvmsg]
    rcases r.outcome with _ | e | d
    · rfl
    · rfl
    · exact Cmsg.data_recvmsg_ok

theorem data_of_run {cmsg : Cmsg libc maxMsgFds} {h : List (State libc × Act T)} {s : State libc}
    (hr : Run (system encode decode cmsg) h s) :
    s.channel.io.cmsg.data = leftover encode cmsg h := by
  refine hr.ledger (fun h s => s.channel.io.cmsg.data = leftover encode cmsg h) ?_ ?_
  · rintro s ⟨-, hcmsg⟩
    rw [hcmsg]
    rfl
  · intro h s a s' ih hs
    obtain rfl := Option.some.inj hs
    rw [data_next, ih]
    unfold leftover
    rw [List.foldl_append]
    rfl

/-! ## The calls of `recv` -/

theorem recvCalls_of_send {s : State libc} {a : Act T} (h : ∀ r answers, a ≠ .poll r answers) :
    recvCalls encode decode (s, a) = [] := by
  have hmove := move_next encode decode s a
  have hcontext : (next encode decode s a).context = s.context := by
    generalize accepted encode s a = m at hmove
    generalize next encode decode s a = s' at hmove
    cases hmove with
    | flush => rfl
    | reject => rfl
    | accept => rfl
    | poll => exact absurd rfl (h _ _)
  unfold recvCalls
  rw [hcontext]
  exact List.drop_length

theorem recvCalls_of_nothing {s : State libc} {r : ReadAnswers} {answers : Nat → FcntlAnswers}
    (h : ∀ d, r.outcome = some (.ok d) → d.bytes.take s.channel.rxBuffer.length = []) :
    recvCalls encode decode (s, .poll r answers) = [] := by
  have hcontext : (next encode decode s (.poll r answers)).context = s.context := by
    dsimp only [next]
    rcases s.channel.poll_cases libc.eagain (MessageChannel.read r) (deserialize answers decode)
      s.context with ⟨-, result, rx, heq⟩ | ⟨result, rx, message, hread, hne, heq⟩
    · rw [heq]
    · obtain ⟨d, hd, rfl⟩ := MessageChannel.read_ok_iff.mp hread
      exact absurd (h d hd) hne
  unfold recvCalls
  rw [hcontext]
  exact List.drop_length

theorem recvCalls_of_datagram {s : State libc} {r : ReadAnswers} {answers : Nat → FcntlAnswers}
    {d : Datagram} (h : r.outcome = some (.ok d))
    (hne : d.bytes.take s.channel.rxBuffer.length ≠ []) :
    recvCalls encode decode (s, .poll r answers)
      = ((decode (d.bytes.take s.channel.rxBuffer.length)).run answers
          (some (.ofCmsg (s.channel.io.cmsg.recvmsg (.ok d)))) 0).1 := by
  have hread : (s.channel.io.read r s.channel.rxBuffer.length).1
      = .ok (d.bytes.take s.channel.rxBuffer.length) := MessageChannel.read_ok_iff.mpr ⟨d, h, rfl⟩
  have hio := s.channel.io.read_snd r s.channel.rxBuffer.length
  rw [h] at hio
  unfold recvCalls
  dsimp only [next]
  rcases s.channel.poll_cases libc.eagain (MessageChannel.read r) (deserialize answers decode)
    s.context with ⟨hnone, -⟩ | ⟨result, rx, message, hmessage, -, heq⟩
  · exact absurd (hnone _ hread) hne
  · obtain rfl := Except.ok.inj (hread.symm.trans hmessage)
    rw [heq, hio]
    exact List.drop_left

/-- The receiver sees the descriptors of the datagram, or all leftovers if it has none. -/
theorem visible_of_datagram (c : Cmsg libc maxMsgFds) (d : Datagram) :
    (HandleReceiver.ofCmsg (c.recvmsg (.ok d))).visible = if d.fds = [] then c.data else d.fds := by
  rw [HandleReceiver.visible_ofCmsg, Cmsg.fds_recvmsg_ok]

/--
A message is handed only the descriptors that came with it, if and only if no datagram without
descriptors names a leftover.
-/
theorem own_only_iff {cmsg : Cmsg libc maxMsgFds} {h : List (State libc × Act T)} {s : State libc}
    (hr : Run (system encode decode cmsg) h s) :
    OwnOnly encode decode h ↔ Covered encode decode cmsg h := by
  refine hr.always_iff ?_
  intro pre s a s' hpre _
  by_cases hpoll : ∃ r answers, a = .poll r answers
  · obtain ⟨r, answers, rfl⟩ := hpoll
    by_cases hdatagram : ∃ d, r.outcome = some (.ok d) ∧
        d.bytes.take s.channel.rxBuffer.length ≠ []
    · obtain ⟨d, hd, hne⟩ := hdatagram
      rw [recvCalls_of_datagram hd hne]
      have hvisible := visible_of_datagram s.channel.io.cmsg d
      by_cases hfds : d.fds = []
      · -- every descriptor in sight is a leftover, so none may be handed out
        rw [if_pos hfds, data_of_run hpre] at hvisible
        constructor
        · rintro hown r' answers' d' hact hd' - -
          obtain ⟨rfl, rfl⟩ := Act.poll.inj hact
          obtain rfl := Except.ok.inj (Option.some.inj (hd.symm.trans hd'))
          rw [← hvisible, ← Decoder.rejects_iff]
          intro c hc fd hfd
          obtain ⟨d', hd', hget⟩ := hown c hc fd hfd
          obtain rfl := Except.ok.inj (Option.some.inj (hd.symm.trans hd'))
          rw [hfds] at hget
          cases hget
        · intro hcovered c hc fd hfd
          have hrejects := hcovered r answers d rfl hd hfds hne
          rw [← hvisible, ← Decoder.rejects_iff] at hrejects
          exact absurd hfd (hrejects c hc fd)
      · -- the datagram has covered the leftovers with its own
        rw [if_neg hfds] at hvisible
        refine iff_of_true ?_ ?_
        · intro c hc fd hfd
          have hget := Decoder.visible_of_mem hc hfd
          rw [hvisible] at hget
          exact ⟨d, hd, hget⟩
        · rintro r' answers' d' hact hd' hfds' -
          obtain ⟨rfl, rfl⟩ := Act.poll.inj hact
          obtain rfl := Except.ok.inj (Option.some.inj (hd.symm.trans hd'))
          exact absurd hfds' hfds
    · -- nothing is deserialized
      have hnothing : ∀ d, r.outcome = some (.ok d) →
          d.bytes.take s.channel.rxBuffer.length = [] :=
        fun d hd => by_contra fun hne => hdatagram ⟨d, hd, hne⟩
      rw [recvCalls_of_nothing hnothing]
      refine iff_of_true (fun c hc => absurd hc List.not_mem_nil) ?_
      rintro r' answers' d' hact hd' - hne
      obtain ⟨rfl, rfl⟩ := Act.poll.inj hact
      exact absurd (hnothing d' hd') hne
  · have hsend : ∀ r answers, a ≠ .poll r answers := fun r answers h => hpoll ⟨r, answers, h⟩
    rw [recvCalls_of_send hsend]
    refine iff_of_true (fun c hc => absurd hc List.not_mem_nil) ?_
    intro r answers d hact
    exact absurd hact (hsend r answers)

/-- The call receives a datagram without descriptors. -/
def Act.bare (a : Act T) : Bool :=
  match a.recvmsg with
  | some (.ok d) => d.fds.isEmpty
  | _ => false

/-- A peer that puts a descriptor into every datagram does no harm. -/
theorem covered_of_bare {cmsg : Cmsg libc maxMsgFds} {h : List (State libc × Act T)}
    (hbare : ∀ e ∈ h, e.2.bare = false) : Covered encode decode cmsg h := by
  rintro pre ⟨s, a⟩ post rfl r answers d rfl hd hfds -
  have hfull : (Act.poll r answers : Act T).bare = false := hbare (s, _) (by simp)
  unfold Act.bare Act.recvmsg at hfull
  dsimp only at hfull
  rw [hd] at hfull
  dsimp only at hfull
  rw [hfds] at hfull
  cases hfull

/-! ## A bare datagram -/

/-- A datagram that names its first descriptor. -/
def namesFirst (fds : List RawFd) (h : fds.length ≤ maxMsgFds) : ReadAnswers :=
  ⟨.ok true, .ok ⟨indexBytes 0, fds, h⟩, .ok ()⟩

/-- The system knows every descriptor. -/
def accepting (_ : Nat) : FcntlAnswers := ⟨fun _ => 0, fun _ => .ok ()⟩

/-- A datagram that brings a descriptor, after two descriptors have been sent. -/
theorem own_only_nine : ∃ h s,
    Run (system SendableFd.encode SendableFd.decode (.new linux maxMsgFds)) h s ∧
    s.context.calls = [⟨0, .ok 9⟩] ∧ OwnOnly SendableFd.encode SendableFd.decode h := by
  have hr : Run (system SendableFd.encode SendableFd.decode (.new linux maxMsgFds)) _ _ :=
    Run.of_replay (s := freshChannel)
      [.startSend 5 takesEight dupsFrom7, .pollComplete takesEight,
        .poll (namesFirst [9] (by decide)) accepting]
      ⟨rfl, rfl⟩ rfl
  exact ⟨_, _, hr, rfl, (own_only_iff hr).mpr (covered_of_bare (by decide))⟩

def bareCalls : List (Act RawFd) :=
  [.startSend 5 takesEight dupsFrom7, .pollComplete takesEight,
    .poll (namesFirst [] (by decide)) accepting]

def bareRun : List (State linux × Act RawFd) × State linux :=
  ((system SendableFd.encode SendableFd.decode (.new linux maxMsgFds)).replay freshChannel
    bareCalls).getD ([], freshChannel)

/-- The same datagram without a descriptor is handed the first one that was sent before. -/
theorem hands_out_leftovers :
    Run (system SendableFd.encode SendableFd.decode (.new linux maxMsgFds)) bareRun.1 bareRun.2 ∧
    bareRun.2.context.calls = [⟨0, .ok 7⟩] ∧
    ¬ OwnOnly SendableFd.encode SendableFd.decode bareRun.1 := by
  refine ⟨Run.of_replay (s := freshChannel) bareCalls ⟨rfl, rfl⟩ rfl, rfl, fun hown => ?_⟩
  obtain ⟨d, hd, hget⟩ := hown (bareRun.1.take 2) _ (bareRun.1.drop 3) rfl ⟨0, .ok 7⟩ (.head _) 7 rfl
  obtain rfl : ⟨indexBytes 0, [], by decide⟩ = d := Except.ok.inj (Option.some.inj hd)
  cases hget

end SandboxIpc.Unix
