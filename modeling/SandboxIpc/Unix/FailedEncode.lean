import SandboxIpc.Unix.Duplicates
import SandboxIpc.Unix.Transport
import Mathlib.Data.List.Forall2

/-!
# Items that cannot be serialized

An item that fails has had an older message flushed, has written over `tx_buffer`, and has had some
descriptors duplicated. Two runs are compared: in the other one `poll_complete` was called in its
place. The duplicates have other numbers there.

* `Act.Same`, `Message.Same` — the same but for the numbers of duplicates
* `Alike` — what the two channels have in common
* `no_trace` — later calls give the same answers and send the same messages in both runs
-/

namespace SandboxIpc.Unix

open Infra

variable {libc : Libc} {T R : Type}

/-! ## Corresponding calls and messages -/

/-- The system gives the same answers, but for the numbers of the duplicates. -/
def DupAnswers.Same (N : RawFd → RawFd → Prop) (a a' : DupAnswers) : Prop :=
  ∀ fd, match a.dup fd, a'.dup fd with
    | .ok new, .ok new' => N new new' ∧ a'.setCloexec new' = a.setCloexec new
    | .error e, .error e' => e' = e
    | _, _ => False

inductive Act.Same (N : RawFd → RawFd → Prop) : Act T → Act T → Prop
  | startSend (item : T) (w : WriteAnswers) {answers answers' : Nat → DupAnswers} :
      (∀ n, (answers n).Same N (answers' n)) →
      Same N (.startSend item w answers) (.startSend item w answers')
  | pollComplete (w : WriteAnswers) : Same N (.pollComplete w) (.pollComplete w)

def Message.Same (N : RawFd → RawFd → Prop) (m m' : Message) : Prop :=
  m'.bytes = m.bytes ∧ List.Forall₂ N m.fds m'.fds

/-- What a call returns. -/
inductive Reply (T R : Type)
  | startSend (result : Outcome (AsyncSink T))
  | pollComplete (result : Except IoError (Async Unit))
  | poll (result : Outcome (Async (Option R)))

section Calls

variable (encode : T → Encoder) (decode : List UInt8 → Decoder R)

def reply (s : State libc) : Act T → Reply T R
  | .startSend item w answers => .startSend (startSend encode s item w answers).1
  | .pollComplete w =>
    .pollComplete (s.channel.pollComplete libc.eagain (MessageChannel.write w)).1
  | .poll r answers =>
    .poll (s.channel.poll libc.eagain (MessageChannel.read r) (deserialize answers decode) s.context).1

/-- What some calls return, one after the other. -/
def replies : State libc → List (Act T) → List (Reply T R)
  | _, [] => []
  | s, a :: as => reply encode decode s a :: replies (next encode decode s a) as

/-- The state after some calls. -/
def after (s : State libc) (as : List (Act T)) : State libc := as.foldl (next encode decode) s

end Calls

/-! ## The two serializations of an item -/

section Serializations

variable {N : RawFd → RawFd → Prop}

/-- Two lists that differ in the numbers of the duplicates. -/
def HandleSender.Same (N : RawFd → RawFd → Prop) (s s' : HandleSender) : Prop :=
  s'.index = s.index ∧ List.Forall₂ N s.recorded s'.recorded

theorem HandleSender.Same.send {s s' : HandleSender} (h : s.Same N s') {a a' : DupAnswers}
    (ha : a.Same N a') (fd : RawFd) :
    (s'.send fd a').1 = (s.send fd a).1 ∧ (s.send fd a).2.Same N (s'.send fd a').2 := by
  obtain ⟨hindex, hrecorded⟩ := h
  by_cases hroom : s.index < maxMsgFds
  · have hroom' : s'.index < maxMsgFds := by rwa [hindex]
    have hfd := ha fd
    cases hdup : a.dup fd with
    | error e =>
      cases hdup' : a'.dup fd with
      | ok new' => simp [hdup, hdup'] at hfd
      | error e' =>
        simp only [hdup, hdup'] at hfd
        simp only [HandleSender.send, dif_pos hroom, dif_pos hroom', hdup, hdup', hfd, true_and]
        exact ⟨hindex, hrecorded⟩
    | ok new =>
      cases hdup' : a'.dup fd with
      | error e' => simp [hdup, hdup'] at hfd
      | ok new' =>
        simp only [hdup, hdup'] at hfd
        obtain ⟨hnew, hset⟩ := hfd
        cases hcloexec : a.setCloexec new with
        | error e =>
          rw [hcloexec] at hset
          simp only [HandleSender.send, dif_pos hroom, dif_pos hroom', hdup, hdup', hset, hcloexec,
            true_and]
          exact ⟨hindex, hrecorded⟩
        | ok _ =>
          rw [hcloexec] at hset
          obtain ⟨t, hsend, hnext, htaken⟩ := send_of_dup hroom hdup hcloexec
          obtain ⟨t', hsend', hnext', htaken'⟩ := send_of_dup hroom' hdup' hset
          rw [hsend, hsend', hindex]
          refine ⟨rfl, by rw [hnext', hnext, hindex], ?_⟩
          rw [htaken, htaken']
          exact List.rel_append hrecorded (.cons hnew .nil)
  · have hroom' : ¬ s'.index < maxMsgFds := by rwa [hindex]
    simp only [HandleSender.send, dif_neg hroom, dif_neg hroom', true_and]
    exact ⟨hindex, hrecorded⟩

/-- The senders of the two runs. -/
def Senders (N : RawFd → RawFd → Prop) : Option HandleSender → Option HandleSender → Prop :=
  Option.Rel (HandleSender.Same N)

theorem Senders.serveFd {answers answers' : Nat → DupAnswers}
    (hanswers : ∀ n, (answers n).Same N (answers' n)) (n : Nat) (fd : RawFd)
    (sender sender' : Option HandleSender) (h : Senders N sender sender') :
    (serveFd answers' n fd sender').1 = (serveFd answers n fd sender).1 ∧
      Senders N (serveFd answers n fd sender).2 (serveFd answers' n fd sender').2 := by
  cases h with
  | none => exact ⟨rfl, .none⟩
  | some h =>
    obtain ⟨hresult, hsame⟩ := h.send (hanswers n) fd
    exact ⟨congrArg (Except.mapError IoError.display) hresult, .some hsame⟩

/-- The result is the same, what has been written is the same, and `sendmsg` will find corresponding
descriptors. -/
theorem serialize_alike {answers answers' : Nat → DupAnswers}
    (hanswers : ∀ n, (answers n).Same N (answers' n)) (encode : T → Encoder) (item : T)
    {cursor cursor' : Cursor} (hcursor : cursor.Same cursor') (io io' : MessageChannel libc)
    (context context' : Context) :
    (serialize answers' encode item cursor' io' context').result
        = (serialize answers encode item cursor io context).result ∧
      (serialize answers encode item cursor io context).cursor.Same
        (serialize answers' encode item cursor' io' context').cursor ∧
      ((serialize answers encode item cursor io context).result = .ok () →
        List.Forall₂ N (serialize answers encode item cursor io context).io.cmsg.rights
          (serialize answers' encode item cursor' io' context').io.cmsg.rights) := by
  have hnew : Senders N (some .new) (some .new) := .some ⟨rfl, .nil⟩
  obtain ⟨hresult, hsenders, hsame⟩ :=
    (encode item).code.run_rel (Senders.serveFd hanswers) 0 hnew hcursor
  have hrun := Encoder.run_code answers (encode item) 0 ⟨some .new, cursor⟩
  have hrun' := Encoder.run_code answers' (encode item) 0 ⟨some .new, cursor'⟩
  dsimp only at hrun hrun'
  rw [hresult] at hrun'
  generalize (encode item).code.run (serveFd answers) 0 (some .new) cursor = out
    at hrun hresult hsenders hsame hrun'
  generalize (encode item).code.run (serveFd answers') 0 (some .new) cursor' = out'
    at hresult hsenders hsame hrun'
  obtain ⟨result, sender, cursor₁⟩ := out
  obtain ⟨result', sender', cursor₁'⟩ := out'
  unfold serialize
  rw [hrun, hrun']
  cases result with
  | error failure => exact ⟨rfl, hsame, nofun⟩
  | ok _ =>
    dsimp only at hsenders ⊢
    cases hsenders with
    | none => exact ⟨rfl, hsame, nofun⟩
    | @some s s' h =>
      obtain ⟨cmsg, hset⟩ : ∃ cmsg, io.cmsg.setFds s.recorded = .ok cmsg :=
        Cmsg.setFds_ok (by rw [s.length_recorded]; exact s.index_le)
      obtain ⟨cmsg', hset'⟩ : ∃ cmsg, io'.cmsg.setFds s'.recorded = .ok cmsg :=
        Cmsg.setFds_ok (by rw [s'.length_recorded]; exact s'.index_le)
      have hcommit : commit (some s) io.cmsg = .ok cmsg := hset
      have hcommit' : commit (some s') io'.cmsg = .ok cmsg' := hset'
      rw [hcommit, hcommit']
      refine ⟨rfl, hsame, fun _ => ?_⟩
      rw [(Cmsg.rights_setFds hset).1, (Cmsg.rights_setFds hset').1]
      exact h.2

end Serializations

/-! ## The two runs -/

section Runs

variable {N : RawFd → RawFd → Prop} {encode : T → Encoder} {decode : List UInt8 → Decoder R}
  {sent : List Message} {s s' : State libc}

/-- The channels of two runs that have sent the same messages after the messages `sent`. Only the part
of `tx_buffer` that is pending is the same. -/
structure Alike (N : RawFd → RawFd → Prop) (sent : List Message) (s s' : State libc) : Prop where
  buffered : s'.channel.bufferedSend = s.channel.bufferedSend
  length : s'.channel.txBuffer.length = s.channel.txBuffer.length
  pending : ∀ n, s.channel.bufferedSend = some n →
    s'.channel.txBuffer.take n = s.channel.txBuffer.take n ∧
      List.Forall₂ N s.channel.io.cmsg.rights s'.channel.io.cmsg.rights
  sent : ∃ ms ms', s.channel.io.socket.sent = sent ++ ms ∧ s'.channel.io.socket.sent = sent ++ ms' ∧
    List.Forall₂ (Message.Same N) ms ms'

/-- The same `poll_complete` in both runs. -/
theorem Alike.pollComplete (h : Alike N sent s s') (w : WriteAnswers) :
    (s'.channel.pollComplete libc.eagain (MessageChannel.write w)).1
        = (s.channel.pollComplete libc.eagain (MessageChannel.write w)).1 ∧
      Alike N sent ⟨(s.channel.pollComplete libc.eagain (MessageChannel.write w)).2, s.context⟩
        ⟨(s'.channel.pollComplete libc.eagain (MessageChannel.write w)).2, s'.context⟩ := by
  unfold BincodeDatagram.pollComplete
  rw [h.buffered]
  cases hb : s.channel.bufferedSend with
  | none => exact ⟨rfl, h⟩
  | some n =>
    obtain ⟨hbytes, hrights⟩ := h.pending n hb
    dsimp only
    rcases MessageChannel.write_uniform libc w with ⟨e, hwrite⟩ | ⟨k, hwrite⟩
    · rw [hwrite, hwrite]
      exact ⟨rfl, rfl, h.length, fun k hk => h.pending k (hb.trans hk), h.sent⟩
    · obtain ⟨ms, ms', hsent, hsent', hsame⟩ := h.sent
      have hmessage : Message.Same N ⟨s.channel.txBuffer.take n, s.channel.io.cmsg.rights⟩
          ⟨s'.channel.txBuffer.take n, s'.channel.io.cmsg.rights⟩ := ⟨hbytes, hrights⟩
      have htaken : ∃ ms ms', (s.channel.io.send (s.channel.txBuffer.take n)).socket.sent = sent ++ ms ∧
          (s'.channel.io.send (s'.channel.txBuffer.take n)).socket.sent = sent ++ ms' ∧
          List.Forall₂ (Message.Same N) ms ms' := by
        refine ⟨_, _, ?_, ?_, List.rel_append hsame (.cons hmessage .nil)⟩
        · simp [MessageChannel.send, hsent]
        · simp [MessageChannel.send, hsent']
      rw [hwrite, hwrite]
      dsimp only
      by_cases hk : k = n
      · rw [if_pos hk, if_pos hk]
        exact ⟨rfl, rfl, h.length, nofun, htaken⟩
      · -- the message stays, and is sent again
        rw [if_neg hk, if_neg hk]
        exact ⟨rfl, rfl, h.length, fun k hk => h.pending k (hb.trans hk), htaken⟩

variable (encode) in
/-- The same `start_send` in both runs. -/
theorem Alike.startSend (h : Alike N sent s s') {answers answers' : Nat → DupAnswers}
    (hanswers : ∀ n, (answers n).Same N (answers' n)) (item : T) (w : WriteAnswers) :
    (startSend encode s' item w answers').1 = (startSend encode s item w answers).1 ∧
      Alike N sent (startSend encode s item w answers).2 (startSend encode s' item w answers').2 := by
  obtain ⟨hreply, hflushed⟩ := h.pollComplete w
  have hready : (s.channel.pollComplete libc.eagain (MessageChannel.write w)).1 = .ok (.ready ()) →
      (s.channel.pollComplete libc.eagain (MessageChannel.write w)).2.bufferedSend = none :=
    BincodeDatagram.bufferedSend_of_ready
  unfold Unix.startSend BincodeDatagram.startSend
  rw [BincodeDatagram.flush_eq, BincodeDatagram.flush_eq]
  generalize s.channel.pollComplete libc.eagain (MessageChannel.write w) = out
    at hreply hflushed hready ⊢
  generalize s'.channel.pollComplete libc.eagain (MessageChannel.write w) = out' at hreply hflushed ⊢
  obtain ⟨result, d⟩ := out
  obtain ⟨result', d'⟩ := out'
  obtain rfl : result' = result := hreply
  rcases result' with e | ⟨_ | _⟩
  · exact ⟨rfl, hflushed⟩
  · -- the way is free for the item
    have hnone : d.bufferedSend = none := hready rfl
    have hnone' : d'.bufferedSend = none := hflushed.buffered.trans hnone
    have hcursor : Cursor.Same ⟨d.txBuffer, 0⟩ ⟨d'.txBuffer, 0⟩ :=
      ⟨Nat.zero_le _, rfl, hflushed.length, rfl⟩
    obtain ⟨hresult, hsame, hrights⟩ :=
      serialize_alike hanswers encode item hcursor d.io d'.io s.context s'.context
    have hsocket := (serialize_eq answers encode item ⟨d.txBuffer, 0⟩ d.io s.context).2
    have hsocket' := (serialize_eq answers' encode item ⟨d'.txBuffer, 0⟩ d'.io s'.context).2
    have hsent := hflushed.sent
    dsimp only at hsent
    rw [← hsocket, ← hsocket'] at hsent
    dsimp only [BincodeDatagram.store]
    generalize serialize answers encode item ⟨d.txBuffer, 0⟩ d.io s.context = out
      at hresult hsame hrights hsent ⊢
    generalize serialize answers' encode item ⟨d'.txBuffer, 0⟩ d'.io s'.context = out'
      at hresult hsame hrights hsent ⊢
    rw [hresult]
    cases hr : out.result with
    | error failure =>
      exact ⟨rfl, hnone'.trans hnone.symm, hsame.length, fun n hn => absurd (hnone.symm.trans hn) nofun,
        hsent⟩
    | ok _ =>
      refine ⟨rfl, congrArg some hsame.position, hsame.length, fun n hn => ?_, hsent⟩
      obtain rfl := Option.some.inj hn
      have hwritten := hsame.written
      unfold Cursor.written at hwritten
      rw [hsame.position] at hwritten
      exact ⟨hwritten, hrights hr⟩
  · exact ⟨rfl, hflushed⟩

variable (encode decode) in
theorem Alike.next (h : Alike N sent s s') {a a' : Act T} (ha : a.Same N a') :
    reply encode decode s' a' = reply encode decode s a ∧
      Alike N sent (next encode decode s a) (next encode decode s' a') := by
  cases ha with
  | startSend item w hanswers =>
    obtain ⟨hreply, halike⟩ := h.startSend encode hanswers item w
    exact ⟨congrArg Reply.startSend hreply, halike⟩
  | pollComplete w =>
    obtain ⟨hreply, halike⟩ := h.pollComplete w
    exact ⟨congrArg Reply.pollComplete hreply, halike⟩

theorem Alike.after (h : Alike N sent s s') {as as' : List (Act T)}
    (hacts : List.Forall₂ (Act.Same N) as as') :
    replies encode decode s' as' = replies encode decode s as ∧
      Alike N sent (after encode decode s as) (after encode decode s' as') := by
  induction hacts generalizing s s' with
  | nil => exact ⟨rfl, h⟩
  | cons ha _ ih =>
    obtain ⟨hreply, hnext⟩ := h.next encode decode ha
    obtain ⟨hreplies, hafter⟩ := ih hnext
    exact ⟨congrArg₂ List.cons hreply hreplies, hafter⟩

/-- An item that fails leaves the channel as `poll_complete` does, but for bytes that are not
pending. -/
theorem alike_of_failed {item : T} {w : WriteAnswers} {answers : Nat → DupAnswers} {stop : Stop}
    (hfree : WayFree s w) (hfail : (startSend encode s item w answers).1 = .error stop) :
    Alike N (next encode decode s (.pollComplete w)).channel.io.socket.sent
      (next encode decode s (.startSend item w answers)) (next encode decode s (.pollComplete w)) := by
  have hready := pollComplete_ready_iff.mpr hfree
  have hnone := BincodeDatagram.bufferedSend_of_ready hready
  rw [next_startSend]
  unfold startSend at hfail ⊢
  rw [BincodeDatagram.startSend_of_ready hready] at hfail ⊢
  dsimp only [Unix.next] at hfail ⊢
  generalize (s.channel.pollComplete libc.eagain (MessageChannel.write w)).2 = d at hnone hfail ⊢
  have hsocket := (serialize_eq answers encode item ⟨d.txBuffer, 0⟩ d.io s.context).2
  have hlength := (serialize_bounds answers encode item d.txBuffer d.io s.context).2
  dsimp only [BincodeDatagram.store] at hfail ⊢
  generalize serialize answers encode item ⟨d.txBuffer, 0⟩ d.io s.context = out
    at hsocket hlength hfail ⊢
  cases hr : out.result with
  | error failure =>
    refine ⟨rfl, hlength.symm, fun n hn => absurd (hnone.symm.trans hn) nofun, [], [], ?_, ?_, .nil⟩
    · rw [List.append_nil]
      exact congrArg Socket.sent hsocket
    · rw [List.append_nil]
  | ok _ =>
    rw [hr] at hfail
    cases hfail

/--
After an item that has failed the way is free for the next one. Later calls return what they return
after a `poll_complete` in its place, and the same messages are sent, with duplicates of the same
descriptors.
-/
theorem no_trace {item : T} {w : WriteAnswers} {answers : Nat → DupAnswers} {stop : Stop}
    (hfree : WayFree s w) (hfail : (startSend encode s item w answers).1 = .error stop)
    {as as' : List (Act T)} (hacts : List.Forall₂ (Act.Same N) as as') :
    (next encode decode s (.startSend item w answers)).channel.io.socket.sent
        = (next encode decode s (.pollComplete w)).channel.io.socket.sent ∧
      (∀ w', WayFree (next encode decode s (.startSend item w answers)) w') ∧
      replies encode decode (next encode decode s (.pollComplete w)) as'
        = replies encode decode (next encode decode s (.startSend item w answers)) as ∧
      ∃ ms ms',
        (after encode decode (next encode decode s (.startSend item w answers)) as).channel.io.socket.sent
          = (next encode decode s (.startSend item w answers)).channel.io.socket.sent ++ ms ∧
        (after encode decode (next encode decode s (.pollComplete w)) as').channel.io.socket.sent
          = (next encode decode s (.pollComplete w)).channel.io.socket.sent ++ ms' ∧
        List.Forall₂ (Message.Same N) ms ms' := by
  have halike : Alike N (next encode decode s (.pollComplete w)).channel.io.socket.sent
    (next encode decode s (.startSend item w answers)) (next encode decode s (.pollComplete w)) :=
    alike_of_failed hfree hfail
  have hway : ∀ w', WayFree (next encode decode s (.startSend item w answers)) w' := by
    have hnone : (next encode decode s (.pollComplete w)).channel.bufferedSend = none :=
      BincodeDatagram.bufferedSend_of_ready (pollComplete_ready_iff.mpr hfree)
    intro w' n hn
    rw [← halike.buffered, hnone] at hn
    cases hn
  have hsame : (next encode decode s (.startSend item w answers)).channel.io.socket.sent
      = (next encode decode s (.pollComplete w)).channel.io.socket.sent := by
    obtain ⟨ms, ms', hsent, hsent', hms⟩ := halike.sent
    obtain rfl := List.self_eq_append_right.mp hsent'
    obtain rfl := List.forall₂_nil_right_iff.mp hms
    rwa [List.append_nil] at hsent
  obtain ⟨hreplies, hafter⟩ := halike.after hacts
  obtain ⟨ms, ms', hsent, hsent', hms⟩ := hafter.sent
  refine ⟨hsame, hway, hreplies, ms, ms', ?_, hsent', hms⟩
  rw [hsame]
  exact hsent

/-- The second `dup` fails. -/
def secondDupFails (n : Nat) : DupAnswers :=
  ⟨fun _ => if n = 0 then .ok 7 else .error (.os 24), fun _ => .ok ()⟩

def dupsFrom8 (n : Nat) : DupAnswers := ⟨fun _ => .ok (8 + n), fun _ => .ok ()⟩

/-- The item after one that has failed is sent, with the duplicates numbered from eight on and not from
seven. -/
theorem no_trace_next : ∃ ms ms' : List Message,
    (after SendableFd.encode SendableFd.decode
        (next SendableFd.encode SendableFd.decode freshChannel (.startSend 5 takesEight secondDupFails))
        [.startSend 6 takesEight dupsFrom8, .pollComplete takesEight]).channel.io.socket.sent = ms ∧
      (after SendableFd.encode SendableFd.decode
        (next SendableFd.encode SendableFd.decode freshChannel (.pollComplete takesEight))
        [.startSend 6 takesEight dupsFrom7, .pollComplete takesEight]).channel.io.socket.sent = ms' ∧
      List.Forall₂ (Message.Same fun fd fd' => fd = fd' + 1) ms ms' ∧
      ms = [⟨indexBytes 1, [8, 9]⟩] := by
  have hstop : (startSend SendableFd.encode freshChannel 5 takesEight secondDupFails).1
      = .error (.err (.new .invalidInput (IoError.display (.os 24)))) := rfl
  have hacts : List.Forall₂ (Act.Same (T := RawFd) fun fd fd' => fd = fd' + 1)
      [.startSend 6 takesEight dupsFrom8, .pollComplete takesEight]
      [.startSend 6 takesEight dupsFrom7, .pollComplete takesEight] := by
    refine .cons (.startSend 6 takesEight fun n fd => ⟨?_, rfl⟩) (.cons (.pollComplete takesEight) .nil)
    show (8 + n : Int) = 7 + n + 1
    omega
  have hfree : WayFree freshChannel takesEight := fun n hn => by cases hn
  obtain ⟨-, -, -, ms, ms', hms, hms', hsame⟩ := no_trace hfree hstop hacts
  exact ⟨_, _, hms, hms', hsame, hms.symm⟩

end Runs

end SandboxIpc.Unix
