import SandboxIpc.Unix.Channel
import Mathlib.Data.Finset.Card

/-!
# The duplicates of the sending process

`HandleSender::send` duplicates each descriptor, in case it is closed before the message is sent. The
duplicates are in the descriptor table of the sending process from then on. All that is ever closed
is the socket, when the channel is dropped.

* `Encoder.obtained` — what `send` gets from `dup` in a serialization
* `Process`, `step` — a channel and the table of its process
* `Conserved` — nothing is left in the table but what was there before and what a pending message needs
* `conserved_iff` — it is the case as long as nothing was obtained for any other message
* `duplicates_left` — a message with one descriptor leaves two behind
-/

namespace SandboxIpc.Unix

open Infra

/-! ## What `dup` hands out -/

/-- The descriptor that `send` gets from `dup`, kept or not. -/
def HandleSender.obtains (s : HandleSender) (fd : RawFd) (a : DupAnswers) : Option RawFd :=
  if s.index < maxMsgFds then (a.dup fd).toOption else none

/-- A duplicate becomes the next one in the list. -/
theorem HandleSender.send_of_dup {s : HandleSender} {fd new : RawFd} {a : DupAnswers}
    (hroom : s.index < maxMsgFds) (hdup : a.dup fd = .ok new) (hset : a.setCloexec new = .ok ()) :
    ∃ s', s.send fd a = (.ok s.index, s') ∧ s'.index = s.index + 1 ∧
      s'.recorded = s.recorded ++ [new] := by
  unfold send
  rw [dif_pos hroom, hdup]
  dsimp only
  rw [hset]
  refine ⟨_, rfl, rfl, ?_⟩
  have hlt : s.index < s.fds.length := by rwa [s.fds_length]
  show (s.fds.set s.index new).take (s.index + 1) = s.fds.take s.index ++ [new]
  rw [List.take_add_one, List.getElem?_set_self hlt, List.take_set_of_le (Nat.le_refl _)]
  rfl

/-- A descriptor that is taken has been duplicated. -/
theorem HandleSender.send_ok {s s' : HandleSender} {fd : RawFd} {a : DupAnswers} {index : Nat}
    (h : s.send fd a = (.ok index, s')) : index = s.index ∧ s'.index = s.index + 1 ∧
      ∃ new, s.obtains fd a = some new ∧ s'.recorded = s.recorded ++ [new] := by
  by_cases hroom : s.index < maxMsgFds
  · cases hdup : a.dup fd with
    | error e => simp [send, hroom, hdup] at h
    | ok new =>
      cases hset : a.setCloexec new with
      | error e => simp [send, hroom, hdup, hset] at h
      | ok _ =>
        obtain ⟨s₁, hsend, hindex, hrecorded⟩ := send_of_dup hroom hdup hset
        obtain ⟨hok, rfl⟩ := Prod.mk.inj (hsend.symm.trans h)
        refine ⟨(Except.ok.inj hok).symm, hindex, new, ?_, hrecorded⟩
        simp [obtains, hroom, hdup, Except.toOption]
  · simp [send, hroom] at h

/-- A descriptor that is not taken leaves the list alone. -/
theorem HandleSender.send_error {s s' : HandleSender} {fd : RawFd} {a : DupAnswers} {e : IoError}
    (h : s.send fd a = (.error e, s')) : s' = s := by
  unfold send at h
  split at h
  · split at h
    · exact (Prod.mk.inj h).2.symm
    · split at h
      · exact (Prod.mk.inj h).2.symm
      · cases h
  · exact (Prod.mk.inj h).2.symm

/-- The descriptors that the calls of `send` get from `dup`, oldest first. -/
def Encoder.obtained (answers : Nat → DupAnswers) : Encoder → Nat → Writing → List RawFd
  | .done, _, _ => []
  | .fail _, _, _ => []
  | .write bytes next, n, w =>
    let (fitted, cursor) := w.cursor.writeAll bytes
    (next fitted).obtained answers n { w with cursor }
  | .sendableFd fd next, n, w =>
    let (index, sender) := SendableFd.serialize w.sender fd (answers n)
    (w.sender.bind fun s => s.obtains fd (answers n)).toList
      ++ (next index).obtained answers (n + 1) { w with sender }

/-! ## The process -/

/-- A process that sends messages over a channel. -/
structure Process (libc : Libc) where
  /-- `none` once it has been dropped. -/
  channel : Option (State libc)
  /-- The descriptors that are open. -/
  table : Finset RawFd
  /-- Not in the source: the descriptors obtained for the message that is pending. -/
  held : List RawFd

namespace Process

variable {libc : Libc} {T : Type}

/-- A call of the user at the sending end. -/
inductive Act (T : Type)
  | startSend (item : T) (w : WriteAnswers) (answers : Nat → DupAnswers)
  | pollComplete (w : WriteAnswers)
  | drop

section Step

variable (encode : T → Encoder)

/-- The descriptors obtained in a call. -/
def obtained (s : Process libc) : Act T → List RawFd
  | .startSend item w answers =>
    match s.channel with
    | none => []
    | some ch =>
      match (ch.channel.pollComplete libc.eagain (MessageChannel.write w)).1 with
      | .ok (.ready ()) =>
        (encode item).obtained answers 0 ⟨some .new, ⟨ch.channel.txBuffer, 0⟩⟩
      -- the serialization does not begin while another message is pending
      | _ => []
  | _ => []

/-- `dup` returns a number that is not in use. -/
def Fresh (s : Process libc) (fds : List RawFd) : Prop := fds.Nodup ∧ ∀ fd ∈ fds, fd ∉ s.table

instance (s : Process libc) (fds : List RawFd) : Decidable (s.Fresh fds) :=
  inferInstanceAs (Decidable (_ ∧ _))

def step (s : Process libc) (a : Act T) : Option (Process libc) :=
  match s.channel, a with
  | none, _ => none
  | some ch, .startSend item w answers =>
    let fds := s.obtained encode a
    let (result, channel, context) := ch.channel.startSend libc.eagain (MessageChannel.write w)
      (serialize answers encode) item ch.context
    if s.Fresh fds then
      some {
        channel := some ⟨channel, context⟩
        table := s.table ∪ fds.toFinset
        held :=
          match result, channel.bufferedSend with
          | .ok .ready, _ => fds
          | _, some _ => s.held
          | _, none => [] }
    else none
  | some ch, .pollComplete w =>
    let (_, channel) := ch.channel.pollComplete libc.eagain (MessageChannel.write w)
    some { s with
      channel := some ⟨channel, ch.context⟩
      held := if channel.bufferedSend.isSome then s.held else [] }
  -- `ScopedFd::drop`; the buffers hold numbers only
  | some ch, .drop =>
    some { channel := none, table := s.table.erase ch.channel.io.socket.fd, held := [] }

/-- A process with a channel that has been wrapped, and these descriptors. -/
def system (socket : RawFd) (base : Finset RawFd) : System (Process libc) (Act T) where
  init s := s.table = base ∧ socket ∈ base ∧ s.held = [] ∧
    ∃ ch, s.channel = some ch ∧ ch.channel.bufferedSend = none ∧ ch.channel.io.socket.fd = socket
  step := step encode

/-- All descriptors obtained so far. -/
def obtainedIn (h : List (Process libc × Act T)) : List RawFd :=
  h.flatMap fun e => e.1.obtained encode e.2

end Step

/-- What was open before and still is: all but the socket of a channel that has been dropped. -/
def kept (s : Process libc) (socket : RawFd) (base : Finset RawFd) : Finset RawFd :=
  if s.channel.isSome then base else base.erase socket

/-- Every duplicate made so far has been closed, but for those of a pending message. -/
structure Conserved (socket : RawFd) (base : Finset RawFd) (s : Process libc) : Prop where
  table : s.table = s.kept socket base ∪ s.held.toFinset
  /-- With no message pending there are as many descriptors as before. -/
  count : (∀ ch ∈ s.channel, ch.channel.bufferedSend = none) →
    s.table.card = (s.kept socket base).card

/-! ## What the calls leave behind -/

/-- The table after a run in which these descriptors were obtained. -/
structure Ledger (socket : RawFd) (base : Finset RawFd) (fds : List RawFd) (s : Process libc) :
    Prop where
  table : s.table = s.kept socket base ∪ fds.toFinset
  new : ∀ fd ∈ fds, fd ∉ base
  held : ∀ fd ∈ s.held, fd ∈ fds
  socket_eq : ∀ ch ∈ s.channel, ch.channel.io.socket.fd = socket
  socket_mem : socket ∈ base
  pending : (∀ ch ∈ s.channel, ch.channel.bufferedSend = none) → s.held = []

end Process

/-! ## The socket and the pending message -/

section Calls

variable {libc : Libc} {T : Type}

theorem Flush.fd_eq {d d' : BincodeDatagram (MessageChannel libc)} (h : Flush d d') :
    d'.io.socket.fd = d.io.socket.fd := by
  cases h with
  | kept => rfl
  | taken => rfl

theorem fd_serialize (answers : Nat → DupAnswers) (encode : T → Encoder) (item : T)
    (cursor : Cursor) (io : MessageChannel libc) (context : Context) :
    (serialize answers encode item cursor io context).io.socket.fd = io.socket.fd := by
  rcases serialize_cases encode answers item cursor io context with
    ⟨failure, -, hio, -⟩ | ⟨writing, sender, cmsg, -, -, -, heq⟩
  · rw [hio]
  · rw [heq]

variable (w : WriteAnswers) (answers : Nat → DupAnswers) (encode : T → Encoder) (item : T)
  (d : BincodeDatagram (MessageChannel libc)) (context : Context)

theorem fd_startSend :
    (d.startSend libc.eagain (MessageChannel.write w) (serialize answers encode) item
      context).2.1.io.socket.fd = d.io.socket.fd := by
  have hflush := (flush_pollComplete w d).fd_eq
  rcases d.startSend_cases (serialize answers encode) item context with ⟨r, -, heq⟩ | ⟨-, heq⟩
  · rw [heq]
    exact hflush
  · rw [heq, BincodeDatagram.io_store, fd_serialize]
    exact hflush

/-- An item that is accepted is pending. -/
theorem pending_of_accepted
    (h : (d.startSend libc.eagain (MessageChannel.write w) (serialize answers encode) item
      context).1 = .ok .ready) :
    (d.startSend libc.eagain (MessageChannel.write w) (serialize answers encode) item
      context).2.1.bufferedSend ≠ none := by
  rcases d.startSend_cases (serialize answers encode) item context with ⟨r, hr, heq⟩ | ⟨-, heq⟩
  · rw [heq] at h
    exact absurd h hr
  · rw [heq] at h ⊢
    rcases serialize_cases encode answers item ⟨(d.pollComplete libc.eagain
      (MessageChannel.write w)).2.txBuffer, 0⟩ (d.pollComplete libc.eagain
      (MessageChannel.write w)).2.io context with
      ⟨failure, hfail, -, -⟩ | ⟨writing, sender, cmsg, -, -, -, hser⟩
    · rw [BincodeDatagram.store_of_error hfail] at h
      cases h
    · rw [BincodeDatagram.store_of_ok hser]
      exact Option.some_ne_none _

end Calls

namespace Process

variable {libc : Libc} {T : Type} {encode : T → Encoder}

/-- A call leaves the channel open and adds what it obtains, or it is the drop. -/
theorem step_cases {s s' : Process libc} {a : Act T} (hs : step encode s a = some s') :
    ∃ ch, s.channel = some ch ∧
      ((∃ ch', s'.channel = some ch' ∧ ch'.channel.io.socket.fd = ch.channel.io.socket.fd ∧
          s.Fresh (s.obtained encode a) ∧ s'.table = s.table ∪ (s.obtained encode a).toFinset ∧
          (s'.held = s.obtained encode a ∨ s'.held = s.held ∨ s'.held = []) ∧
          (ch'.channel.bufferedSend = none → s'.held = [])) ∨
        (s.obtained encode a = [] ∧ s'.channel = none ∧
          s'.table = s.table.erase ch.channel.io.socket.fd ∧ s'.held = [])) := by
  obtain ⟨channel, table, held⟩ := s
  cases channel with
  | none => cases hs
  | some ch =>
    refine ⟨ch, rfl, ?_⟩
    cases a with
    | startSend item w answers =>
      have hfd := fd_startSend w answers encode item ch.channel ch.context
      have hpending := pending_of_accepted w answers encode item ch.channel ch.context
      unfold step at hs
      dsimp only at hs
      obtain ⟨hfresh, hs⟩ := Option.ite_none_right_eq_some.mp hs
      obtain rfl := Option.some.inj hs
      refine .inl ⟨_, rfl, hfd, hfresh, rfl, ?_, ?_⟩
      · dsimp only
        split
        · exact .inl rfl
        · exact .inr (.inl rfl)
        · exact .inr (.inr rfl)
      · dsimp only
        intro hnone
        rw [hnone]
        split
        · next hready => exact absurd hnone (hpending hready)
        · next hsome _ => cases hsome
        · rfl
    | pollComplete w =>
      obtain rfl := Option.some.inj hs
      refine .inl ⟨_, rfl, (flush_pollComplete w ch.channel).fd_eq, ⟨List.nodup_nil, nofun⟩,
        (Finset.union_empty table).symm, ?_, ?_⟩
      · exact .inr (ite_eq_or_eq _ _ _)
      · dsimp only
        intro hnone
        rw [hnone]
        rfl
    | drop =>
      obtain rfl := Option.some.inj hs
      exact .inr ⟨rfl, rfl, rfl, rfl⟩

variable {socket : RawFd} {base : Finset RawFd}

theorem Ledger.step {fds : List RawFd} {s s' : Process libc} {a : Act T}
    (hl : Ledger socket base fds s) (hs : Process.step encode s a = some s') :
    Ledger socket base (fds ++ s.obtained encode a) s' := by
  obtain ⟨ch, hch, ⟨ch', hch', hfd, ⟨-, hnew⟩, htable, hheld, hpending⟩ |
    ⟨hnothing, hch', htable, hheld⟩⟩ := step_cases hs
  · have hkept : s.kept socket base = base := by rw [kept, hch]; rfl
    have hkept' : s'.kept socket base = base := by rw [kept, hch']; rfl
    have hbase := hl.table
    rw [hkept] at hbase
    refine ⟨?_, ?_, ?_, ?_, hl.socket_mem, ?_⟩
    · rw [htable, hkept', hbase, List.toFinset_append, Finset.union_assoc]
    · intro fd hmem
      rcases List.mem_append.mp hmem with hmem | hmem
      · exact hl.new fd hmem
      · intro hin
        refine hnew fd hmem ?_
        rw [hbase]
        exact Finset.mem_union_left _ hin
    · intro fd hmem
      rcases hheld with heq | heq | heq
      · exact List.mem_append_right _ (heq ▸ hmem)
      · exact List.mem_append_left _ (hl.held fd (heq ▸ hmem))
      · rw [heq] at hmem
        cases hmem
    · intro x hx
      obtain rfl := Option.some.inj (hch'.symm.trans hx)
      rw [hfd]
      exact hl.socket_eq ch hch
    · intro hnone
      exact hpending (hnone ch' hch')
  · -- the socket is in the way of nothing that was obtained
    have hkept : s.kept socket base = base := by rw [kept, hch]; rfl
    have hkept' : s'.kept socket base = base.erase socket := by rw [kept, hch']; rfl
    have hout : socket ∉ fds.toFinset := fun hmem =>
      hl.new socket (List.mem_toFinset.mp hmem) hl.socket_mem
    rw [hnothing, List.append_nil]
    refine ⟨?_, hl.new, ?_, ?_, hl.socket_mem, fun _ => hheld⟩
    · rw [htable, hl.socket_eq ch hch, hl.table, hkept, hkept', Finset.erase_union_distrib,
        Finset.erase_eq_of_notMem hout]
    · rw [hheld]
      nofun
    · rw [hch']
      nofun

theorem ledger_of_run {h : List (Process libc × Act T)} {s : Process libc}
    (hr : Run (system encode socket base) h s) : Ledger socket base (obtainedIn encode h) s := by
  refine hr.ledger (fun h s => Ledger socket base (obtainedIn encode h) s) ?_ ?_
  · rintro s ⟨htable, hmem, hheld, ch, hch, -, hfd⟩
    refine ⟨?_, nofun, ?_, ?_, hmem, fun _ => hheld⟩
    · rw [htable, kept, hch]
      exact (Finset.union_empty base).symm
    · rw [hheld]
      nofun
    · intro x hx
      obtain rfl := Option.some.inj (hch.symm.trans hx)
      exact hfd
  · intro h s a s' hl hs
    have hsnoc : obtainedIn encode (h ++ [(s, a)]) = obtainedIn encode h ++ s.obtained encode a := by
      unfold obtainedIn
      rw [List.flatMap_append, List.flatMap_singleton]
    rw [hsnoc]
    exact hl.step hs

/-! ## Conservation -/

/-- Nothing is left behind if and only if all that was obtained was obtained for the message that is
pending. -/
theorem conserved_iff {h : List (Process libc × Act T)} {s : Process libc}
    (hr : Run (system encode socket base) h s) :
    Conserved socket base s ↔ ∀ e ∈ h, ∀ fd ∈ e.1.obtained encode e.2, fd ∈ s.held := by
  have hl := ledger_of_run hr
  have hobtained : (∀ e ∈ h, ∀ fd ∈ e.1.obtained encode e.2, fd ∈ s.held) ↔
      ∀ fd ∈ obtainedIn encode h, fd ∈ s.held := by
    unfold obtainedIn
    constructor
    · intro hall fd hmem
      obtain ⟨e, he, hfd⟩ := List.mem_flatMap.mp hmem
      exact hall e he fd hfd
    · intro hall e he fd hfd
      exact hall fd (List.mem_flatMap.mpr ⟨e, he, hfd⟩)
  rw [hobtained]
  constructor
  · intro hc fd hmem
    have htable : fd ∈ s.table := by
      rw [hl.table]
      exact Finset.mem_union_right _ (List.mem_toFinset.mpr hmem)
    rw [hc.table] at htable
    rcases Finset.mem_union.mp htable with hkept | hheld
    · refine absurd ?_ (hl.new fd hmem)
      unfold kept at hkept
      split at hkept
      · exact hkept
      · exact Finset.mem_of_mem_erase hkept
    · exact List.mem_toFinset.mp hheld
  · intro hall
    have hsame : (obtainedIn encode h).toFinset = s.held.toFinset := by
      ext fd
      rw [List.mem_toFinset, List.mem_toFinset]
      exact ⟨hall fd, hl.held fd⟩
    have htable := hl.table
    rw [hsame] at htable
    refine ⟨htable, ?_⟩
    intro hnone
    rw [htable, hl.pending hnone]
    exact congrArg Finset.card (Finset.union_empty _)

/-- A process with its standard descriptors and the socket. -/
def sending : Process linux where
  channel := some freshChannel
  table := {0, 1, 2, 3}
  held := []

/-- While the message is pending, the duplicates are those it holds. -/
theorem conserved_pending : ∃ h, ∃ s : Process linux, Run (system SendableFd.encode 3 {0, 1, 2, 3}) h s ∧
    s.table = {0, 1, 2, 3, 7, 8} ∧ s.held = [7, 8] ∧ Conserved 3 {0, 1, 2, 3} s := by
  have hr : Run (system SendableFd.encode 3 {0, 1, 2, 3}) _ _ :=
    Run.of_replay (s := sending) [.startSend 0 takesEight dupsFrom7]
      ⟨rfl, by decide, rfl, freshChannel, rfl, rfl, rfl⟩ rfl
  refine ⟨_, _, hr, by decide, by decide, (conserved_iff hr).mpr ?_⟩
  intro e he
  obtain rfl := List.mem_singleton.mp he
  decide

/-- A message with one descriptor leaves two behind: one from finding its size, and one from writing
it. -/
theorem duplicates_left : ∃ h, ∃ s : Process linux, Run (system SendableFd.encode 3 {0, 1, 2, 3}) h s ∧
    s.channel.isSome ∧ (∀ ch ∈ s.channel, ch.channel.bufferedSend = none) ∧
    s.table = {0, 1, 2, 3, 7, 8} ∧ ¬ Conserved 3 {0, 1, 2, 3} s := by
  have hr : Run (system SendableFd.encode 3 {0, 1, 2, 3}) _ _ :=
    Run.of_replay (s := sending) [.startSend 0 takesEight dupsFrom7, .pollComplete takesEight]
      ⟨rfl, by decide, rfl, freshChannel, rfl, rfl, rfl⟩ rfl
  refine ⟨_, _, hr, rfl, ?_, by decide, ?_⟩
  · intro ch hch
    obtain rfl := Option.some.inj hch
    rfl
  · intro hc
    exact absurd hc.table (by decide)

end Process

end SandboxIpc.Unix
