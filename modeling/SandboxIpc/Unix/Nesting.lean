import SandboxIpc.Unix.Duplicates

/-!
# Messages inside messages, `unix/mod.rs`

The code of a `Serialize` or a `Deserialize` may itself send and receive over other channels of its
thread. The sender and the receiver that its descriptors go to are in two thread-locals, which a guard
swaps at the beginning of a call and puts back at its end, however the call ends.

* `Cell` — a `RefCell` of a thread-local
* `Routine` — code that sends and receives, in any nesting
* `Thread` — the channels and the thread-locals
* `Event.Scoped` — what should have happened at each point
* `contexts_scoped` — all that happens on a thread is as it should be
* `recorded_by_poll` — a `Deserialize` may record descriptors for the message around it
-/

namespace SandboxIpc.Unix

open Infra

variable {libc : Libc} {ι V : Type}

/-! ## The thread-locals -/

/-- A `RefCell<Option<α>>`. -/
structure Cell (α : Type) where
  value : Option α
  /-- A `RefMut` is alive. -/
  borrowed : Bool

/-- What `borrow_mut` does to a cell that is borrowed. -/
def alreadyBorrowed : Failure := .panic "already borrowed: BorrowMutError"

namespace Cell

variable {α β : Type}

def empty : Cell α := ⟨none, false⟩

theorem eq_mk {c : Cell α} {value : Option α} {borrowed : Bool} (hvalue : c.value = value)
    (hborrowed : c.borrowed = borrowed) : c = ⟨value, borrowed⟩ := by
  subst hvalue hborrowed
  rfl

/-- While no call is in progress, nothing is in the cell. -/
theorem eq_empty {c : Cell α} {calls : Nat} (hvalue : c.value.isSome ↔ 0 < calls)
    (hborrowed : c.borrowed = true → 0 < calls) (hzero : calls = 0) : c = empty := by
  have hcalls : ¬ 0 < calls := by omega
  have hnone : c.value = none := Option.not_isSome_iff_eq_none.mp (mt hvalue.mp hcalls)
  exact eq_mk hnone (Bool.eq_false_iff.mpr (mt hborrowed hcalls))

/-- What is in the cell, by `borrow_mut`. -/
def get (c : Cell α) : Except Failure (Option α) :=
  if c.borrowed then .error alreadyBorrowed else .ok c.value

/-- `mem::swap(&mut *x.borrow_mut(), &mut value)`. -/
def swap (c : Cell α) (value : Option α) : Except Failure (Option α × Cell α) :=
  if c.borrowed then .error alreadyBorrowed else .ok (c.value, ⟨value, false⟩)

/-- The drop of a guard that holds `value`, at the end of a call with this result. -/
def restore (c : Cell α) (value : Option α) (result : Except Failure β) :
    Except Failure β × Cell α :=
  if c.borrowed then (.error alreadyBorrowed, c) else (result, ⟨value, false⟩)

/-- The drop of a `RefMut`. -/
def release (c : Cell α) : Cell α := { c with borrowed := false }

end Cell

/-- What the two thread-locals hold. -/
structure Contexts where
  sender : Option HandleSender
  receiver : Option HandleReceiver

/-- Not in the source: something that has happened on a thread. -/
inductive Event (libc : Libc)
  /-- A `start_send` has returned or unwound. -/
  | startSend (before after : Contexts)
  /-- A `poll` has returned or unwound. Its `Deserialize` has had these descriptors duplicated, outside
  of all `start_send`s of its own. -/
  | poll (before after : Contexts) (own : List RawFd)
  /-- `commit` has looked into the thread-local, for a message with these duplicates. -/
  | commit (found : Except Failure (Option HandleSender)) (made : List RawFd)
  /-- The item of a message with these duplicates has been serialized, or not. -/
  | serialized (result : Except Failure Unit) (made : List RawFd) (before after : Cmsg libc maxMsgFds)
  /-- A `SendableFd` has been serialized, or not, while so many serializations were in progress. -/
  | serializeFd (sending : Nat) (failure : Option Failure)
  /-- One has been deserialized, or not, while so many deserializations were in progress. -/
  | deserializeFd (receiving : Nat) (failure : Option Failure)

/-- The failure of a result. -/
def failureOf {α : Type} : Except Failure α → Option Failure
  | .error failure => some failure
  | .ok _ => none

/-! ## Threads -/

structure Thread (libc : Libc) (ι : Type) where
  /-- `none` while a call borrows the channel. -/
  channels : ι → Option (BincodeDatagram (MessageChannel libc))
  /-- `CURRENT_SERIALIZE_CHANNEL_REMOTE_PROCESS`. -/
  sender : Cell HandleSender
  /-- `CURRENT_DESERIALIZE_CHANNEL_REMOTE_PROCESS`. -/
  receiver : Cell HandleReceiver
  /-- Not in the source: the number of serializations in progress. -/
  sending : Nat
  /-- Not in the source: the number of deserializations in progress. -/
  receiving : Nat
  /-- Not in the source: the duplicates made for the message of the innermost serialization. -/
  made : List RawFd
  /-- Not in the source. -/
  trace : List (Event libc)

/-- Code on a thread, with the serializer at hand. -/
abbrev Body (libc : Libc) (ι V : Type) :=
  Thread libc ι → Cursor → Except Failure V × Thread libc ι × Cursor

namespace Thread

/-- A thread that does nothing yet. -/
def fresh (channels : ι → Option (BincodeDatagram (MessageChannel libc))) : Thread libc ι where
  channels
  sender := .empty
  receiver := .empty
  sending := 0
  receiving := 0
  made := []
  trace := []

def contexts (t : Thread libc ι) : Contexts := ⟨t.sender.value, t.receiver.value⟩

def note (t : Thread libc ι) (events : List (Event libc)) : Thread libc ι :=
  { t with trace := t.trace ++ events }

section Calls

variable (t : Thread libc ι)

/-- `SendableFd::serialize`. The thread-local stays borrowed while `number` serializes the index. -/
def serializeFd (fd : RawFd) (a : DupAnswers) (number : Nat → Body libc ι V) (cursor : Cursor) :
    Except Failure V × Thread libc ι × Cursor :=
  if t.sender.borrowed then
    (.error alreadyBorrowed, t.note [.serializeFd t.sending (some alreadyBorrowed)], cursor)
  else
    match SendableFd.serialize t.sender.value fd a with
    | (.error message, sender) =>
      (.error (.error message),
        { t with sender := ⟨sender, false⟩ }.note [.serializeFd t.sending (some (.error message))],
        cursor)
    | (.ok index, sender) =>
      let new := (t.sender.value.bind fun s => s.obtains fd a).toList
      let (result, inner, cursor) :=
        number index { t with sender := ⟨sender, true⟩, made := t.made ++ new } cursor
      (result,
        { inner with sender := inner.sender.release }.note [.serializeFd t.sending (failureOf result)],
        cursor)

/-- `SendableFd::deserialize`. The thread-local stays borrowed while `number` reads the index. -/
def deserializeFd (number : Body libc ι V) (index : V → Nat) (a : FcntlAnswers) (cursor : Cursor) :
    Except Failure RawFd × Thread libc ι × Cursor :=
  match t.receiver.get with
  | .error failure => (.error failure, t.note [.deserializeFd t.receiving (some failure)], cursor)
  | .ok none =>
    let failure := .error "attempted to deserialize file descriptor outside of IPC channel"
    (.error failure, t.note [.deserializeFd t.receiving (some failure)], cursor)
  | .ok (some r) =>
    let (result, inner, cursor) := number { t with receiver := ⟨some r, true⟩ } cursor
    let result := result.bind fun value => (r.recv (index value) a).mapError (.error ·.display)
    (result,
      { inner with receiver := inner.receiver.release }.note
        [.deserializeFd t.receiving (failureOf result)],
      cursor)

/-- `guard.commit()`, unless the item could not be serialized. -/
def committed (result : Except Failure V) (cmsg : Cmsg libc maxMsgFds) :
    Except Failure Unit × Cmsg libc maxMsgFds × List (Event libc) :=
  match result with
  | .error failure => (.error failure, cmsg, [])
  | .ok _ =>
    match t.sender.get.bind fun sender => commit sender cmsg with
    | .error failure => (.error failure, cmsg, [.commit t.sender.get t.made])
    | .ok cmsg => (.ok (), cmsg, [.commit t.sender.get t.made])

/-- From `before_serialize` to the drop of its guard. -/
def serialize (body : Body libc ι V) (cursor : Cursor) (io : MessageChannel libc) :
    Serialized (MessageChannel libc) (Thread libc ι) :=
  match t.sender.swap (some .new) with
  | .error failure => ⟨.error failure, cursor, io, t⟩
  | .ok (guard, sender) =>
    let (result, inner, cursor) :=
      body { t with sender, sending := t.sending + 1, made := [] } cursor
    let (result, cmsg, events) := inner.committed result io.cmsg
    let (result, sender) := inner.sender.restore guard result
    { result
      cursor
      io := { io with cmsg }
      context := { inner with sender, sending := t.sending, made := t.made }.note
        (events ++ [Event.serialized result inner.made io.cmsg cmsg]) }

/-- From `before_deserialize` to the drop of its guard. -/
def deserialize (body : List UInt8 → Body libc ι V) (bytes : List UInt8) (io : MessageChannel libc) :
    Deserialized V (MessageChannel libc) (Thread libc ι) :=
  match t.receiver.swap (some (.ofCmsg io.cmsg)) with
  | .error failure => ⟨.error failure, io, t⟩
  | .ok (guard, receiver) =>
    let (result, inner, _) := body bytes { t with receiver, receiving := t.receiving + 1 } ⟨[], 0⟩
    let (result, receiver) := inner.receiver.restore guard result
    ⟨result, io, { inner with receiver, receiving := t.receiving }⟩

variable [DecidableEq ι]

def lend (j : ι) : Thread libc ι := { t with channels := Function.update t.channels j none }

def giveBack (j : ι) (channel : BincodeDatagram (MessageChannel libc)) : Thread libc ι :=
  { t with channels := Function.update t.channels j (some channel) }

/-- There is no answer if a call around this one borrows the channel. -/
def startSend (j : ι) (body : Body libc ι V) (w : WriteAnswers) :
    Option (Outcome (AsyncSink Unit)) × Thread libc ι :=
  match t.channels j with
  | none => (none, t)
  | some ch =>
    let (result, ch', t') := ch.startSend libc.eagain (MessageChannel.write w)
      (fun _ cursor io t => t.serialize body cursor io) () (t.lend j)
    (some result, (t'.giveBack j ch').note [.startSend t.contexts t'.contexts])

def poll (j : ι) (body : List UInt8 → Body libc ι V) (r : ReadAnswers) :
    Option (Outcome (Async (Option V))) × Thread libc ι :=
  match t.channels j with
  | none => (none, t)
  | some ch =>
    let (result, ch', t') := ch.poll libc.eagain (MessageChannel.read r)
      (fun bytes io t => t.deserialize body bytes io) (t.lend j)
    (some result, (t'.giveBack j ch').note
      [.poll t.contexts t'.contexts (t'.made.drop t.made.length)])

end Calls

end Thread

/-- Code on a thread, that of an item or of the user. It computes with values of `V`, and may handle
any failure or pass it on. -/
inductive Routine (ι V : Type)
  | done (value : V)
  | fail (failure : Failure)
  | write (bytes : List UInt8) (next : Bool → Routine ι V)
  | serializeFd (fd : RawFd) (a : DupAnswers) (number : Nat → Routine ι V)
      (next : Except Failure V → Routine ι V)
  | deserializeFd (number : Routine ι V) (index : V → Nat) (a : FcntlAnswers)
      (next : Except Failure RawFd → Routine ι V)
  | startSend (j : ι) (item : Routine ι V) (w : WriteAnswers)
      (next : Option (Outcome (AsyncSink Unit)) → Routine ι V)
  | poll (j : ι) (message : List UInt8 → Routine ι V) (r : ReadAnswers)
      (next : Option (Outcome (Async (Option V))) → Routine ι V)

def Routine.run [DecidableEq ι] : Routine ι V → Body libc ι V
  | .done value, t, cursor => (.ok value, t, cursor)
  | .fail failure, t, cursor => (.error failure, t, cursor)
  | .write bytes next, t, cursor =>
    let (fitted, cursor) := cursor.writeAll bytes
    (next fitted).run t cursor
  | .serializeFd fd a number next, t, cursor =>
    let (result, t, cursor) := t.serializeFd fd a (fun index => (number index).run) cursor
    (next result).run t cursor
  | .deserializeFd number index a next, t, cursor =>
    let (result, t, cursor) := t.deserializeFd number.run index a cursor
    (next result).run t cursor
  | .startSend j item w next, t, cursor =>
    let (result, t) := t.startSend j item.run w
    (next result).run t cursor
  | .poll j message r next, t, cursor =>
    let (result, t) := t.poll j (fun bytes => (message bytes).run) r
    (next result).run t cursor

/-! ## Items that use no other channel -/

/-- The code of such an item. -/
def Routine.ofEncoder (answers : Nat → DupAnswers) : Encoder → Nat → Routine ι Nat
  | .done, _ => .done 0
  | .fail failure, _ => .fail failure
  | .write bytes next, n => .write bytes fun fitted => ofEncoder answers (next fitted) n
  | .sendableFd fd next, n =>
    .serializeFd fd (answers n) .done fun
      | .ok index => ofEncoder answers (next (.ok index)) (n + 1)
      | .error (.error message) => ofEncoder answers (next (.error message)) (n + 1)
      | .error (.panic message) => .fail (.panic message)

theorem Routine.run_ofEncoder [DecidableEq ι] (answers : Nat → DupAnswers) (code : Encoder) (n : Nat)
    (t : Thread libc ι) (hfree : t.sender.borrowed = false) (cursor : Cursor) :
    ∃ value t', (ofEncoder answers code n).run t cursor
        = ((code.run answers n ⟨t.sender.value, cursor⟩).1.map fun _ => value, t',
          (code.run answers n ⟨t.sender.value, cursor⟩).2.cursor) ∧
      t'.sender = ⟨(code.run answers n ⟨t.sender.value, cursor⟩).2.sender, false⟩ := by
  induction code generalizing n t cursor with
  | done => exact ⟨0, t, rfl, Cell.eq_mk rfl hfree⟩
  | fail failure => exact ⟨0, t, rfl, Cell.eq_mk rfl hfree⟩
  | write bytes next ih => exact ih _ n t hfree _
  | sendableFd fd next ih =>
    unfold ofEncoder run Thread.serializeFd Encoder.run
    rw [hfree, if_neg Bool.false_ne_true]
    rcases SendableFd.serialize t.sender.value fd (answers n) with ⟨message | index, sender⟩
    · exact ih _ (n + 1) _ rfl cursor
    · exact ih _ (n + 1) _ rfl cursor

/-- It is serialized as it is when the thread has no other channels. -/
theorem Thread.serialize_ofEncoder [DecidableEq ι] {T : Type} (answers : Nat → DupAnswers)
    (encode : T → Encoder) (item : T) (cursor : Cursor) (io : MessageChannel libc) (context : Context)
    (t : Thread libc ι) (hfree : t.sender.borrowed = false) :
    (t.serialize (Routine.ofEncoder answers (encode item) 0).run cursor io).result
        = (Unix.serialize answers encode item cursor io context).result ∧
      (t.serialize (Routine.ofEncoder answers (encode item) 0).run cursor io).cursor
        = (Unix.serialize answers encode item cursor io context).cursor ∧
      (t.serialize (Routine.ofEncoder answers (encode item) 0).run cursor io).io
        = (Unix.serialize answers encode item cursor io context).io := by
  obtain ⟨value, t', hrun, hsender⟩ := Routine.run_ofEncoder answers (encode item) 0
    { t with sender := ⟨some .new, false⟩, sending := t.sending + 1, made := [] } rfl cursor
  unfold Thread.serialize Unix.serialize Cell.swap
  rw [hfree, if_neg Bool.false_ne_true]
  dsimp only
  rw [hrun]
  dsimp only
  generalize (encode item).run answers 0 ⟨some .new, cursor⟩ = out at hsender ⊢
  obtain ⟨failure | _, writing⟩ := out
  · dsimp only [Except.map, committed, Cell.restore]
    rw [hsender]
    exact ⟨rfl, rfl, rfl⟩
  · have hget : t'.sender.get = .ok writing.sender := by
      rw [hsender]
      rfl
    dsimp only [Except.map, committed, Cell.restore]
    rw [hget, hsender]
    dsimp only [Except.bind]
    cases commit writing.sender io.cmsg with
    | error failure => exact ⟨rfl, rfl, rfl⟩
    | ok cmsg => exact ⟨rfl, rfl, rfl⟩

/-! ## What should have happened -/

/-- The text for a descriptor that is serialized outside of all messages. -/
def serializedOutside : Failure :=
  .error "attempted to serialize file descriptor outside of IPC channel"

def deserializedOutside : Failure :=
  .error "attempted to deserialize file descriptor outside of IPC channel"

/-- It is as it should be. The list of the sender around a `poll` has the descriptors in addition that
the `Deserialize` has had duplicated. -/
def Event.Scoped : Event libc → Prop
  | .startSend before after => after = before
  | .poll before after own => after.receiver = before.receiver ∧
      after.sender.map HandleSender.recorded = before.sender.map (·.recorded ++ own) ∧
      (own = [] → after.sender = before.sender)
  | .commit found made => ∃ s, found = .ok (some s) ∧ s.recorded = made
  | .serialized (.ok ()) made before after => before.setFds made = .ok after
  | .serialized (.error _) _ before after => after = before
  | .serializeFd sending failure => sending = 0 → failure = some serializedOutside
  | .deserializeFd receiving failure => receiving = 0 → failure = some deserializedOutside

/-- Inside a message a descriptor may be serialized with any result. -/
theorem Event.scoped_serializeFd {sending : Nat} (failure : Option Failure) (h : 0 < sending) :
    (Event.serializeFd sending failure : Event libc).Scoped :=
  fun hzero => absurd h (by omega)

theorem Event.scoped_deserializeFd {receiving : Nat} (failure : Option Failure) (h : 0 < receiving) :
    (Event.deserializeFd receiving failure : Event libc).Scoped :=
  fun hzero => absurd h (by omega)

namespace Thread

/-- The thread-locals are those of the innermost calls in progress. -/
structure Noted (t : Thread libc ι) : Prop where
  sender : t.sender.value.isSome ↔ 0 < t.sending
  receiver : t.receiver.value.isSome ↔ 0 < t.receiving
  senderBorrowed : t.sender.borrowed = true → 0 < t.sending
  receiverBorrowed : t.receiver.borrowed = true → 0 < t.receiving
  recorded : ∀ s, t.sender.value = some s → s.recorded = t.made
  trace : ∀ e ∈ t.trace, e.Scoped

/-- What some code has left as it was, if `Noted` holds after it. -/
structure Leads (t t' : Thread libc ι) : Prop where
  noted : t'.Noted
  sending : t'.sending = t.sending
  receiving : t'.receiving = t.receiving
  borrowed : t'.sender.borrowed = t.sender.borrowed
  receiver : t'.receiver = t.receiver
  made : t.made <+: t'.made
  same : t'.made = t.made → t'.sender = t.sender

/-- Code that keeps to the rules. -/
def Sound (body : Body libc ι V) : Prop :=
  ∀ (t : Thread libc ι) (cursor : Cursor), t.Noted → t.Leads (body t cursor).2.1

variable {t t' t'' : Thread libc ι}

theorem Leads.refl (h : t.Noted) : t.Leads t :=
  ⟨h, rfl, rfl, rfl, rfl, List.prefix_refl _, fun _ => rfl⟩

theorem Leads.trans (h : t.Leads t') (h' : t'.Leads t'') : t.Leads t'' where
  noted := h'.noted
  sending := h'.sending.trans h.sending
  receiving := h'.receiving.trans h.receiving
  borrowed := h'.borrowed.trans h.borrowed
  receiver := h'.receiver.trans h.receiver
  made := h.made.trans h'.made
  same hmade := by
    have hmiddle : t'.made = t.made := by
      refine (h.made.eq_of_length_le ?_).symm
      rw [← hmade]
      exact h'.made.length_le
    exact (h'.same (hmade.trans hmiddle.symm)).trans (h.same hmiddle)

theorem Noted.note (h : t.Noted) {events : List (Event libc)} (he : ∀ e ∈ events, e.Scoped) :
    (t.note events).Noted :=
  ⟨h.sender, h.receiver, h.senderBorrowed, h.receiverBorrowed, h.recorded,
    fun e hmem => (List.mem_append.mp hmem).elim (h.trace e) (he e)⟩

theorem Leads.note (h : t.Leads t') {events : List (Event libc)} (he : ∀ e ∈ events, e.Scoped) :
    t.Leads (t'.note events) :=
  ⟨h.noted.note he, h.sending, h.receiving, h.borrowed, h.receiver, h.made, h.same⟩

/-- One thing has happened since. -/
theorem Leads.note_one (h : t.Leads t') {e : Event libc} (he : e.Scoped) : t.Leads (t'.note [e]) :=
  h.note (List.forall_mem_singleton.mpr he)

theorem leads_serializeFd (h : t.Noted) (fd : RawFd) (a : DupAnswers) {number : Nat → Body libc ι V}
    (hnumber : ∀ index, Sound (number index)) (cursor : Cursor) :
    t.Leads (t.serializeFd fd a number cursor).2.1 := by
  unfold serializeFd
  cases hborrowed : t.sender.borrowed with
  | true =>
    exact (Leads.refl h).note_one (Event.scoped_serializeFd _ (h.senderBorrowed hborrowed))
  | false =>
    rw [if_neg Bool.false_ne_true]
    cases hvalue : t.sender.value with
    | none =>
      have hsame : { t with sender := ⟨none, false⟩ } = t := by
        rw [← Cell.eq_mk hvalue hborrowed]
      dsimp only [SendableFd.serialize]
      rw [hsame]
      exact (Leads.refl h).note_one fun _ => rfl
    | some s =>
      have hsending : 0 < t.sending := h.sender.mp (by simp [hvalue])
      rcases hsend : s.send fd a with ⟨e | index, s'⟩
      · obtain rfl := HandleSender.send_error hsend
        have hsame : { t with sender := ⟨some s', false⟩ } = t := by
          rw [← Cell.eq_mk hvalue hborrowed]
        dsimp only [SendableFd.serialize]
        rw [hsend]
        dsimp only [Except.mapError]
        rw [hsame]
        exact (Leads.refl h).note_one (Event.scoped_serializeFd _ hsending)
      · obtain ⟨rfl, -, new, hnew, hrecorded⟩ := HandleSender.send_ok hsend
        dsimp only [SendableFd.serialize]
        rw [hsend, Option.bind_some, hnew]
        dsimp only [Except.mapError, Option.toList_some]
        have hmade : s'.recorded = t.made ++ [new] := by
          rw [hrecorded, h.recorded s hvalue]
        have hbetween : Noted { t with sender := ⟨some s', true⟩, made := t.made ++ [new] } :=
          ⟨by simp [hsending], h.receiver, fun _ => hsending, h.receiverBorrowed,
            by simpa using hmade, h.trace⟩
        have hleads := hnumber s.index _ cursor hbetween
        generalize number s.index _ cursor = out at hleads ⊢
        have hgrows : t.made ++ [new] <+: out.2.1.made := hleads.made
        have hall : t.Leads { out.2.1 with sender := out.2.1.sender.release } := by
          have hn := hleads.noted
          refine ⟨⟨hn.sender, hn.receiver, nofun, hn.receiverBorrowed, hn.recorded, hn.trace⟩,
            hleads.sending, hleads.receiving, hborrowed.symm, hleads.receiver,
            (List.prefix_append _ _).trans hgrows, fun heq => ?_⟩
          -- one more has been made
          have hlength := hgrows.length_le
          rw [show out.2.1.made = t.made from heq] at hlength
          simp at hlength
        exact hall.note_one (Event.scoped_serializeFd _ hsending)

theorem leads_deserializeFd (h : t.Noted) {number : Body libc ι V} (hnumber : Sound number)
    (index : V → Nat) (a : FcntlAnswers) (cursor : Cursor) :
    t.Leads (t.deserializeFd number index a cursor).2.1 := by
  unfold deserializeFd Cell.get
  cases hborrowed : t.receiver.borrowed with
  | true =>
    rw [if_pos rfl]
    exact (Leads.refl h).note_one (Event.scoped_deserializeFd _ (h.receiverBorrowed hborrowed))
  | false =>
    rw [if_neg Bool.false_ne_true]
    cases hvalue : t.receiver.value with
    | none =>
      exact (Leads.refl h).note_one fun _ => rfl
    | some r =>
      have hreceiving : 0 < t.receiving := h.receiver.mp (by simp [hvalue])
      have hbetween : Noted { t with receiver := ⟨some r, true⟩ } :=
        ⟨h.sender, by simp [hreceiving], h.senderBorrowed, fun _ => hreceiving, h.recorded, h.trace⟩
      have hleads := hnumber _ cursor hbetween
      dsimp only
      generalize number _ cursor = out at hleads ⊢
      have hsame : out.2.1.receiver.release = t.receiver := by
        rw [hleads.receiver]
        exact (Cell.eq_mk hvalue hborrowed).symm
      have hall : t.Leads { out.2.1 with receiver := out.2.1.receiver.release } := by
        have hn := hleads.noted
        rw [hsame]
        have hreceiver : t.receiver.value.isSome ↔ 0 < out.2.1.receiving := by
          rw [hleads.receiving]
          exact h.receiver
        exact ⟨⟨hn.sender, hreceiver, hn.senderBorrowed, fun _ => hreceiver.mp (by simp [hvalue]),
          hn.recorded, hn.trace⟩, hleads.sending, hleads.receiving, hleads.borrowed, rfl, hleads.made,
          hleads.same⟩
      exact hall.note_one (Event.scoped_deserializeFd _ hreceiving)

/-- `commit` finds the sender of its message, and the control buffer has room for all it has
recorded. -/
theorem committed_cases {s : HandleSender} (hfree : t.sender.borrowed = false)
    (hvalue : t.sender.value = some s) (hrecorded : s.recorded = t.made) (result : Except Failure V)
    (cmsg : Cmsg libc maxMsgFds) :
    (∃ failure, t.committed result cmsg = (.error failure, cmsg, [])) ∨
    ∃ cmsg', cmsg.setFds t.made = .ok cmsg' ∧
      t.committed result cmsg = (.ok (), cmsg', [.commit (.ok (some s)) t.made]) := by
  unfold committed Cell.get
  rw [hfree, hvalue, if_neg Bool.false_ne_true]
  cases result with
  | error failure => exact .inl ⟨failure, rfl⟩
  | ok value =>
    obtain ⟨cmsg', hset⟩ : ∃ cmsg', cmsg.setFds s.recorded = .ok cmsg' :=
      Cmsg.setFds_ok (by rw [s.length_recorded]; exact s.index_le)
    have hcommit : commit (some s) cmsg = .ok cmsg' := hset
    refine .inr ⟨cmsg', hrecorded ▸ hset, ?_⟩
    dsimp only [Except.bind]
    rw [hcommit]

/-- A serialization leaves everything as it was, but for what goes into the trace. -/
theorem serialize_spec (h : t.Noted) {body : Body libc ι V} (hbody : Sound body) (cursor : Cursor)
    (io : MessageChannel libc) :
    t.Leads (t.serialize body cursor io).context ∧
      (t.serialize body cursor io).context.sender = t.sender := by
  unfold serialize Cell.swap
  cases hborrowed : t.sender.borrowed with
  | true => exact ⟨.refl h, rfl⟩
  | false =>
    rw [if_neg Bool.false_ne_true]
    have hbegin : Noted { t with
        sender := ⟨some .new, false⟩, sending := t.sending + 1, made := [] } :=
      ⟨by simp, h.receiver, nofun, h.receiverBorrowed,
        fun s hs => by obtain rfl := Option.some.inj hs; rfl, h.trace⟩
    have hleads := hbody _ cursor hbegin
    dsimp only
    generalize body _ cursor = out at hleads ⊢
    obtain ⟨result, inner, cursor⟩ := out
    have hinner := hleads.noted
    have hfree : inner.sender.borrowed = false := hleads.borrowed
    obtain ⟨s, hs⟩ : ∃ s, inner.sender.value = some s := by
      refine Option.isSome_iff_exists.mp (hinner.sender.mpr ?_)
      rw [hleads.sending]
      exact Nat.succ_pos _
    have hcases := committed_cases hfree hs (hinner.recorded s hs) result io.cmsg
    have hevents : ∀ e ∈ (inner.committed result io.cmsg).2.2 ++
        [Event.serialized (inner.committed result io.cmsg).1 inner.made io.cmsg
          (inner.committed result io.cmsg).2.1], e.Scoped := by
      rcases hcases with ⟨failure, heq⟩ | ⟨cmsg', hset, heq⟩
      · rw [heq]
        simp only [List.nil_append, List.forall_mem_singleton]
        exact rfl
      · rw [heq]
        simp only [List.cons_append, List.nil_append, List.forall_mem_cons]
        exact ⟨⟨s, rfl, hinner.recorded s hs⟩, hset, List.forall_mem_nil _⟩
    unfold Cell.restore
    dsimp only
    rw [hfree, if_neg Bool.false_ne_true]
    have hsame : (⟨t.sender.value, false⟩ : Cell HandleSender) = t.sender :=
      (Cell.eq_mk rfl hborrowed).symm
    dsimp only
    rw [hsame]
    have hall : t.Leads { inner with sender := t.sender, sending := t.sending, made := t.made } :=
      ⟨⟨h.sender, hinner.receiver, h.senderBorrowed, hinner.receiverBorrowed, h.recorded,
        hinner.trace⟩, rfl, hleads.receiving, rfl, hleads.receiver, List.prefix_refl _, fun _ => rfl⟩
    exact ⟨hall.note hevents, rfl⟩

/-- A deserialization leaves the receiver as it was. -/
theorem deserialize_spec (h : t.Noted) {body : List UInt8 → Body libc ι V}
    (hbody : ∀ bytes, Sound (body bytes)) (bytes : List UInt8) (io : MessageChannel libc) :
    t.Leads (t.deserialize body bytes io).context := by
  unfold deserialize Cell.swap
  cases hborrowed : t.receiver.borrowed with
  | true => exact .refl h
  | false =>
    rw [if_neg Bool.false_ne_true]
    have hbegin : Noted { t with
        receiver := ⟨some (.ofCmsg io.cmsg), false⟩, receiving := t.receiving + 1 } :=
      ⟨h.sender, by simp, h.senderBorrowed, nofun, h.recorded, h.trace⟩
    have hleads := hbody bytes _ ⟨[], 0⟩ hbegin
    dsimp only
    generalize body bytes _ _ = out at hleads ⊢
    have hfree : out.2.1.receiver.borrowed = false := by rw [hleads.receiver]
    unfold Cell.restore
    rw [hfree, if_neg Bool.false_ne_true]
    have hsame : (⟨t.receiver.value, false⟩ : Cell HandleReceiver) = t.receiver :=
      (Cell.eq_mk rfl hborrowed).symm
    dsimp only
    rw [hsame]
    have hn := hleads.noted
    exact ⟨⟨hn.sender, h.receiver, hn.senderBorrowed, h.receiverBorrowed, hn.recorded, hn.trace⟩,
      hleads.sending, rfl, hleads.borrowed, rfl, hleads.made, hleads.same⟩

/-- Which channels are borrowed is of no importance. -/
theorem Leads.of_channels {channels channels' : ι → Option (BincodeDatagram (MessageChannel libc))}
    (h : { t with channels }.Leads t') : t.Leads { t' with channels := channels' } := by
  have hn := h.noted
  exact ⟨⟨hn.sender, hn.receiver, hn.senderBorrowed, hn.receiverBorrowed, hn.recorded, hn.trace⟩,
    h.sending, h.receiving, h.borrowed, h.receiver, h.made, h.same⟩

/-- A `poll` that leads from one state to the other is as it should be. -/
theorem Leads.scoped_poll (h : t.Noted) (hleads : t.Leads t') :
    (Event.poll t.contexts t'.contexts (t'.made.drop t.made.length) : Event libc).Scoped := by
  obtain ⟨own, hown⟩ := hleads.made
  rw [← hown, List.drop_left]
  refine ⟨congrArg Cell.value hleads.receiver, ?_, fun hnone => ?_⟩
  · have hsome : t'.sender.value.isSome ↔ t.sender.value.isSome := by
      rw [hleads.noted.sender, hleads.sending, h.sender]
    show t'.sender.value.map _ = t.sender.value.map _
    cases hs : t.sender.value with
    | none =>
      rw [hs] at hsome
      simp only [Option.isSome_none, Bool.false_eq_true, iff_false] at hsome
      rw [Option.not_isSome_iff_eq_none.mp hsome]
      rfl
    | some s =>
      rw [hs] at hsome
      obtain ⟨s', hs'⟩ := Option.isSome_iff_exists.mp (hsome.mpr rfl)
      rw [hs', Option.map_some, Option.map_some, hleads.noted.recorded s' hs', h.recorded s hs, hown]
  · rw [hnone, List.append_nil] at hown
    exact congrArg Cell.value (hleads.same hown.symm)

variable [DecidableEq ι]

theorem Noted.lend (h : t.Noted) (j : ι) : (t.lend j).Noted :=
  ⟨h.sender, h.receiver, h.senderBorrowed, h.receiverBorrowed, h.recorded, h.trace⟩

theorem leads_startSend (h : t.Noted) (j : ι) {body : Body libc ι V} (hbody : Sound body)
    (w : WriteAnswers) : t.Leads (t.startSend j body w).2 := by
  unfold startSend
  cases t.channels j with
  | none => exact .refl h
  | some ch =>
    dsimp only
    have hcontext : ∃ t', (ch.startSend libc.eagain (MessageChannel.write w)
          (fun (_ : Unit) cursor io t => t.serialize body cursor io) () (t.lend j)).2.2 = t' ∧
        (t.lend j).Leads t' ∧ t'.sender = t.sender := by
      refine ⟨_, rfl, ?_⟩
      rcases ch.startSend_cases (fun (_ : Unit) cursor io t => serialize t body cursor io) ()
        (t.lend j) with ⟨r, -, heq⟩ | ⟨-, heq⟩
      · rw [heq]
        exact ⟨.refl (h.lend j), rfl⟩
      · rw [heq, BincodeDatagram.context_store]
        exact serialize_spec (h.lend j) hbody _ _
    obtain ⟨t', heq, hleads, hsender⟩ := hcontext
    rw [heq]
    refine (Leads.of_channels hleads).note_one ?_
    show t'.contexts = t.contexts
    unfold contexts
    rw [hsender, show t'.receiver = t.receiver from hleads.receiver]

theorem leads_poll (h : t.Noted) (j : ι) {body : List UInt8 → Body libc ι V}
    (hbody : ∀ bytes, Sound (body bytes)) (r : ReadAnswers) : t.Leads (t.poll j body r).2 := by
  unfold poll
  cases t.channels j with
  | none => exact .refl h
  | some ch =>
    dsimp only
    have hcontext : (t.lend j).Leads (ch.poll libc.eagain (MessageChannel.read r)
        (fun bytes io t => deserialize t body bytes io) (t.lend j)).2.2 := by
      rcases ch.poll_cases libc.eagain (MessageChannel.read r)
        (fun bytes io t => deserialize t body bytes io) (t.lend j) with
        ⟨-, result, rx, heq⟩ | ⟨result, rx, message, -, -, heq⟩
      · rw [heq]
        exact .refl (h.lend j)
      · rw [heq]
        exact deserialize_spec (h.lend j) hbody _ _
    generalize (BincodeDatagram.poll _ _ _ ch _).2.2 = t' at hcontext ⊢
    have hscoped := Leads.scoped_poll (h.lend j) hcontext
    exact (Leads.of_channels hcontext).note_one hscoped

end Thread

/-- All code keeps to the rules. -/
theorem Routine.sound [DecidableEq ι] (code : Routine ι V) :
    Thread.Sound (code.run : Body libc ι V) := by
  induction code with
  | done value => exact fun t cursor h => .refl h
  | fail failure => exact fun t cursor h => .refl h
  | write bytes next ih => exact fun t cursor h => ih _ t _ h
  | serializeFd fd a number next ihNumber ih =>
    intro t cursor h
    have hleads := Thread.leads_serializeFd h fd a ihNumber cursor
    exact hleads.trans (ih _ _ _ hleads.noted)
  | deserializeFd number index a next ihNumber ih =>
    intro t cursor h
    have hleads := Thread.leads_deserializeFd h ihNumber index a cursor
    exact hleads.trans (ih _ _ _ hleads.noted)
  | startSend j item w next ihItem ih =>
    intro t cursor h
    have hleads := Thread.leads_startSend h j ihItem w
    exact hleads.trans (ih _ _ _ hleads.noted)
  | poll j message r next ihMessage ih =>
    intro t cursor h
    have hleads := Thread.leads_poll h j ihMessage r
    exact hleads.trans (ih _ _ _ hleads.noted)

/-- A thread that does nothing yet is in order. -/
theorem Thread.noted_fresh (channels : ι → Option (BincodeDatagram (MessageChannel libc))) :
    (Thread.fresh channels).Noted :=
  ⟨by simp [fresh, Cell.empty], by simp [fresh, Cell.empty], nofun, nofun, nofun, nofun⟩

/--
Whatever the code of a thread does, in any nesting and with any failures, each call leaves the
thread-locals as it found them, each `commit` finds the sender of its message, each control buffer gets
the descriptors of its own message or none, and no descriptor is serialized or deserialized outside. A
`Deserialize` that has descriptors duplicated adds them to the list of the message around it.
-/
theorem contexts_scoped [DecidableEq ι]
    (channels : ι → Option (BincodeDatagram (MessageChannel libc))) (code : Routine ι V)
    (cursor : Cursor) :
    (code.run (.fresh channels) cursor).2.1.contexts = ⟨none, none⟩ ∧
      ∀ e ∈ (code.run (.fresh channels) cursor).2.1.trace, e.Scoped := by
  have hleads := code.sound _ cursor (Thread.noted_fresh channels)
  have hnoted := hleads.noted
  have hsender := Cell.eq_empty hnoted.sender hnoted.senderBorrowed hleads.sending
  have hreceiver := Cell.eq_empty hnoted.receiver hnoted.receiverBorrowed hleads.receiving
  refine ⟨?_, hnoted.trace⟩
  unfold Thread.contexts
  rw [hsender, hreceiver]
  rfl

/-- Every `poll` leaves the sender around it exactly as it was, too. -/
def Event.Exact : Event libc → Prop
  | .poll before after _ => after = before
  | e => e.Scoped

/-- A datagram of one byte. -/
def oneByte : ReadAnswers := ⟨.ok true, .ok ⟨[1], [], Nat.zero_le _⟩, .ok ()⟩

/-- An item that receives a message while it is serialized. The `Deserialize` of that message has a
descriptor serialized, to wherever. -/
def receivesInside : Routine Bool Unit :=
  .poll false (fun _ => .serializeFd 5 (dupsFrom7 0) (fun _ => .done ()) fun _ => .done ()) oneByte
    fun _ => .done ()

/-- The thread that has sent it. -/
def receivedInside : Thread linux Bool :=
  ((Routine.startSend true receivesInside takesEight fun _ => .done ()).run
    (.fresh fun _ => some freshChannel.channel) ⟨[], 0⟩).2.1

/-- The descriptor goes to the list of the item, and is sent with it. -/
theorem recorded_by_poll :
    (receivedInside.channels true).map (·.io.cmsg.rights) = some [7] ∧
    ¬ ∀ e ∈ receivedInside.trace, e.Exact := by
  refine ⟨by decide, fun h => ?_⟩
  have hpoll : ∃ before after own, receivedInside.trace[1]? = some (.poll before after own) ∧
      before.sender.map HandleSender.index = some 0 ∧ after.sender.map HandleSender.index = some 1 :=
    ⟨_, _, _, rfl, rfl, rfl⟩
  obtain ⟨before, after, own, hmem, hbefore, hafter⟩ := hpoll
  have hsame : after = before := h _ (List.mem_of_getElem? hmem)
  rw [hsame, hbefore] at hafter
  cases hafter

end SandboxIpc.Unix
