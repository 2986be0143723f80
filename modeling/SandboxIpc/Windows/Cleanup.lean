import SandboxIpc.Transfer
import Mathlib.Data.List.Perm.Basic
import Mathlib.Logic.Function.Basic

/-!
# Handles of messages that are never written

A `HandleSender` that is dropped with handles in its list closes them in the target. There is one for
each serialization, in a thread-local, and a serialization may start another one: its guard puts back
the sender it found. `commit` empties the list at the end of the serialization, before the pipe has
taken the message.

* `Program` — the code of a `Serialize`, which may use other channels of the thread
* `Thread`, `Account` — the channels, and what has become of the handles made through each
* `Leads` — what a call does to the thread
* `Cleaned` — what was made for messages that are never written has been closed once
* `cleaned_iff` — it has if the system closes what it is asked to, and nothing was in the buffer of a
  channel that was dropped
-/

namespace SandboxIpc.Windows

open Infra

/-! ## The accounts -/

/-- A handle that has been made in a target, with the number of the message it was made for. -/
structure Copy where
  message : Nat
  handle : Handle
  deriving DecidableEq

/-- Not in the source: what has become of the handles made through a channel. -/
structure Account where
  /-- Of the message that is buffered and that the pipe has not taken. -/
  pending : List Copy
  written : List Copy
  /-- Of messages that could not be serialized. -/
  failed : List Copy
  /-- Of messages that were pending when the channel was dropped. -/
  discarded : List Copy
  closed : List Copy
  /-- What the system was asked to close and did not. -/
  refused : List Copy

namespace Account

def empty : Account := ⟨[], [], [], [], [], []⟩

/-- The pipe has taken what was pending, if it has taken anything. -/
def flush (account : Account) (before after : State) : Account :=
  if after.io.pipe.sent = before.io.pipe.sent then account
  else { account with pending := [], written := account.written ++ account.pending }

/-- A serialization has ended. -/
def settle (account : Account) (result : Except Failure Unit) (made closed refused : List Copy) :
    Account :=
  let account := { account with
    closed := account.closed ++ closed
    refused := account.refused ++ refused }
  match result with
  | .error _ => { account with failed := account.failed ++ made }
  | .ok () => { account with pending := account.pending ++ made }

def discard (account : Account) : Account :=
  { account with pending := [], discarded := account.discarded ++ account.pending }

/-- Every handle made for a message that is never written has been closed once, and none of any other
message has. -/
structure Cleaned (account : Account) : Prop where
  unwritten : account.closed.Perm (account.failed ++ account.discarded)
  written : ∀ c ∈ account.closed, c ∉ account.written ++ account.pending

end Account

/-- The handles that `drop` fails to close. -/
def HandleSender.refused (s : HandleSender) (a : CloseAnswers) : List Handle :=
  match s.target with
  | .currentProcess => s.handles.filter fun handle => !a.closeHandle handle
  | .remoteProcess process => s.handles.filter fun handle => !a.duplicateHandle process.handle handle
  | .none => []

/-! ## A thread -/

/-- The code of a `Serialize` as bincode drives it. It may use the other channels of the thread, and
gets no answer for one that is in use. -/
inductive Program (ι : Type)
  | done
  | fail (failure : Failure)
  | write (bytes : List UInt8) (next : Bool → Program ι)
  | resource (r : Resource) (a : SendAnswers) (next : Except String Sent → Program ι)
  | startSend (j : ι) (item : Program ι) (w : Except IoError Nat) (close : CloseAnswers)
      (next : Option (Outcome (AsyncSink Unit)) → Program ι)
  | pollComplete (j : ι) (w : Except IoError Nat)
      (next : Option (Except IoError (Async Unit)) → Program ι)
  | drop (j : ι) (next : Program ι)

structure Thread (ι : Type) where
  /-- `none` while a `start_send` borrows the channel, and once it has been dropped. -/
  channels : ι → Option State
  /-- `CURRENT_SERIALIZE_CHANNEL_REMOTE_PROCESS`. -/
  sender : Option HandleSender
  /-- Not in the source: the number of serializations that have begun. -/
  begun : Nat
  /-- Not in the source. -/
  accounts : ι → Account

/-- What the serialization of one item works on. -/
structure Writing where
  cursor : Cursor
  /-- Not in the source: the handles made for this item so far, oldest first. -/
  made : List Handle

/-- What the `serialize` of an item does. -/
abbrev Body (ι : Type) := Thread ι → Writing → Except Failure Unit × Thread ι × Writing

namespace Thread

variable {ι : Type} [DecidableEq ι]

/-- From `before_serialize` to the drop of its guard, which puts back the sender it found and drops
the one of this item. -/
def serialize (j : ι) (body : Body ι) (close : CloseAnswers) (cursor : Cursor)
    (io : MessageChannel) (t : Thread ι) : Serialized MessageChannel (Thread ι) :=
  let (result, inner, writing) :=
    body { t with sender := some ⟨io.target, []⟩, begun := t.begun + 1 } ⟨cursor, []⟩
  let (result, sender) : Except Failure Unit × Option HandleSender :=
    match result with
    | .error failure => (.error failure, inner.sender)
    | .ok () =>
      match commit ⟨inner.sender, writing.made⟩ with
      | .error failure => (.error failure, inner.sender)
      | .ok making => (.ok (), making.sender)
  let closed := sender.elim [] fun s => s.drop close
  let refused := sender.elim [] fun s => s.refused close
  { result := result
    cursor := writing.cursor
    io := { io with made := io.made ++ writing.made, closed := io.closed ++ closed }
    context := { inner with
      sender := t.sender
      accounts := Function.update inner.accounts j ((inner.accounts j).settle result
        (writing.made.map (Copy.mk t.begun)) (closed.map (Copy.mk t.begun))
        (refused.map (Copy.mk t.begun))) } }

/-- The channel is borrowed, and what was pending may be gone. -/
def lend (t : Thread ι) (j : ι) (before after : State) : Thread ι :=
  { t with
    channels := Function.update t.channels j none
    accounts := Function.update t.accounts j ((t.accounts j).flush before after) }

@[simp] theorem lend_self (t : Thread ι) (j : ι) (before after : State) :
    (t.lend j before after).channels j = none := by
  simp [lend]

@[simp] theorem lend_of_ne (t : Thread ι) {j k : ι} (h : k ≠ j) (before after : State) :
    (t.lend j before after).channels k = t.channels k := by
  simp [lend, h]

def giveBack (t : Thread ι) (j : ι) (channel : State) : Thread ι :=
  { t with channels := Function.update t.channels j (some channel) }

def startSend (t : Thread ι) (j : ι) (body : Body ι) (w : Except IoError Nat)
    (close : CloseAnswers) : Option (Outcome (AsyncSink Unit)) × Thread ι :=
  match t.channels j with
  | none => (none, t)
  | some ch =>
    let flushed := (ch.pollComplete wsaewouldblock (MessageChannel.write w)).2
    let (result, ch', t') := ch.startSend wsaewouldblock (MessageChannel.write w)
      (fun _ => serialize j body close) () (t.lend j ch flushed)
    (some result, t'.giveBack j ch')

def pollComplete (t : Thread ι) (j : ι) (w : Except IoError Nat) :
    Option (Except IoError (Async Unit)) × Thread ι :=
  match t.channels j with
  | none => (none, t)
  | some ch =>
    let (result, ch') := ch.pollComplete wsaewouldblock (MessageChannel.write w)
    (some result, (t.lend j ch ch').giveBack j ch')

/-- The drop of a channel. Its buffers hold bytes only. -/
def drop (t : Thread ι) (j : ι) : Thread ι :=
  match t.channels j with
  | none => t
  | some _ =>
    { t with
      channels := Function.update t.channels j none
      accounts := Function.update t.accounts j (t.accounts j).discard }

end Thread

def Program.run {ι : Type} [DecidableEq ι] : Program ι → Body ι
  | .done, t, writing => (.ok (), t, writing)
  | .fail failure, t, writing => (.error failure, t, writing)
  | .write bytes next, t, writing =>
    let (fitted, cursor) := writing.cursor.writeAll bytes
    (next fitted).run t { writing with cursor }
  | .resource r a next, t, writing =>
    let (sent, making) := serveResource (fun _ => a) 0 r ⟨t.sender, writing.made⟩
    (next sent).run { t with sender := making.sender } { writing with made := making.made }
  | .startSend j item w close next, t, writing =>
    let (result, t) := t.startSend j item.run w close
    (next result).run t writing
  | .pollComplete j w next, t, writing =>
    let (result, t) := t.pollComplete j w
    (next result).run t writing
  | .drop j next, t, writing => next.run (t.drop j) writing

/-- Code that uses no other channel. -/
def Program.ofCode {ι : Type} (answers : Nat → SendAnswers) : Code Resource Sent → Nat → Program ι
  | .done, _ => .done
  | .fail failure, _ => .fail failure
  | .write bytes next, n => .write bytes fun fitted => ofCode answers (next fitted) n
  | .resource r next, n => .resource r (answers n) fun sent => ofCode answers (next sent) (n + 1)

/-- It does what it does when there are no other channels. -/
theorem Program.run_ofCode {ι : Type} [DecidableEq ι] (answers : Nat → SendAnswers)
    (code : Code Resource Sent) (n : Nat) (t : Thread ι) (writing : Writing) :
    (ofCode answers code n).run t writing =
      let (result, making, cursor) :=
        code.run (serveResource answers) n ⟨t.sender, writing.made⟩ writing.cursor
      (result, { t with sender := making.sender }, ⟨cursor, making.made⟩) := by
  induction code generalizing n t writing with
  | done => rfl
  | fail failure => rfl
  | write bytes next ih => exact ih _ n t _
  | resource r next ih =>
    have hserve : serveResource (fun _ => answers n) 0 r = serveResource answers n r := by
      cases r <;> rfl
    unfold ofCode run Code.run
    rw [hserve]
    exact ih _ (n + 1) _ _

/-! ## What a serialization closes -/

/-- A sender has taken note of all that was made, and without a target nothing is made. -/
def Noted (target : HandleTarget) (sender : Option HandleSender) (made : List Handle) : Prop :=
  sender = some ⟨target, made⟩ ∧ (target = .none → made = [])

/-- A sender that is dropped has the system close all its handles. -/
theorem HandleSender.drop_perm {target : HandleTarget} {made : List Handle}
    (h : target = .none → made = []) (a : CloseAnswers) :
    (drop ⟨target, made⟩ a ++ refused ⟨target, made⟩ a).Perm made := by
  cases target with
  | none =>
    rw [h rfl]
    exact .nil
  | currentProcess => exact List.filter_append_perm _ made
  | remoteProcess process => exact List.filter_append_perm _ made

theorem HandleSender.drop_nil (target : HandleTarget) (a : CloseAnswers) :
    drop ⟨target, []⟩ a = [] ∧ refused ⟨target, []⟩ a = [] := by
  cases target <;> exact ⟨rfl, rfl⟩

/-- A resource is duplicated and taken note of, or nothing happens. -/
theorem noted_serveResource {target : HandleTarget} {sender : Option HandleSender}
    {made : List Handle} (h : Noted target sender made) (r : Resource) (a : SendAnswers) :
    Noted target (serveResource (fun _ => a) 0 r ⟨sender, made⟩).2.sender
      (serveResource (fun _ => a) 0 r ⟨sender, made⟩).2.made := by
  obtain ⟨rfl, hnone⟩ := h
  by_cases htarget : target = .none
  · -- there is nobody to make a handle for
    subst htarget
    obtain rfl := hnone rfl
    cases r <;> exact ⟨rfl, fun _ => rfl⟩
  · rcases serveResource_cases (fun _ => a) 0 r ⟨target, made⟩ made with
      ⟨message, hserve⟩ | ⟨x, hserve, -⟩
    · rw [hserve]
      exact ⟨rfl, hnone⟩
    · rw [hserve]
      exact ⟨rfl, fun h => absurd h htarget⟩

/-! ## Accounts in order -/

/-- What was to be closed was made for messages that failed, and all messages have begun. -/
structure Account.Balanced (begun : Nat) (account : Account) : Prop where
  failed : (account.closed ++ account.refused).Perm account.failed
  apart : ∀ c ∈ account.failed, ∀ c' ∈ account.written ++ account.pending, c.message ≠ c'.message
  known : ∀ c ∈ account.failed ++ (account.written ++ account.pending), c.message < begun

namespace Account

variable {begun : Nat} {account : Account}

theorem balanced_empty (begun : Nat) : empty.Balanced begun := ⟨.nil, nofun, nofun⟩

theorem Balanced.mono (h : account.Balanced begun) {later : Nat} (hle : begun ≤ later) :
    account.Balanced later :=
  ⟨h.failed, h.apart, fun c hc => Nat.lt_of_lt_of_le (h.known c hc) hle⟩

/-- What is not among the others any more makes no difference. -/
theorem Balanced.of_subset (h : account.Balanced begun) {pending written discarded : List Copy}
    (hsub : ∀ c ∈ written ++ pending, c ∈ account.written ++ account.pending) :
    { account with pending, written, discarded }.Balanced begun := by
  refine ⟨h.failed, fun c hc c' hc' => h.apart c hc c' (hsub c' hc'), ?_⟩
  intro c hc
  rcases List.mem_append.mp hc with hc | hc
  · exact h.known c (List.mem_append_left _ hc)
  · exact h.known c (List.mem_append_right _ (hsub c hc))

theorem Balanced.flush (h : account.Balanced begun) (before after : State) :
    (account.flush before after).Balanced begun := by
  unfold Account.flush
  split
  · exact h
  · refine h.of_subset ?_
    intro c hc
    rwa [List.append_nil] at hc

theorem Balanced.discard (h : account.Balanced begun) : account.discard.Balanced begun := by
  refine h.of_subset ?_
  intro c hc
  rw [List.append_nil] at hc
  exact List.mem_append_left _ hc

/-- A message that fails has all its handles closed or refused. -/
theorem Balanced.settle_error (h : account.Balanced begun) {made closed refused : List Handle}
    (hperm : (closed ++ refused).Perm made) (failure : Failure) :
    (account.settle (.error failure) (made.map (Copy.mk begun)) (closed.map (Copy.mk begun))
      (refused.map (Copy.mk begun))).Balanced (begun + 1) := by
  have hnew : ∀ c ∈ made.map (Copy.mk begun), c.message = begun := by
    intro c hc
    obtain ⟨handle, -, rfl⟩ := List.mem_map.mp hc
    rfl
  refine ⟨?_, ?_, ?_⟩
  · have hmap := hperm.map (Copy.mk begun)
    rw [List.map_append] at hmap
    refine .trans ?_ (h.failed.append hmap)
    -- the two lists in the middle change places
    show (account.closed ++ _ ++ (account.refused ++ _)).Perm _
    rw [List.append_assoc, List.append_assoc]
    exact (List.perm_append_comm_assoc _ _ _).append_left _
  · intro c hc c' hc'
    rcases List.mem_append.mp hc with hc | hc
    · exact h.apart c hc c' hc'
    · rw [hnew c hc]
      exact Nat.ne_of_gt (h.known c' (List.mem_append_right _ hc'))
  · intro c hc
    rcases List.mem_append.mp hc with hc | hc
    · rcases List.mem_append.mp hc with hc | hc
      · exact Nat.lt_succ_of_lt (h.known c (List.mem_append_left _ hc))
      · rw [hnew c hc]
        exact Nat.lt_succ_self begun
    · exact Nat.lt_succ_of_lt (h.known c (List.mem_append_right _ hc))

/-- A message that is accepted has its handles pending. -/
theorem Balanced.settle_ok (h : account.Balanced begun) (made : List Handle) :
    (account.settle (.ok ()) (made.map (Copy.mk begun)) [] []).Balanced (begun + 1) := by
  have hnew : ∀ c ∈ made.map (Copy.mk begun), c.message = begun := by
    intro c hc
    obtain ⟨handle, -, rfl⟩ := List.mem_map.mp hc
    rfl
  have hothers : ∀ c ∈ account.written ++ (account.pending ++ made.map (Copy.mk begun)),
      c ∈ account.written ++ account.pending ∨ c.message = begun := by
    intro c hc
    rw [← List.append_assoc] at hc
    rcases List.mem_append.mp hc with hc | hc
    · exact .inl hc
    · exact .inr (hnew c hc)
  refine ⟨?_, ?_, ?_⟩
  · unfold settle
    rw [List.append_nil, List.append_nil]
    exact h.failed
  · intro c hc c' hc'
    rcases hothers c' hc' with hc' | hc'
    · exact h.apart c hc c' hc'
    · rw [hc']
      exact Nat.ne_of_lt (h.known c (List.mem_append_left _ hc))
  · intro c hc
    rcases List.mem_append.mp hc with hc | hc
    · exact Nat.lt_succ_of_lt (h.known c (List.mem_append_left _ hc))
    · rcases hothers c hc with hc | hc
      · exact Nat.lt_succ_of_lt (h.known c (List.mem_append_right _ hc))
      · rw [hc]
        exact Nat.lt_succ_self begun

theorem Balanced.closed_sub (h : account.Balanced begun) :
    ∀ c ∈ account.closed, c ∈ account.failed :=
  fun _ hc => h.failed.subset (List.mem_append_left _ hc)

/-- All is closed that should be, if and only if nothing was refused and nothing was discarded. -/
theorem Balanced.cleaned_iff_none (h : account.Balanced begun) :
    account.Cleaned ↔ account.refused = [] ∧ account.discarded = [] := by
  constructor
  · intro hc
    have hall := h.failed.length_eq
    have hclosed := hc.unwritten.length_eq
    rw [List.length_append] at hall hclosed
    constructor
    · exact List.length_eq_zero_iff.mp (by omega)
    · exact List.length_eq_zero_iff.mp (by omega)
  · rintro ⟨hrefused, hdiscarded⟩
    constructor
    · have hall := h.failed
      rw [hrefused, List.append_nil] at hall
      rw [hdiscarded, List.append_nil]
      exact hall
    · intro c hc hother
      exact h.apart c (h.closed_sub c hc) c hother rfl

end Account

/-! ## What a call does to the thread -/

namespace Thread

variable {ι : Type}

/-- A channel that is in use, or gone, is left alone, and the accounts stay in order. -/
structure Leads (t t' : Thread ι) : Prop where
  begun : t.begun ≤ t'.begun
  lent : ∀ j, t.channels j = none → t'.channels j = none ∧ t'.accounts j = t.accounts j
  balanced : (∀ j, (t.accounts j).Balanced t.begun) → ∀ j, (t'.accounts j).Balanced t'.begun

theorem Leads.refl (t : Thread ι) : Leads t t := ⟨Nat.le_refl _, fun _ h => ⟨h, rfl⟩, id⟩

theorem Leads.trans {t t' t'' : Thread ι} (h : Leads t t') (h' : Leads t' t'') : Leads t t'' where
  begun := Nat.le_trans h.begun h'.begun
  lent j hj := by
    obtain ⟨hchannel, haccount⟩ := h.lent j hj
    obtain ⟨hchannel', haccount'⟩ := h'.lent j hchannel
    exact ⟨hchannel', haccount'.trans haccount⟩
  balanced hb := h'.balanced (h.balanced hb)

/-- The thread-local does not matter. -/
theorem Leads.of_sender {t t' : Thread ι} (h : Leads t t') (sender : Option HandleSender) :
    Leads t { t' with sender } := ⟨h.begun, h.lent, h.balanced⟩

variable [DecidableEq ι]

/-- Only the channel `j` and its account change. -/
theorem Leads.of_update {t t' : Thread ι} {j : ι} {channel : Option State} {account : Account}
    (hj : t.channels j ≠ none) (hchannels : t'.channels = Function.update t.channels j channel)
    (haccounts : t'.accounts = Function.update t.accounts j account) (hbegun : t'.begun = t.begun)
    (hbalanced : (t.accounts j).Balanced t.begun → account.Balanced t.begun) : Leads t t' where
  begun := Nat.le_of_eq hbegun.symm
  lent k hk := by
    have hne : k ≠ j := fun h => hj (h ▸ hk)
    rw [hchannels, haccounts, Function.update_of_ne hne, Function.update_of_ne hne]
    exact ⟨hk, rfl⟩
  balanced hb k := by
    rw [haccounts, hbegun]
    by_cases hk : k = j
    · subst hk
      rw [Function.update_self]
      exact hbalanced (hb k)
    · rw [Function.update_of_ne hk]
      exact hb k

theorem leads_pollComplete (t : Thread ι) (j : ι) (w : Except IoError Nat) :
    Leads t (t.pollComplete j w).2 ∧ (t.pollComplete j w).2.sender = t.sender := by
  unfold pollComplete
  cases hj : t.channels j with
  | none => exact ⟨.refl t, rfl⟩
  | some ch =>
    exact ⟨.of_update (by rw [hj]; exact Option.some_ne_none ch) (Function.update_idem _ _ _) rfl rfl
      fun h => h.flush _ _, rfl⟩

theorem leads_drop (t : Thread ι) (j : ι) :
    Leads t (t.drop j) ∧ (t.drop j).sender = t.sender := by
  unfold drop
  cases hj : t.channels j with
  | none => exact ⟨.refl t, rfl⟩
  | some ch =>
    exact ⟨.of_update (by rw [hj]; exact Option.some_ne_none ch) rfl rfl rfl fun h => h.discard, rfl⟩

/-- A body keeps the thread in order, and its sender takes note of all that is made. -/
structure Sound (body : Body ι) : Prop where
  leads : ∀ t writing, Leads t (body t writing).2.1
  noted : ∀ target t writing, Noted target t.sender writing.made →
    Noted target (body t writing).2.1.sender (body t writing).2.2.made

/-- A serialization on a borrowed channel closes what it has made, or has it pending. -/
theorem serialize_spec {body : Body ι} (hbody : Sound body) {j : ι} {t : Thread ι}
    (hj : t.channels j = none) (close : CloseAnswers) (cursor : Cursor) (io : MessageChannel) :
    ∃ inner account, Leads { t with begun := t.begun + 1 } inner ∧
      ((t.accounts j).Balanced t.begun → account.Balanced (t.begun + 1)) ∧
      (serialize j body close cursor io t).context = { inner with
        sender := t.sender, accounts := Function.update inner.accounts j account } := by
  have hleads := hbody.leads { t with sender := some ⟨io.target, []⟩, begun := t.begun + 1 }
    ⟨cursor, []⟩
  have hnoted := hbody.noted io.target
    { t with sender := some ⟨io.target, []⟩, begun := t.begun + 1 } ⟨cursor, []⟩ ⟨rfl, fun _ => rfl⟩
  unfold serialize
  generalize body { t with sender := some ⟨io.target, []⟩, begun := t.begun + 1 } ⟨cursor, []⟩ = out
    at hleads hnoted ⊢
  obtain ⟨result, inner, cursor', made⟩ := out
  obtain ⟨hsender, hnone⟩ := hnoted
  have hsender : inner.sender = some ⟨io.target, made⟩ := hsender
  have haccount : inner.accounts j = t.accounts j := (hleads.lent j hj).2
  refine ⟨inner, _, ⟨hleads.begun, hleads.lent, hleads.balanced⟩, ?_, rfl⟩
  intro hb
  rw [← haccount] at hb
  dsimp only
  rw [hsender]
  cases result with
  | error failure => exact hb.settle_error (HandleSender.drop_perm hnone close) failure
  | ok _ =>
    obtain ⟨hdrop, hrefused⟩ := HandleSender.drop_nil io.target close
    dsimp only [commit, Option.elim]
    rw [hdrop, hrefused]
    exact hb.settle_ok made

theorem leads_startSend {body : Body ι} (hbody : Sound body) (t : Thread ι) (j : ι)
    (w : Except IoError Nat) (close : CloseAnswers) :
    Leads t (t.startSend j body w close).2 ∧
      (t.startSend j body w close).2.sender = t.sender := by
  unfold startSend
  cases hj : t.channels j with
  | none => exact ⟨.refl t, rfl⟩
  | some ch =>
    have hne : t.channels j ≠ none := by
      rw [hj]
      exact Option.some_ne_none ch
    dsimp only
    generalize (ch.pollComplete wsaewouldblock (MessageChannel.write w)).2 = flushed
    rcases ch.startSend_cases (fun _ => serialize j body close) () (t.lend j ch flushed) with
      ⟨r, -, heq⟩ | ⟨-, heq⟩
    · rw [heq]
      exact ⟨.of_update hne (Function.update_idem _ _ _) rfl rfl fun h => h.flush _ _, rfl⟩
    · rw [heq, BincodeDatagram.context_store]
      generalize (BincodeDatagram.pollComplete _ _ ch).2 = d
      generalize (BincodeDatagram.store _ _ d _).2.1 = ch'
      obtain ⟨inner, account, hleads, hsettled, hcontext⟩ :=
        serialize_spec hbody (t.lend_self j ch flushed) close ⟨d.txBuffer, 0⟩ d.io
      rw [hcontext]
      refine ⟨⟨Nat.le_of_succ_le hleads.begun, ?_, ?_⟩, rfl⟩
      · intro k hk
        have hkj : k ≠ j := fun h => hne (h ▸ hk)
        obtain ⟨hchannel, hsame⟩ := hleads.lent k ((t.lend_of_ne hkj ch flushed).trans hk)
        constructor
        · exact (Function.update_of_ne hkj _ inner.channels).trans hchannel
        · exact (Function.update_of_ne hkj _ inner.accounts).trans
            (hsame.trans (Function.update_of_ne hkj _ t.accounts))
      · intro hb k
        have hlent : ∀ k, ((t.lend j ch flushed).accounts k).Balanced t.begun := by
          intro k
          unfold lend
          dsimp only
          by_cases hk : k = j
          · subst hk
            rw [Function.update_self]
            exact (hb k).flush ch flushed
          · rw [Function.update_of_ne hk]
            exact hb k
        show (Function.update inner.accounts j account k).Balanced inner.begun
        by_cases hk : k = j
        · subst hk
          rw [Function.update_self]
          exact (hsettled (hlent k)).mono hleads.begun
        · rw [Function.update_of_ne hk]
          exact hleads.balanced (fun k => (hlent k).mono (Nat.le_succ _)) k

end Thread

/-- The code of an item is sound whatever other channels it uses. -/
theorem Program.sound {ι : Type} [DecidableEq ι] (item : Program ι) : Thread.Sound item.run := by
  induction item with
  | done => exact ⟨fun t _ => .refl t, fun _ _ _ h => h⟩
  | fail failure => exact ⟨fun t _ => .refl t, fun _ _ _ h => h⟩
  | write bytes next ih =>
    exact ⟨fun t writing => (ih _).leads t _, fun target t writing h => (ih _).noted target t _ h⟩
  | resource r a next ih =>
    refine ⟨fun t writing => ?_, fun target t writing h => ?_⟩
    · exact ((Thread.Leads.refl t).of_sender _).trans ((ih _).leads _ _)
    · exact (ih _).noted target _ _ (noted_serveResource h r a)
  | startSend j item w close next ihItem ih =>
    refine ⟨fun t writing => ?_, fun target t writing h => ?_⟩
    · exact (Thread.leads_startSend ihItem t j w close).1.trans ((ih _).leads _ _)
    · have hsender : Noted target (t.startSend j item.run w close).2.sender writing.made := by
        rw [(Thread.leads_startSend ihItem t j w close).2]
        exact h
      exact (ih _).noted target _ _ hsender
  | pollComplete j w next ih =>
    refine ⟨fun t writing => ?_, fun target t writing h => ?_⟩
    · exact (Thread.leads_pollComplete t j w).1.trans ((ih _).leads _ _)
    · have hsender : Noted target (t.pollComplete j w).2.sender writing.made := by
        rw [(Thread.leads_pollComplete t j w).2]
        exact h
      exact (ih _).noted target _ _ hsender
  | drop j next ih =>
    refine ⟨fun t writing => ?_, fun target t writing h => ?_⟩
    · exact (Thread.leads_drop t j).1.trans (ih.leads _ _)
    · have hsender : Noted target (t.drop j).sender writing.made := by
        rw [(Thread.leads_drop t j).2]
        exact h
      exact ih.noted target _ _ hsender

/-! ## Runs -/

namespace Thread

variable {ι : Type} [DecidableEq ι]

inductive Act (ι : Type)
  | startSend (j : ι) (item : Program ι) (w : Except IoError Nat) (close : CloseAnswers)
  | pollComplete (j : ι) (w : Except IoError Nat)
  | drop (j : ι)

/-- A call of the user. There is none on a channel that is gone. -/
def next (t : Thread ι) : Act ι → Thread ι
  | .startSend j item w close => (t.startSend j item.run w close).2
  | .pollComplete j w => (t.pollComplete j w).2
  | .drop j => t.drop j

/-- A thread that has sent nothing yet. -/
def system : System (Thread ι) (Act ι) where
  init t := t.sender = none ∧ ∀ j, t.accounts j = .empty ∧
    ∀ ch ∈ t.channels j, ch.bufferedSend = none
  step t a := some (next t a)

theorem leads_next (t : Thread ι) (a : Act ι) : Leads t (next t a) := by
  cases a with
  | startSend j item w close => exact (leads_startSend item.sound t j w close).1
  | pollComplete j w => exact (leads_pollComplete t j w).1
  | drop j => exact (leads_drop t j).1

theorem balanced_of_run {h : List (Thread ι × Act ι)} {t : Thread ι} (hr : Run system h t) :
    ∀ j, (t.accounts j).Balanced t.begun := by
  refine hr.invariant_of (fun _ => True) (fun t => ∀ j, (t.accounts j).Balanced t.begun) ?_ ?_
    fun _ _ => trivial
  · rintro t ⟨-, hempty⟩ j
    rw [(hempty j).1]
    exact Account.balanced_empty t.begun
  · intro t a t' hb _ hstep
    obtain rfl := Option.some.inj hstep
    exact (leads_next t a).balanced hb

/--
What the senders clean up.

Every handle made through a channel for a message that is never written has been closed once, and
none made for any other message, if and only if the system has closed what it was asked to and no
handle was made for a message that was in the buffer when the channel was dropped.
-/
theorem cleaned_iff {h : List (Thread ι × Act ι)} {t : Thread ι} (hr : Run system h t) (j : ι) :
    (t.accounts j).Cleaned ↔ (t.accounts j).refused = [] ∧ (t.accounts j).discarded = [] :=
  (balanced_of_run hr j).cleaned_iff_none

/-- A thread with two channels to the process with the handle 40. -/
def twoChannels : Thread Bool where
  channels _ := some freshChannel
  sender := none
  begun := 0
  accounts _ := .empty

/-- An item that fails after it has sent another one. -/
def failsInside : Program Bool :=
  .resource (.handle 5) (handlesFrom100.send 0) fun _ =>
    .startSend false (.resource (.handle 6) (handlesFrom100.send 1) fun _ => .done) (.ok 0)
      handlesFrom100.close fun _ => .fail (.error "no such item")

/-- The handle of the item that failed is closed, and not that of the one inside. -/
theorem cleaned_inside : ∃ h t, Run system h t ∧ (t.accounts true).closed = [⟨0, 100⟩] ∧
    (t.accounts false).pending = [⟨1, 101⟩] ∧ ∀ j, (t.accounts j).Cleaned := by
  have hr : Run system _ _ := Run.of_replay (s := twoChannels)
    [.startSend true failsInside (.ok 0) handlesFrom100.close]
    ⟨rfl, fun _ => ⟨rfl, fun _ hch => by obtain rfl := Option.some.inj hch; rfl⟩⟩ rfl
  refine ⟨_, _, hr, by decide, by decide, fun j => (cleaned_iff hr j).mpr ?_⟩
  cases j <;> decide

open LittleEndian

/-- A handle in a message that was never written is left in the target, once for each pass. -/
theorem discarded_uncleaned : ∃ h t, Run system h t ∧
    (t.accounts true).discarded = [⟨0, 100⟩, ⟨0, 101⟩] ∧ (t.accounts true).written = [] ∧
    (t.accounts true).closed = [] ∧ ¬ (t.accounts true).Cleaned := by
  have hr : Run system _ _ := Run.of_replay (s := twoChannels)
    [.startSend true (.ofCode handlesFrom100.send
      (Payload.encode (p := .w64) 64 (.sendableWinHandle 5)) 0) (.ok 0) handlesFrom100.close,
      .drop true]
    ⟨rfl, fun _ => ⟨rfl, fun _ hch => by obtain rfl := Option.some.inj hch; rfl⟩⟩ rfl
  refine ⟨_, _, hr, by decide, by decide, by decide, fun hcleaned => ?_⟩
  exact absurd hcleaned.unwritten.length_eq (by decide)

end Thread

end SandboxIpc.Windows
