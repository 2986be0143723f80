import SandboxIpc.Unix.Channel

/-!
# Which descriptors a message is sent with

`commit` puts the descriptors of an item into the control buffer when the item is accepted, and a
later `sendmsg` takes them from there. Between the two the user may poll for messages, and every
`recvmsg` resets the buffer and writes to it.

* `lastItem` — the item accepted last, and the reads since then
* `Item.Intact` — what the reads may do without harm
* `descriptors_travel_iff` — the kernel gets every item with the descriptors recorded for it, unless
  reads did harm
* `sent_with_stdin` — a read that finds nothing is enough
-/

namespace SandboxIpc.Unix

open Infra

variable {libc : Libc} {T R : Type}

/-- An accepted item, and what the `recvmsg` calls since then have returned. -/
structure Item where
  message : Message
  reads : List (Except IoError Datagram)

/-- The start of the control buffer after some reads, if the descriptors `fds` were there before. -/
def overlay (fds : List RawFd) (reads : List (Except IoError Datagram)) : List RawFd :=
  reads.foldl (fun fds r =>
    match r with
    | .ok d => overwrite d.fds fds
    | .error _ => fds) fds

/-- The descriptors the next `sendmsg` takes are still those of the item. After a datagram it takes
those of the datagram, after a failure all there is room for. -/
def Item.Intact (item : Item) : Prop :=
  match item.reads.getLast? with
  | none => True
  | some (.ok d) => d.fds = item.message.fds
  | some (.error _) => item.message.fds.length = maxMsgFds ∧
      overlay item.message.fds item.reads = item.message.fds

section History

variable (encode : T → Encoder) (decode : List UInt8 → Decoder R)

def Item.step (item : Option Item) (e : State libc × Act T) : Option Item :=
  match accepted encode e.1 e.2 with
  | some message => some ⟨message, []⟩
  | none => item.map fun i => { i with reads := i.reads ++ e.2.recvmsg.toList }

/-- The item accepted last. -/
def lastItem (h : List (State libc × Act T)) : Option Item := h.foldl (Item.step encode) none

/-- The kernel takes `m` in this call. -/
def Takes (e : State libc × Act T) (m : Message) : Prop :=
  (next encode decode e.1 e.2).channel.io.socket.sent = e.1.channel.io.socket.sent ++ [m]

/-- Whatever the kernel takes is the item accepted last, with the descriptors recorded for it. -/
def DescriptorsTravel (h : List (State libc × Act T)) : Prop :=
  Always (fun pre e => ∀ m, Takes encode decode e m →
    ∃ item, lastItem encode pre = some item ∧ item.message = m) h

/-- Whenever the kernel takes a message, the item accepted last is intact. -/
def Undisturbed (h : List (State libc × Act T)) : Prop :=
  Always (fun pre e => ∀ m, Takes encode decode e m →
    ∀ item, lastItem encode pre = some item → item.Intact) h

end History

/-! ## The control buffer after some reads -/

theorem data_foldl_recvmsg (c : Cmsg libc maxMsgFds) (reads : List (Except IoError Datagram)) :
    (reads.foldl Cmsg.recvmsg c).data = overlay c.data reads := by
  induction reads generalizing c with
  | nil => rfl
  | cons r reads ih =>
    rw [List.foldl_cons, ih]
    cases r with
    | ok d =>
      rw [Cmsg.data_recvmsg_ok]
      rfl
    | error e => rfl

/-- Whether `sendmsg` still takes the descriptors `set_fds` was given for an item. -/
theorem Item.rights_iff (item : Item) {old c : Cmsg libc maxMsgFds}
    (hset : old.setFds item.message.fds = .ok c) :
    (item.reads.foldl Cmsg.recvmsg c).rights = item.message.fds ↔ item.Intact := by
  obtain ⟨hrights, hdata⟩ := Cmsg.rights_setFds hset
  unfold Intact
  rcases List.eq_nil_or_concat item.reads with hnil | ⟨before, r, hreads⟩
  · rw [hnil]
    exact iff_of_true hrights trivial
  · rw [hreads, List.concat_eq_append, List.foldl_append, List.getLast?_concat]
    cases r with
    | ok d =>
      show ((before.foldl Cmsg.recvmsg c).recvmsg (.ok d)).rights = _ ↔ d.fds = _
      rw [Cmsg.rights_recvmsg_ok]
    | error e =>
      show ((before.foldl Cmsg.recvmsg c).recvmsg (.error e)).rights = _ ↔
        _ ∧ overlay _ (before ++ [.error e]) = _
      have hoverlay : overlay item.message.fds (before ++ [.error e])
          = overlay item.message.fds before := by
        unfold overlay
        rw [List.foldl_append]
        rfl
      rw [Cmsg.rights_recvmsg_error, hoverlay]
      by_cases hfull : item.message.fds.length = maxMsgFds
      · -- nothing of the old buffer is left
        have hall : c.data = item.message.fds := by
          rw [hdata, overwrite, List.drop_of_length_le (by rw [hfull, old.data_length]),
            List.append_nil]
        rw [data_foldl_recvmsg, hall]
        exact (and_iff_right hfull).symm
      · refine iff_of_false ?_ fun h => hfull h.1
        intro h
        have hlength := (before.foldl Cmsg.recvmsg c).data_length
        rw [h] at hlength
        exact hfull hlength

/-! ## Runs -/

section Runs

variable {encode : T → Encoder} {decode : List UInt8 → Decoder R}

theorem lastItem_snoc (h : List (State libc × Act T)) (e : State libc × Act T) :
    lastItem encode (h ++ [e]) = Item.step encode (lastItem encode h) e := by
  unfold lastItem
  rw [List.foldl_append]
  rfl

/-- A call that neither accepts nor reads changes nothing about the item. -/
theorem Item.step_eq {item : Option Item} {e : State libc × Act T}
    (hacc : accepted encode e.1 e.2 = none) (hread : e.2.recvmsg = none) :
    Item.step encode item e = item := by
  unfold step
  rw [hacc, hread]
  cases item with
  | none => rfl
  | some i =>
    show some (Item.mk i.message (i.reads ++ [])) = some i
    rw [List.append_nil]

/-- The pending message is the item accepted last, and its descriptors went into the control buffer
before the reads. -/
def Held (item : Option Item) (s : State libc) : Prop :=
  ∀ n, s.channel.bufferedSend = some n → ∃ i old c, item = some i ∧
    s.channel.txBuffer.take n = i.message.bytes ∧
    Cmsg.setFds old i.message.fds = .ok c ∧
    s.channel.io.cmsg = i.reads.foldl Cmsg.recvmsg c

theorem Held.flush {item : Option Item} {s : State libc} {d : BincodeDatagram (MessageChannel libc)}
    (h : Held item s) (hf : Flush s.channel d) : Held item ⟨d, s.context⟩ := by
  cases hf with
  | kept => exact h
  | @taken n rest hb hrest =>
    intro m hm
    rcases hrest with rfl | rfl
    · exact h m (hb.trans hm)
    · cases hm

theorem Held.next {item : Option Item} {s : State libc} (h : Held item s) (a : Act T) :
    Held (Item.step encode item (s, a)) (next encode decode s a) := by
  have hmove := move_next encode decode s a
  generalize hacc : accepted encode s a = m at hmove
  generalize Unix.next encode decode s a = s' at hmove
  cases hmove with
  | flush hread hf =>
    rw [Item.step_eq hacc hread]
    exact h.flush hf
  | reject hread hf hnone =>
    intro n hn
    exact absurd (hnone.symm.trans hn) nofun
  | @accept _ d m tx n cmsg hread hf hset htx =>
    intro k hk
    obtain rfl := Option.some.inj hk
    refine ⟨⟨m, []⟩, d.io.cmsg, cmsg, ?_, htx, hset, rfl⟩
    unfold Item.step
    rw [hacc]
  | @poll r =>
    intro n hn
    obtain ⟨i, old, c, rfl, hbytes, hset, hc⟩ := h n hn
    -- the item stays pending, with one more read if `recvmsg` was called
    refine ⟨{ i with reads := i.reads ++ r.outcome.toList }, old, c, ?_, hbytes, hset, ?_⟩
    · unfold Item.step
      rw [hacc]
      rfl
    · rw [List.foldl_append, ← hc]
      cases r.outcome with
      | none => rfl
      | some r => rfl

theorem held_of_run {cmsg : Cmsg libc maxMsgFds} {h : List (State libc × Act T)} {s : State libc}
    (hr : Run (system encode decode cmsg) h s) : Held (lastItem encode h) s := by
  refine hr.ledger (fun h s => Held (lastItem encode h) s) ?_ ?_
  · rintro s ⟨hnone, -⟩ n hn
    exact absurd (hnone.symm.trans hn) nofun
  · intro h s a s' ih hs
    obtain rfl := Option.some.inj hs
    rw [lastItem_snoc]
    exact ih.next a

/-- The kernel takes the pending message with the descriptors in the control buffer. -/
theorem pending_of_takes {s : State libc} {a : Act T} {m : Message}
    (h : Takes encode decode (s, a) m) : ∃ n, s.channel.bufferedSend = some n ∧
      m = ⟨s.channel.txBuffer.take n, s.channel.io.cmsg.rights⟩ := by
  have hmove := move_next encode decode s a
  unfold Takes at h
  have hflush : ∀ d, Flush s.channel d → d.io.socket.sent = s.channel.io.socket.sent ++ [m] →
      ∃ n, s.channel.bufferedSend = some n ∧
        m = ⟨s.channel.txBuffer.take n, s.channel.io.cmsg.rights⟩ := by
    intro d hf hsent
    cases hf with
    | kept => exact absurd hsent.symm (by simp)
    | @taken n rest hb _ =>
      have hsent : s.channel.io.socket.sent ++ [_] = s.channel.io.socket.sent ++ [m] := hsent
      rw [List.append_cancel_left_eq] at hsent
      exact ⟨n, hb, (List.singleton_inj.mp hsent).symm⟩
  generalize accepted encode s a = acc at hmove
  generalize next encode decode s a = s' at hmove h
  cases hmove with
  | flush _ hf => exact hflush _ hf h
  | reject _ hf _ => exact hflush _ hf h
  | accept _ hf _ _ => exact hflush _ hf h
  | poll => exact absurd h.symm (by simp)

/--
Every message the kernel takes carries the descriptors recorded for its item, if and only if the
reads between the two left the item intact.
-/
theorem descriptors_travel_iff {cmsg : Cmsg libc maxMsgFds} {h : List (State libc × Act T)}
    {s : State libc} (hr : Run (system encode decode cmsg) h s) :
    DescriptorsTravel encode decode h ↔ Undisturbed encode decode h := by
  refine hr.always_iff ?_
  intro pre s a s' hpre _
  refine forall_congr' fun m => forall_congr' fun htakes => ?_
  obtain ⟨n, hn, rfl⟩ := pending_of_takes htakes
  obtain ⟨i, old, c, hitem, hbytes, hset, hc⟩ := held_of_run hpre n hn
  rw [hitem, hc, hbytes]
  -- the bytes are right in any case, so all hangs on the control buffer
  have hiff := i.rights_iff hset
  constructor
  · rintro ⟨i', hi', hmessage⟩ item hi
    obtain rfl := Option.some.inj hi'
    obtain rfl := Option.some.inj hi
    exact hiff.mp (congrArg Message.fds hmessage).symm
  · intro hintact
    refine ⟨i, rfl, ?_⟩
    rw [hiff.mpr (hintact i rfl)]

/-- No call reads while an item is pending. -/
def WaitsToRead (e : State libc × Act T) : Prop :=
  e.1.channel.bufferedSend.isSome → e.2.recvmsg.isNone

instance (e : State libc × Act T) : Decidable (WaitsToRead e) := inferInstanceAs (Decidable (_ → _))

/-- While an item is pending there have been no reads. -/
theorem reads_eq_nil {cmsg : Cmsg libc maxMsgFds} {h : List (State libc × Act T)} {s : State libc}
    (hr : Run (system encode decode cmsg) h s) (hwaits : ∀ e ∈ h, WaitsToRead e) :
    s.channel.bufferedSend.isSome → ∀ i, lastItem encode h = some i → i.reads = [] := by
  refine hr.history WaitsToRead (fun h s => s.channel.bufferedSend.isSome →
    ∀ i, lastItem encode h = some i → i.reads = []) ?_ ?_ hwaits
  · rintro s ⟨hnone, -⟩ hsome
    rw [hnone] at hsome
    cases hsome
  · intro h s a s' _ _ ih hw hs hsome i hi
    obtain rfl := Option.some.inj hs
    rw [lastItem_snoc] at hi
    have hmove := move_next encode decode s a
    generalize hacc : accepted encode s a = m at hmove
    generalize next encode decode s a = s' at hmove hsome
    cases hmove with
    | flush hread hf =>
      rw [Item.step_eq hacc hread] at hi
      cases hf with
      | kept => exact ih hsome i hi
      | taken hb _ => exact ih (by rw [hb]; rfl) i hi
    | reject hread hf hnone =>
      have hsome : Option.isSome _ = true := hsome
      rw [hnone] at hsome
      cases hsome
    | accept hread hf hset htx =>
      unfold Item.step at hi
      rw [hacc] at hi
      obtain rfl := Option.some.inj hi
      rfl
    | poll =>
      rw [Item.step_eq hacc (Option.isNone_iff_eq_none.mp (hw hsome))] at hi
      exact ih hsome i hi

/-- A user who flushes before reading is on the safe side. -/
theorem undisturbed_of_waits {cmsg : Cmsg libc maxMsgFds} {h : List (State libc × Act T)}
    {s : State libc} (hr : Run (system encode decode cmsg) h s)
    (hwaits : ∀ e ∈ h, WaitsToRead e) : Undisturbed encode decode h := by
  rintro pre ⟨s₁, a⟩ post rfl m htakes item hitem
  obtain ⟨n, hn, -⟩ := pending_of_takes htakes
  have hreads : item.reads = [] :=
    reads_eq_nil hr.split.1 (fun e he => hwaits e (List.mem_append_left _ he)) (by rw [hn]; rfl)
      item hitem
  unfold Item.Intact
  rw [hreads]
  exact trivial

end Runs

/-! ## A blocked send -/

/-- The socket is full: `sendmsg` would block. -/
def blocked : WriteAnswers := ⟨.ok true, .error (.os 11), .ok ()⟩

/-- There is nothing to read: `recvmsg` would block. -/
def nothing : ReadAnswers := ⟨.ok true, .error (.os 11), .ok ()⟩

/-- A blocked send that is tried again until it succeeds. -/
theorem descriptors_travel_blocked : ∃ h s,
    Run (system SendableFd.encode SendableFd.decode (.new linux maxMsgFds)) h s ∧
    s.channel.io.socket.sent = [⟨indexBytes 1, [7, 8]⟩] ∧
    DescriptorsTravel SendableFd.encode SendableFd.decode h := by
  have hr : Run (system SendableFd.encode SendableFd.decode (.new linux maxMsgFds)) _ _ :=
    Run.of_replay (s := freshChannel)
      [.startSend 5 blocked dupsFrom7, .pollComplete blocked, .pollComplete takesEight,
        .poll nothing fun _ => ⟨fun _ => 0, fun _ => .ok ()⟩]
      ⟨rfl, rfl⟩ rfl
  exact ⟨_, _, hr, by decide, (descriptors_travel_iff hr).mpr (undisturbed_of_waits hr (by decide))⟩

/-- The send is blocked, the user polls in vain, and the send succeeds. -/
def disturbing : List (Act RawFd) :=
  [.startSend 5 blocked dupsFrom7, .pollComplete blocked,
    .poll nothing fun _ => ⟨fun _ => 0, fun _ => .ok ()⟩, .pollComplete takesEight]

def disturbedRun : List (State linux × Act RawFd) × State linux :=
  ((system SendableFd.encode SendableFd.decode (.new linux maxMsgFds)).replay freshChannel
    disturbing).getD ([], freshChannel)

/-- A read that finds nothing is enough: with the two descriptors recorded for the item, thirty copies
of the standard input go to the peer. -/
theorem sent_with_stdin :
    Run (system SendableFd.encode SendableFd.decode (.new linux maxMsgFds)) disturbedRun.1
      disturbedRun.2 ∧
    disturbedRun.2.channel.io.socket.sent = [⟨indexBytes 1, 7 :: 8 :: List.replicate 30 0⟩] ∧
    ¬ DescriptorsTravel SendableFd.encode SendableFd.decode disturbedRun.1 := by
  refine ⟨Run.of_replay (s := freshChannel) disturbing ⟨rfl, rfl⟩ rfl, by decide, fun htravel => ?_⟩
  obtain ⟨item, hitem, hmessage⟩ := htravel (disturbedRun.1.take 3) _ (disturbedRun.1.drop 4) rfl
    ⟨indexBytes 1, 7 :: 8 :: List.replicate 30 0⟩ rfl
  obtain rfl : Item.mk ⟨indexBytes 1, [7, 8]⟩ [.error (.os 11)] = item := Option.some.inj hitem
  exact absurd (congrArg Message.fds hmessage) (by decide)

end SandboxIpc.Unix
