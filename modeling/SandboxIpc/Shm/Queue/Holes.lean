import SandboxIpc.Shm.Queue.Progress

/-!
# Failed calls leave no holes

A call that finds the queue full or empty puts its index back. In a state where every call has
returned and every guard has been dropped, the indices are those of the items and of nothing else.

* `NoHoles` — what the counters are in such a state, and what a lone thread will find
* `no_holes` — it holds in every calm run
* `overfull` — five producers at once can put more than `item_count` items into a queue that is
  nearly as large as the indices allow
-/

namespace SandboxIpc.Queue

open Infra

variable {p : PointerWidth} {ι α : Type}

/-! ## Items and answers -/

/-- An item has been pushed: the drop of its guard finishes. -/
def pushes (e : Entry p ι α) : Bool :=
  match e.1.callers e.2.1, e.2.2 with
  | .pushDropping i, .publish false => decide (e.1.control.lastSentIndex = i - 1)
  | _, _ => false

/-- An item has been popped: the drop of its guard finishes. -/
def pops (e : Entry p ι α) : Bool :=
  match e.1.callers e.2.1, e.2.2 with
  | .popDropping i, .publish false => decide (e.1.control.lastRecvdIndex = i - 1)
  | _, _ => false

/-- `try_push` returns a guard. -/
def returnsPush (n : ItemCount p) (e : Entry p ι α) : Bool :=
  match e.1.callers e.2.1, e.2.2 with
  | .pushClaimed i, .load => sendClear n i e.1.control.lastRecvdIndex
  | _, _ => false

/-- `try_pop` returns a guard. -/
def returnsPop (e : Entry p ι α) : Bool :=
  match e.1.callers e.2.1, e.2.2 with
  | .popReady _, .load => true
  | _, _ => false

/-- `try_push` returns `None`. -/
def ReturnsFull (e : Entry p ι α) : Prop :=
  ∃ i, e.1.callers e.2.1 = .pushFull i ∧ e.2.2 = .putBack false ∧
    e.1.control.nextSendIndex = i + 1

/-- `try_pop` returns no item. -/
def ReturnsEmpty (e : Entry p ι α) : Prop :=
  ∃ i, e.1.callers e.2.1 = .popEmpty i ∧ e.2.2 = .putBack false ∧
    e.1.control.nextRecvIndex = i + 1

/-- A step of a thread that nobody else disturbs: it makes one call at a time, and may keep guards. -/
def Lone (e : Entry p ι α) : Prop := ∀ d, d ≠ e.2.1 → (e.1.callers d).inside = false

/-- No call in progress and no live guard. -/
def Quiet (s : State p ι α) : Prop := ∀ c, s.callers c = .idle

section Statement

variable [DecidableEq ι] (n : ItemCount p) (h : List (Entry p ι α)) (s : State p ι α)

/-- The number of items in the queue, `last_sent_index - last_recvd_index`. -/
def State.items (s : State p ι α) : Nat :=
  (s.control.lastSentIndex - s.control.lastRecvdIndex).toNat

/-- A step of a lone thread that claims no index `usize::MAX` and does not call `other`. -/
def LoneWithout (other : Act α) (e : Entry p ι α) : Prop :=
  Lone e ∧ BelowMax e ∧ e.2.2 ≠ other

abbrev PushesOnly (e : Entry p ι α) : Prop := LoneWithout .tryPop e

abbrev PopsOnly (e : Entry p ι α) : Prop := LoneWithout .tryPush e

/-- From `s` on, a lone thread can push exactly `room` items before the first `None`. -/
structure HasRoom (room : Nat) : Prop where
  exactly : ∀ k s', Run ((system n ι α).startingAt s) k s' → (∀ e ∈ k, PushesOnly e) →
    Always (fun pre e => (returnsPush n e = true → pre.countP (returnsPush n) < room) ∧
      (ReturnsFull e → pre.countP (returnsPush n) = room)) k
  /-- As long as there are indices, some way of going on does end with `None`. -/
  reached : ι → s.control.nextSendIndex.toNat + room < (usizeMax p).toNat →
    ∃ k s', Run ((system n ι α).startingAt s) k s' ∧ (∀ e ∈ k, PushesOnly e) ∧
      ∃ e ∈ k, ReturnsFull e

/-- From `s` on, a lone thread can pop exactly `items` items before the first empty answer. -/
structure HasItems (items : Nat) : Prop where
  exactly : ∀ k s', Run ((system n ι α).startingAt s) k s' → (∀ e ∈ k, PopsOnly e) →
    Always (fun pre e => (returnsPop e = true → pre.countP returnsPop < items) ∧
      (ReturnsEmpty e → pre.countP returnsPop = items)) k
  reached : ι → s.control.nextRecvIndex.toNat + items < (usizeMax p).toNat →
    ∃ k s', Run ((system n ι α).startingAt s) k s' ∧ (∀ e ∈ k, PopsOnly e) ∧
      ∃ e ∈ k, ReturnsEmpty e

/-- The state after the calls of `h` shows nothing of those that returned nothing. -/
structure NoHoles : Prop where
  nextSend : s.control.nextSendIndex = s.control.lastSentIndex + 1
  nextRecv : s.control.nextRecvIndex = s.control.lastRecvdIndex + 1
  items_le : s.items ≤ n.toNat
  items_eq : h.countP pushes = h.countP pops + s.items
  room : HasRoom n s (n.toNat - s.items)
  left : HasItems n s s.items

end Statement

/-! ## Counting -/

section Counting

variable [DecidableEq ι] {n : ItemCount p} {h : List (Entry p ι α)} {s s' : State p ι α} {c : ι}
  {a : Act α}

/-- What a step adds to the items sent and received. -/
theorem sent_move (hi : Inv n s) (hm : Move n s c a s') :
    s'.sent = s.sent + (pushes (s, c, a)).toNat ∧ s'.recvd = s.recvd + (pops (s, c, a)).toNat := by
  cases hm with
  | @publishSend i hpc hlast =>
    obtain ⟨hsent, hsucc⟩ := hi.sent_publish hpc hlast
    have hp : pushes (s, c, (.publish false : Act α)) = true := by simp [pushes, hpc, hlast]
    have hq : pops (s, c, (.publish false : Act α)) = false := by simp [pops, hpc]
    rw [hp, hq, hsent]
    exact ⟨hsucc, rfl⟩
  | @publishRecv i hpc hlast =>
    obtain ⟨hrecvd, hsucc⟩ := hi.recvd_publish hpc hlast
    have hp : pushes (s, c, (.publish false : Act α)) = false := by simp [pushes, hpc]
    have hq : pops (s, c, (.publish false : Act α)) = true := by simp [pops, hpc, hlast]
    rw [hp, hq, hrecvd]
    exact ⟨rfl, hsucc⟩
  | @spinPush i fails hpc hno =>
    have hp : pushes (s, c, (.publish fails : Act α)) = false := by
      cases fails <;> simp_all [pushes]
    have hq : pops (s, c, (.publish fails : Act α)) = false := by simp [pops, hpc]
    rw [hp, hq]
    exact ⟨rfl, rfl⟩
  | @spinPop i fails hpc hno =>
    have hp : pushes (s, c, (.publish fails : Act α)) = false := by simp [pushes, hpc]
    have hq : pops (s, c, (.publish fails : Act α)) = false := by
      cases fails <;> simp_all [pops]
    rw [hp, hq]
    exact ⟨rfl, rfl⟩
  | _ => simp [pushes, pops, State.sent, State.recvd, *]

/-- The counters count the items. -/
theorem counts_of_run [Fintype ι] (hr : Run (system n ι α) h s) (hcalm : ∀ e ∈ h, Calm n e) :
    s.sent = h.countP pushes ∧ s.recvd = h.countP pops := by
  refine hr.history (Calm n) (fun h s => s.sent = h.countP pushes ∧ s.recvd = h.countP pops) ?_ ?_
    hcalm
  · rintro s ⟨hctrl, -⟩
    unfold State.sent State.recvd
    rw [hctrl]
    exact ⟨toNat_usizeMax_add_one, toNat_usizeMax_add_one⟩
  · rintro h s ⟨c, a⟩ s' hr hcalm ⟨hsent, hrecvd⟩ _ hs
    obtain ⟨hs1, hs2⟩ := sent_move (inv_of_run hr hcalm) (move_of_step hs)
    rw [hs1, hs2, hsent, hrecvd, List.countP_append, List.countP_append, List.countP_singleton,
      List.countP_singleton]
    cases pushes (s, c, a) <;> cases pops (s, c, a) <;> exact ⟨rfl, rfl⟩

end Counting

theorem items_eq {n : ItemCount p} {s : State p ι α} (h : Inv n s) :
    s.sent = s.recvd + s.items := by
  have hle := h.recvd_le_sent
  have hsub : s.control.lastSentIndex - s.control.lastRecvdIndex
      = (s.control.lastSentIndex + 1) - (s.control.lastRecvdIndex + 1) := by
    grind
  unfold State.items
  rw [hsub, BitVec.toNat_sub_of_le (BitVec.le_def.mpr hle)]
  exact (Nat.add_sub_cancel' hle).symm

/-! ## A lone thread -/

section Alone

variable [DecidableEq ι] [Fintype ι] {n : ItemCount p} {s s' : State p ι α} {c : ι} {a : Act α}

/-- In a call of `try_pop`. -/
def Caller.taking : Caller p → Bool
  | .popClaimed _ | .popEmpty _ | .popReady _ => true
  | _ => false

omit [DecidableEq ι] [Fintype ι] in
/-- What nobody outside of all calls is, nobody but the caller of a lone step is. -/
theorem others_of_lone {P : Caller p → Bool} (hlone : Lone (s, c, a))
    (hP : ∀ x : Caller p, x.inside = false → P x = false) :
    ∀ d, d ≠ c → P (s.callers d) = false :=
  fun d hd => hP _ (hlone d hd)

theorem pushing_outside {x : Caller p} (h : x.inside = false) : x.pushing = false := by
  cases x <;> simp_all [Caller.inside, Caller.pushing]

theorem popping_outside {x : Caller p} (h : x.inside = false) : x.popping = false := by
  cases x <;> simp_all [Caller.inside, Caller.popping]

theorem taking_outside {x : Caller p} (h : x.inside = false) : x.taking = false := by
  cases x <;> simp_all [Caller.inside, Caller.taking]

omit [DecidableEq ι] in
/-- A call that has nobody beside it is not crowded. -/
theorem uncrowded_of_lone (h : Lone (s, c, a)) : Uncrowded n s := by
  have hpush := census_le_one (others_of_lone h fun _ => pushing_outside)
  have hpop := census_le_one (others_of_lone h fun _ => popping_outside)
  have hn := n.lt
  have hpos := p.half_pos
  rw [toNat_isizeMax] at hn
  unfold Uncrowded ItemCount.toNat
  omega

/-- Where a lone thread that does not pop stands: its calls get the index `free`, and are refused
from the index `window` on. -/
structure LonePusher (n : ItemCount p) (window free : Nat) (s : State p ι α) : Prop where
  inv : Inv n s
  edge : s.recvd + n.toNat = window
  le : free ≤ window
  each : ∀ d, (s.callers d).recvTicket = none ∧ ∀ i, s.callers d = .pushFull i → window ≤ i.toNat
  turn : OneByOne Caller.pushing Caller.sendTicket free s.control.nextSendIndex.toNat s.callers

/-- Where a lone thread that does not push stands. -/
structure LonePopper (n : ItemCount p) (window free : Nat) (s : State p ι α) : Prop where
  inv : Inv n s
  edge : s.sent = window
  le : free ≤ window
  each : ∀ d, (s.callers d).sendTicket = none ∧ ∀ i, s.callers d = .popEmpty i → window ≤ i.toNat
  turn : OneByOne Caller.taking Caller.recvTicket free s.control.nextRecvIndex.toNat s.callers

variable {window free free' : Nat} {k : Ctrl p} {m : Nat → α} {x : Caller p}

omit [Fintype ι] in
/-- Caller `c` moves and everybody else is outside of all calls: what remains to be shown. -/
theorem LonePusher.of_move (hlone : Lone (s, c, a)) (h : LonePusher n window free s)
    (hinv : Inv n (State.setCaller { control := k, slots := m, callers := s.callers } c x))
    (hle : free' ≤ window) (hrecvd : k.lastRecvdIndex = s.control.lastRecvdIndex) (hx : x.recvTicket = none)
    (hfull : ∀ i, x = .pushFull i → window ≤ i.toNat)
    (hbetween : x.pushing = false → k.nextSendIndex.toNat = free')
    (hwithin : ∀ i, x.pushing = true → x.sendTicket = some i →
      i = free' ∧ k.nextSendIndex.toNat = i + 1) :
    LonePusher n window free'
      (State.setCaller { control := k, slots := m, callers := s.callers } c x) where
  inv := hinv
  edge := by
    rw [← h.edge]
    unfold State.recvd
    rw [setCaller_control, hrecvd]
  le := hle
  each := (Function.forall_update_iff s.callers fun _ y => y.recvTicket = none ∧
    ∀ i, y = .pushFull i → window ≤ i.toNat).mpr ⟨⟨hx, hfull⟩, fun d _ => h.each d⟩
  turn := .update (others_of_lone hlone fun _ => pushing_outside) hbetween hwithin

omit [Fintype ι] in
theorem LonePopper.of_move (hlone : Lone (s, c, a)) (h : LonePopper n window free s)
    (hinv : Inv n (State.setCaller { control := k, slots := m, callers := s.callers } c x))
    (hle : free' ≤ window) (hsent : k.lastSentIndex = s.control.lastSentIndex) (hx : x.sendTicket = none)
    (hempty : ∀ i, x = .popEmpty i → window ≤ i.toNat)
    (hbetween : x.taking = false → k.nextRecvIndex.toNat = free')
    (hwithin : ∀ i, x.taking = true → x.recvTicket = some i →
      i = free' ∧ k.nextRecvIndex.toNat = i + 1) :
    LonePopper n window free'
      (State.setCaller { control := k, slots := m, callers := s.callers } c x) where
  inv := hinv
  edge := by
    rw [← h.edge]
    unfold State.sent
    rw [setCaller_control, hsent]
  le := hle
  each := (Function.forall_update_iff s.callers fun _ y => y.sendTicket = none ∧
    ∀ i, y = .popEmpty i → window ≤ i.toNat).mpr ⟨⟨hx, hempty⟩, fun d _ => h.each d⟩
  turn := .update (others_of_lone hlone fun _ => taking_outside) hbetween hwithin

theorem LonePusher.move (h : LonePusher n window free s) (he : PushesOnly (s, c, a))
    (hm : Move n s c a s') :
    LonePusher n window (free + (returnsPush n (s, c, a)).toNat) s' := by
  obtain ⟨hlone, hmax, hnopop⟩ := he
  have hu := uncrowded_of_lone (n := n) hlone
  have hinv := h.inv.move hu hmax hm
  have hfree := h.turn.free_of (c := c) (others_of_lone hlone fun _ => pushing_outside)
  cases hm with
  | claimSend hpc hne =>
    have hnext := hfree (by rw [hpc]; rfl)
    rw [show returnsPush n (s, c, (.tryPush : Act α)) = false by simp [returnsPush, hpc]]
    refine h.of_move hlone hinv h.le rfl rfl nofun nofun fun i _ hi => ?_
    obtain rfl := Option.some.inj hi
    exact ⟨hnext, toNat_succ p.bits_pos hne⟩
  | wrapSend _ hw => exact absurd hw hmax
  | @grantPush i hpc hclear =>
    obtain ⟨hi, hnext⟩ := h.turn.within (d := c) (i := i.toNat) (by rw [hpc]; rfl) (by rw [hpc]; rfl)
    have hlt := (h.inv.sendClear_iff hu hpc).mp hclear
    have hedge := h.edge
    rw [show returnsPush n (s, c, (.load : Act α)) = true by simp [returnsPush, hpc, hclear]]
    refine h.of_move hlone hinv (show free + 1 ≤ window by omega) rfl rfl nofun (fun _ => ?_) nofun
    rw [hnext, hi]
    rfl
  | @refusePush i hpc hclear =>
    have hwithin := h.turn.within (d := c) (i := i.toNat) (by rw [hpc]; rfl) (by rw [hpc]; rfl)
    have hiff := h.inv.sendClear_iff hu hpc
    rw [show returnsPush n (s, c, (.load : Act α)) = false by simp [returnsPush, hpc, hclear]]
    refine h.of_move hlone hinv h.le rfl rfl (fun j hj => ?_) nofun fun j _ hj => ?_
    · obtain rfl := Caller.pushFull.inj hj
      have hedge := h.edge
      rw [hclear] at hiff
      have hnot : ¬ i.toNat < s.recvd + n.toNat := fun hlt => absurd (hiff.mpr hlt) nofun
      omega
    · obtain rfl := Option.some.inj hj
      exact hwithin
  | @handBackSend i hpc hnext =>
    obtain ⟨hi, -⟩ := h.turn.within (d := c) (i := i.toNat) (by rw [hpc]; rfl) (by rw [hpc]; rfl)
    rw [show returnsPush n (s, c, (.putBack false : Act α)) = false by simp [returnsPush, hpc]]
    exact h.of_move hlone hinv h.le rfl rfl nofun (fun _ => hi) nofun
  | @retryPush i fails hpc _ =>
    have hwithin := h.turn.within (d := c) (i := i.toNat) (by rw [hpc]; rfl) (by rw [hpc]; rfl)
    rw [show returnsPush n (s, c, (.putBack fails : Act α)) = false by simp [returnsPush, hpc]]
    refine h.of_move hlone hinv h.le rfl rfl nofun nofun fun j _ hj => ?_
    obtain rfl := Option.some.inj hj
    exact hwithin
  | @write i v hpc =>
    rw [show returnsPush n (s, c, .write v) = false by simp [returnsPush, hpc]]
    exact ⟨hinv, h.edge, h.le, h.each, h.turn⟩
  | @dropPush i b hpc =>
    rw [show returnsPush n (s, c, (.drop b : Act α)) = false by simp [returnsPush, hpc]]
    exact h.of_move hlone hinv h.le rfl rfl nofun (fun _ => hfree (by rw [hpc]; rfl)) nofun
  | @publishSend i hpc _ =>
    rw [show returnsPush n (s, c, (.publish false : Act α)) = false by simp [returnsPush, hpc]]
    exact h.of_move hlone hinv h.le rfl rfl nofun (fun _ => hfree (by rw [hpc]; rfl)) nofun
  | @spinPush i fails hpc _ =>
    rw [show returnsPush n (s, c, (.publish fails : Act α)) = false by simp [returnsPush, hpc]]
    exact h
  | claimRecv | wrapRecv => exact absurd rfl hnopop
  | grantPop hpc | refusePop hpc | handBackRecv hpc | retryPop hpc | handOut hpc | dropPop hpc
  | publishRecv hpc | spinPop hpc =>
    -- nobody has an index of the receiving side
    have hno := (h.each c).1
    rw [hpc] at hno
    cases hno

theorem LonePopper.move (h : LonePopper n window free s) (he : PopsOnly (s, c, a))
    (hm : Move n s c a s') :
    LonePopper n window (free + (returnsPop (s, c, a)).toNat) s' := by
  obtain ⟨hlone, hmax, hnopush⟩ := he
  have hu := uncrowded_of_lone (n := n) hlone
  have hinv := h.inv.move hu hmax hm
  have hfree := h.turn.free_of (c := c) (others_of_lone hlone fun _ => taking_outside)
  cases hm with
  | claimRecv hpc hne =>
    have hnext := hfree (by rw [hpc]; rfl)
    rw [show returnsPop (s, c, (.tryPop : Act α)) = false by simp [returnsPop, hpc]]
    refine h.of_move hlone hinv h.le rfl rfl nofun nofun fun i _ hi => ?_
    obtain rfl := Option.some.inj hi
    exact ⟨hnext, toNat_succ p.bits_pos hne⟩
  | wrapRecv _ hw => exact absurd hw hmax
  | @grantPop i hpc _ =>
    have hwithin := h.turn.within (d := c) (i := i.toNat) (by rw [hpc]; rfl) (by rw [hpc]; rfl)
    rw [show returnsPop (s, c, (.load : Act α)) = false by simp [returnsPop, hpc]]
    refine h.of_move hlone hinv h.le rfl rfl nofun nofun fun j _ hj => ?_
    obtain rfl := Option.some.inj hj
    exact hwithin
  | @refusePop i hpc hclear =>
    have hwithin := h.turn.within (d := c) (i := i.toNat) (by rw [hpc]; rfl) (by rw [hpc]; rfl)
    have hiff := h.inv.recvClear_iff hu hpc
    rw [show returnsPop (s, c, (.load : Act α)) = false by simp [returnsPop, hpc]]
    refine h.of_move hlone hinv h.le rfl rfl (fun j hj => ?_) nofun fun j _ hj => ?_
    · obtain rfl := Caller.popEmpty.inj hj
      have hedge := h.edge
      rw [hclear] at hiff
      have hnot : ¬ i.toNat < s.sent := fun hlt => absurd (hiff.mpr hlt) nofun
      omega
    · obtain rfl := Option.some.inj hj
      exact hwithin
  | @handBackRecv i hpc hnext =>
    obtain ⟨hi, -⟩ := h.turn.within (d := c) (i := i.toNat) (by rw [hpc]; rfl) (by rw [hpc]; rfl)
    rw [show returnsPop (s, c, (.putBack false : Act α)) = false by simp [returnsPop, hpc]]
    exact h.of_move hlone hinv h.le rfl rfl nofun (fun _ => hi) nofun
  | @retryPop i fails hpc _ =>
    have hwithin := h.turn.within (d := c) (i := i.toNat) (by rw [hpc]; rfl) (by rw [hpc]; rfl)
    rw [show returnsPop (s, c, (.putBack fails : Act α)) = false by simp [returnsPop, hpc]]
    refine h.of_move hlone hinv h.le rfl rfl nofun nofun fun j _ hj => ?_
    obtain rfl := Option.some.inj hj
    exact hwithin
  | @handOut i hpc =>
    obtain ⟨hi, hnext⟩ := h.turn.within (d := c) (i := i.toNat) (by rw [hpc]; rfl) (by rw [hpc]; rfl)
    have hlt := h.inv.recvGrant_lt (c := c) (i := i.toNat) (by rw [hpc]; rfl)
    have hedge := h.edge
    rw [show returnsPop (s, c, (.load : Act α)) = true by simp [returnsPop, hpc]]
    refine h.of_move hlone hinv (show free + 1 ≤ window by omega) rfl rfl nofun (fun _ => ?_) nofun
    rw [hnext, hi]
    rfl
  | @dropPop i _ b hpc =>
    rw [show returnsPop (s, c, (.drop b : Act α)) = false by simp [returnsPop, hpc]]
    exact h.of_move hlone hinv h.le rfl rfl nofun (fun _ => hfree (by rw [hpc]; rfl)) nofun
  | @publishRecv i hpc _ =>
    rw [show returnsPop (s, c, (.publish false : Act α)) = false by simp [returnsPop, hpc]]
    exact h.of_move hlone hinv h.le rfl rfl nofun (fun _ => hfree (by rw [hpc]; rfl)) nofun
  | @spinPop i fails hpc _ =>
    rw [show returnsPop (s, c, (.publish fails : Act α)) = false by simp [returnsPop, hpc]]
    exact h
  | claimSend | wrapSend => exact absurd rfl hnopush
  | grantPush hpc | refusePush hpc | handBackSend hpc | retryPush hpc | write hpc | dropPush hpc
  | publishSend hpc | spinPush hpc =>
    have hno := (h.each c).1
    rw [hpc] at hno
    cases hno

theorem LonePusher.run (h : LonePusher n window free s) {k : List (Entry p ι α)}
    {u : State p ι α} (hk : Run ((system n ι α).startingAt s) k u) (honly : ∀ e ∈ k, PushesOnly e) :
    LonePusher n window (free + k.countP (returnsPush n)) u := by
  refine hk.counted (returnsPush n) ?_ ?_ honly
  · rintro u rfl
    exact h
  · intro free u ⟨c, a⟩ u' ih he hs
    exact ih.move he (move_of_step hs)

theorem LonePopper.run (h : LonePopper n window free s) {k : List (Entry p ι α)}
    {u : State p ι α} (hk : Run ((system n ι α).startingAt s) k u) (honly : ∀ e ∈ k, PopsOnly e) :
    LonePopper n window (free + k.countP returnsPop) u := by
  refine hk.counted returnsPop ?_ ?_ honly
  · rintro u rfl
    exact h
  · intro free u ⟨c, a⟩ u' ih he hs
    exact ih.move he (move_of_step hs)

/-- A guard is returned while there is room, and `None` when there is none. -/
theorem LonePusher.exactly (h : LonePusher n window free s) {k : List (Entry p ι α)}
    {u : State p ι α} (hk : Run ((system n ι α).startingAt s) k u) (honly : ∀ e ∈ k, PushesOnly e) :
    Always (fun pre e => (returnsPush n e = true → pre.countP (returnsPush n) < window - free) ∧
      (ReturnsFull e → pre.countP (returnsPush n) = window - free)) k := by
  rintro pre ⟨u, c, a⟩ post rfl
  have hat := h.run hk.split.1 fun e he => honly e (List.mem_append_left _ he)
  have hu := uncrowded_of_lone (n := n) (honly (u, c, a) (by simp)).1
  have hedge := hat.edge
  constructor
  · intro hret
    obtain ⟨i, hpc, hclear⟩ : ∃ i, u.callers c = .pushClaimed i ∧
        sendClear n i u.control.lastRecvdIndex = true := by
      unfold returnsPush at hret
      dsimp only at hret
      split at hret
      · exact ⟨_, ‹_›, hret⟩
      · cases hret
    have hi := hat.turn.within (d := c) (i := i.toNat) (by rw [hpc]; rfl) (by rw [hpc]; rfl)
    have hlt := (hat.inv.sendClear_iff hu hpc).mp hclear
    omega
  · rintro ⟨i, hpc, -, -⟩
    have hpc : u.callers c = .pushFull i := hpc
    have hi := hat.turn.within (d := c) (i := i.toNat) (by rw [hpc]; rfl) (by rw [hpc]; rfl)
    have hfull := (hat.each c).2 i hpc
    have hle := hat.le
    omega

theorem LonePopper.exactly (h : LonePopper n window free s) {k : List (Entry p ι α)}
    {u : State p ι α} (hk : Run ((system n ι α).startingAt s) k u) (honly : ∀ e ∈ k, PopsOnly e) :
    Always (fun pre e => (returnsPop e = true → pre.countP returnsPop < window - free) ∧
      (ReturnsEmpty e → pre.countP returnsPop = window - free)) k := by
  rintro pre ⟨u, c, a⟩ post rfl
  have hat := h.run hk.split.1 fun e he => honly e (List.mem_append_left _ he)
  have hedge := hat.edge
  constructor
  · intro hret
    obtain ⟨i, hpc⟩ : ∃ i, u.callers c = .popReady i := by
      unfold returnsPop at hret
      dsimp only at hret
      split at hret
      · exact ⟨_, ‹_›⟩
      · cases hret
    have hi := hat.turn.within (d := c) (i := i.toNat) (by rw [hpc]; rfl) (by rw [hpc]; rfl)
    have hlt := hat.inv.recvGrant_lt (c := c) (i := i.toNat) (by rw [hpc]; rfl)
    omega
  · rintro ⟨i, hpc, -, -⟩
    have hpc : u.callers c = .popEmpty i := hpc
    have hi := hat.turn.within (d := c) (i := i.toNat) (by rw [hpc]; rfl) (by rw [hpc]; rfl)
    have hempty := (hat.each c).2 i hpc
    have hle := hat.le
    omega

/-! ## From a quiet state on -/

omit [DecidableEq ι] [Fintype ι] in
/-- No index is out when nobody is in a call or has a guard. -/
theorem next_of_quiet (hi : Inv n s) (hq : Quiet s) :
    s.control.nextSendIndex = s.control.lastSentIndex + 1 ∧
      s.control.nextRecvIndex = s.control.lastRecvdIndex + 1 := by
  have hsent := hi.sends.eq_of_none fun d => by rw [hq d]; rfl
  have hrecvd := hi.recvs.eq_of_none fun d => by rw [hq d]; rfl
  exact ⟨BitVec.eq_of_toNat_eq hsent.symm, BitVec.eq_of_toNat_eq hrecvd.symm⟩

omit [DecidableEq ι] [Fintype ι] in
theorem lonePusher_of_quiet (hi : Inv n s) (hq : Quiet s) :
    LonePusher n (s.recvd + n.toNat) s.sent s where
  inv := hi
  edge := rfl
  le := hi.sent_le
  each d := by
    rw [hq d]
    exact ⟨rfl, nofun⟩
  turn := ⟨fun _ => congrArg BitVec.toNat (next_of_quiet hi hq).1,
    fun {d} _ h _ => by rw [hq d] at h; cases h⟩

omit [DecidableEq ι] [Fintype ι] in
theorem lonePopper_of_quiet (hi : Inv n s) (hq : Quiet s) : LonePopper n s.sent s.recvd s where
  inv := hi
  edge := rfl
  le := hi.recvd_le_sent
  each d := by
    rw [hq d]
    exact ⟨rfl, nofun⟩
  turn := ⟨fun _ => congrArg BitVec.toNat (next_of_quiet hi hq).2,
    fun {d} _ h _ => by rw [hq d] at h; cases h⟩

/-- A way caller `c` can go on from `s` alone, without a call of `other`. -/
structure Way (n : ItemCount p) (c : ι) (other : Act α) (s : State p ι α)
    (k : List (Entry p ι α)) (s' : State p ι α) : Prop where
  run : Run ((system n ι α).startingAt s) k s'
  only : ∀ e ∈ k, LoneWithout other e
  inv : Inv n s'
  others : ∀ d, d ≠ c → s'.callers d = .idle

namespace Way

variable {other : Act α} {k k' : List (Entry p ι α)} {s'' : State p ι α}

omit [Fintype ι] in
theorem nil (hi : Inv n s) (hq : Quiet s) : Way n c other s [] s :=
  ⟨.nil rfl, nofun, hi, fun d _ => hq d⟩

theorem snoc (h : Way n c other s k s') (hm : Move n s' c a s'') (hmax : BelowMax (s', c, a))
    (ha : a ≠ other) : Way n c other s (k ++ [(s', c, a)]) s'' := by
  have hlone : Lone (s', c, a) := by
    intro d hd
    show (s'.callers d).inside = false
    rw [h.others d hd]
    rfl
  refine ⟨h.run.snoc (step_iff_move.mpr hm), ?_, h.inv.move (uncrowded_of_lone hlone) hmax hm, ?_⟩
  · intro e he
    rcases List.mem_append.mp he with he | he
    · exact h.only e he
    · obtain rfl := List.mem_singleton.mp he
      exact ⟨hlone, hmax, ha⟩
  · intro d hd
    rw [callers_of_move hm hd, h.others d hd]

omit [Fintype ι] in
theorem append (h : Way n c other s k s') (h' : Way n c other s' k' s'') :
    Way n c other s (k ++ k') s'' where
  run := h.run.append h'.run
  only e hin := (List.mem_append.mp hin).elim (h.only e) (h'.only e)
  inv := h'.inv
  others := h'.others

omit [Fintype ι] in
theorem quiet (h : Way n c other s k s') (hc : s'.callers c = .idle) : Quiet s' := by
  intro d
  by_cases hd : d = c
  · rw [hd, hc]
  · exact h.others d hd

end Way

/-- While there is room one more item can be pushed. -/
theorem push_one (hi : Inv n s) (hq : Quiet s) (c : ι) (hroom : s.sent < s.recvd + n.toNat)
    (hmax : s.control.nextSendIndex ≠ usizeMax p) :
    ∃ k s', Way n c .tryPop s k s' ∧ Quiet s' ∧ s'.sent = s.sent + 1 ∧
      s'.control = { s.control with
        nextSendIndex := s'.control.nextSendIndex
        lastSentIndex := s'.control.lastSentIndex } := by
  obtain ⟨hnext, -⟩ := next_of_quiet hi hq
  have hlast : s.control.lastSentIndex = s.control.nextSendIndex - 1 := by
    rw [hnext]
    grind
  have h0 : Way n c .tryPop s [] s := .nil hi hq
  have h1 := h0.snoc (.claimSend (hq c) hmax) hmax nofun
  have hclear := h1.inv.sendClear_of_lt (c := c) (i := s.control.nextSendIndex)
    (by rw [setCaller_callers, Function.update_self]; rfl) (by rw [hnext]; exact hroom)
  have h2 := h1.snoc (.grantPush (Function.update_self ..) hclear) trivial nofun
  have h3 := h2.snoc (a := .drop false) (.dropPush (Function.update_self ..)) trivial nofun
  have h4 := h3.snoc (.publishSend (Function.update_self ..) hlast) trivial nofun
  refine ⟨_, _, h4, h4.quiet (Function.update_self ..), ?_, ?_⟩
  · show (s.control.nextSendIndex + 1).toNat = s.sent + 1
    rw [toNat_add_one hmax, hnext]
    rfl
  · exact Ctrl.ext rfl rfl rfl rfl (Bool.or_false _)

/-- While there are items one more can be popped. -/
theorem pop_one (hi : Inv n s) (hq : Quiet s) (c : ι) (hitem : s.recvd < s.sent)
    (hmax : s.control.nextRecvIndex ≠ usizeMax p) :
    ∃ k s', Way n c .tryPush s k s' ∧ Quiet s' ∧ s'.recvd = s.recvd + 1 ∧ s'.sent = s.sent ∧
      s'.control.nextRecvIndex = s.control.nextRecvIndex + 1 := by
  obtain ⟨-, hnext⟩ := next_of_quiet hi hq
  have hlast : s.control.lastRecvdIndex = s.control.nextRecvIndex - 1 := by
    rw [hnext]
    grind
  have h0 : Way n c .tryPush s [] s := .nil hi hq
  have h1 := h0.snoc (.claimRecv (hq c) hmax) hmax nofun
  have hclear := h1.inv.recvClear_of_lt (c := c) (i := s.control.nextRecvIndex)
    (by rw [setCaller_callers, Function.update_self]; rfl) (by rw [hnext]; exact hitem)
  have h2 := h1.snoc (.grantPop (Function.update_self ..) hclear) trivial nofun
  have h3 := h2.snoc (.handOut (Function.update_self ..)) trivial nofun
  have h4 := h3.snoc (a := .drop false) (.dropPop (Function.update_self ..)) trivial nofun
  have h5 := h4.snoc (.publishRecv (Function.update_self ..) hlast) trivial nofun
  refine ⟨_, _, h5, h5.quiet (Function.update_self ..), ?_, rfl, rfl⟩
  show (s.control.nextRecvIndex + 1).toNat = s.recvd + 1
  rw [toNat_add_one hmax, hnext]
  rfl

omit [DecidableEq ι] [Fintype ι] in
/-- Pushing leaves what has been received as it is. -/
theorem recvd_of_pushed {s' : State p ι α}
    (h : s'.control = { s.control with
      nextSendIndex := s'.control.nextSendIndex
      lastSentIndex := s'.control.lastSentIndex }) : s'.recvd = s.recvd := by
  unfold State.recvd
  rw [h]

/-- As many items as there is room for can be pushed one after the other. -/
theorem push_many (c : ι) {r : Nat} (hi : Inv n s) (hq : Quiet s)
    (hroom : s.sent + r ≤ s.recvd + n.toNat)
    (hmax : s.control.nextSendIndex.toNat + r ≤ (usizeMax p).toNat) :
    ∃ k s', Way n c .tryPop s k s' ∧ Quiet s' ∧ s'.sent = s.sent + r ∧
      s'.control = { s.control with
        nextSendIndex := s'.control.nextSendIndex
        lastSentIndex := s'.control.lastSentIndex } := by
  induction r generalizing s with
  | zero => exact ⟨[], s, .nil hi hq, hq, rfl, rfl⟩
  | succ r ih =>
    have hne : s.control.nextSendIndex ≠ usizeMax p := by
      intro he
      rw [he] at hmax
      omega
    obtain ⟨k, s₁, hway, hq₁, hsent, hctrl⟩ := push_one hi hq c (by omega) hne
    have hrecvd : s₁.recvd = s.recvd := recvd_of_pushed hctrl
    have hnext := congrArg BitVec.toNat (next_of_quiet hi hq).1
    have hnext₁ := congrArg BitVec.toNat (next_of_quiet hway.inv hq₁).1
    unfold State.sent at hsent
    obtain ⟨k', s₂, hway', hq₂, hsent', hctrl'⟩ := ih hway.inv hq₁
      (by unfold State.sent at hroom ⊢; omega) (by omega)
    refine ⟨_, _, hway.append hway', hq₂, ?_, ?_⟩
    · rw [hsent']
      unfold State.sent
      omega
    · rw [hctrl] at hctrl'
      exact hctrl'

theorem pop_many (c : ι) {r : Nat} (hi : Inv n s) (hq : Quiet s) (hitems : s.recvd + r ≤ s.sent)
    (hmax : s.control.nextRecvIndex.toNat + r ≤ (usizeMax p).toNat) :
    ∃ k s', Way n c .tryPush s k s' ∧ Quiet s' ∧ s'.recvd = s.recvd + r ∧ s'.sent = s.sent := by
  induction r generalizing s with
  | zero => exact ⟨[], s, .nil hi hq, hq, rfl, rfl⟩
  | succ r ih =>
    have hne : s.control.nextRecvIndex ≠ usizeMax p := by
      intro he
      rw [he] at hmax
      omega
    obtain ⟨k, s₁, hway, hq₁, hrecvd, hsent, hnext⟩ := pop_one hi hq c (by omega) hne
    have hnext := congrArg BitVec.toNat hnext
    rw [toNat_add_one hne] at hnext
    obtain ⟨k', s₂, hway', hq₂, hrecvd', hsent'⟩ := ih hway.inv hq₁ (by omega) (by omega)
    exact ⟨_, _, hway.append hway', hq₂, by omega, by omega⟩

theorem hasRoom_of_quiet (hi : Inv n s) (hq : Quiet s) :
    HasRoom n s (s.recvd + n.toNat - s.sent) where
  exactly k s' hk honly := (lonePusher_of_quiet hi hq).exactly hk honly
  reached c hmax := by
    have hle := hi.sent_le
    obtain ⟨k, s₁, hway, hq₁, hsent, hctrl⟩ := push_many c (r := s.recvd + n.toNat - s.sent) hi hq
      (by omega) (by omega)
    have hrecvd : s₁.recvd = s.recvd := recvd_of_pushed hctrl
    have hnext := congrArg BitVec.toNat (next_of_quiet hi hq).1
    have hnext₁ := congrArg BitVec.toNat (next_of_quiet hway.inv hq₁).1
    have hne : s₁.control.nextSendIndex ≠ usizeMax p := by
      intro he
      rw [he] at hnext₁
      unfold State.sent at *
      omega
    have h1 := hway.snoc (.claimSend (hq₁ c) hne) hne nofun
    have hfull : sendClear n s₁.control.nextSendIndex s₁.control.lastRecvdIndex = false := by
      have hiff := h1.inv.sendClear_iff (c := c) (i := s₁.control.nextSendIndex)
        (uncrowded_of_lone (c := c) (a := .load) fun d hd => by
          rw [show _ = _ from h1.others d hd]
          rfl)
        (Function.update_self ..)
      rw [Bool.eq_false_iff]
      intro hclear
      have hlt : s₁.control.nextSendIndex.toNat < s₁.recvd + n.toNat := hiff.mp hclear
      unfold State.sent at *
      omega
    have h2 := h1.snoc (.refusePush (Function.update_self ..) hfull) trivial nofun
    have h3 := h2.snoc (.handBackSend (Function.update_self ..) rfl) trivial nofun
    refine ⟨_, _, h3.run, h3.only, _, List.mem_append_right _ (.head _), ?_⟩
    exact ⟨s₁.control.nextSendIndex, Function.update_self .., rfl, rfl⟩

theorem hasItems_of_quiet (hi : Inv n s) (hq : Quiet s) : HasItems n s (s.sent - s.recvd) where
  exactly k s' hk honly := (lonePopper_of_quiet hi hq).exactly hk honly
  reached c hmax := by
    have hle := hi.recvd_le_sent
    obtain ⟨k, s₁, hway, hq₁, hrecvd, hsent⟩ := pop_many c (r := s.sent - s.recvd) hi hq
      (by omega) (by omega)
    have hnext := congrArg BitVec.toNat (next_of_quiet hi hq).2
    have hnext₁ := congrArg BitVec.toNat (next_of_quiet hway.inv hq₁).2
    have hne : s₁.control.nextRecvIndex ≠ usizeMax p := by
      intro he
      rw [he] at hnext₁
      unfold State.recvd at *
      omega
    have h1 := hway.snoc (.claimRecv (hq₁ c) hne) hne nofun
    have hempty : recvClear s₁.control.nextRecvIndex s₁.control.lastSentIndex = false := by
      have hiff := h1.inv.recvClear_iff (c := c) (i := s₁.control.nextRecvIndex)
        (uncrowded_of_lone (c := c) (a := .load) fun d hd => by
          rw [show _ = _ from h1.others d hd]
          rfl)
        (Function.update_self ..)
      rw [Bool.eq_false_iff]
      intro hclear
      have hlt : s₁.control.nextRecvIndex.toNat < s₁.sent := hiff.mp hclear
      unfold State.recvd at *
      omega
    have h2 := h1.snoc (.refusePop (Function.update_self ..) hempty) trivial nofun
    have h3 := h2.snoc (.handBackRecv (Function.update_self ..) rfl) trivial nofun
    refine ⟨_, _, h3.run, h3.only, _, List.mem_append_right _ (.head _), ?_⟩
    exact ⟨s₁.control.nextRecvIndex, Function.update_self .., rfl, rfl⟩

/--
Failed calls leave no holes.

In every state of a calm run in which no call is in progress and no guard is live, the indices are
those of the items, and a lone thread finds as much room and as many items as there are.
-/
theorem no_holes {h : List (Entry p ι α)} (hr : Run (system n ι α) h s) (hcalm : ∀ e ∈ h, Calm n e)
    (hq : Quiet s) : NoHoles n h s := by
  have hi := inv_of_run hr hcalm
  obtain ⟨hnext, hnext'⟩ := next_of_quiet hi hq
  obtain ⟨hsent, hrecvd⟩ := counts_of_run hr hcalm
  have hitems := items_eq hi
  have hle := hi.sent_le
  have hroom := hasRoom_of_quiet hi hq
  have hleft := hasItems_of_quiet hi hq
  rw [show s.recvd + n.toNat - s.sent = n.toNat - s.items by omega] at hroom
  rw [show s.sent - s.recvd = s.items by omega] at hleft
  exact ⟨hnext, hnext', by omega, by omega, hroom, hleft⟩

end Alone

/-- An empty answer first, then an item. -/
def onePushed : List (Fin 2 × Act Unit) :=
  [(0, .tryPop), (0, .load), (0, .putBack false), (1, .tryPush), (1, .load), (1, .drop false),
    (1, .publish false)]

def onePushedRun : List (Entry .w64 (Fin 2) Unit) × State .w64 (Fin 2) Unit :=
  ((system twoSlots (Fin 2) Unit).replay (fresh _ _ fun _ => ()) onePushed).getD
    ([], fresh _ _ fun _ => ())

/-- The empty answer has left no trace: there is room for one more. -/
theorem no_holes_one :
    Run (system twoSlots (Fin 2) Unit) onePushedRun.1 onePushedRun.2 ∧
    onePushedRun.2.items = 1 ∧ NoHoles twoSlots onePushedRun.1 onePushedRun.2 := by
  have hr : Run (system twoSlots (Fin 2) Unit) onePushedRun.1 onePushedRun.2 :=
    Run.of_replay onePushed (fresh_fresh fun _ => ()) rfl
  have hq : ∀ c, onePushedRun.2.callers c = .idle := by decide
  exact ⟨hr, by decide, no_holes hr (by decide) hq⟩

/-! ## Three more than there is room for

A queue of `2 ^ 31 - 2` slots on a 32-bit machine. It is filled by one caller. Then five others
claim an index each. For the last three the distance to `last_recvd_index` is negative as an
`isize`, so that they get guards at once; the first two get theirs when two items have been popped.
-/

def nearlyAll : ItemCount .w32 := ⟨BitVec.ofNat _ (2 ^ 31 - 2), by decide, by decide⟩

/-- All slots are taken. -/
def filled : State .w32 (Fin 6) Unit where
  control := { (Ctrl.new : Ctrl .w32) with
    nextSendIndex := nearlyAll.val
    lastSentIndex := nearlyAll.val - 1 }
  slots := fun _ => ()
  callers := fun _ => .idle

theorem run_filled : ∃ h, Run (system nearlyAll (Fin 6) Unit) h filled ∧ ∀ e ∈ h, BelowMax e := by
  have hfresh : Fresh (fresh .w32 (Fin 6) fun _ => ()) := fresh_fresh fun _ => ()
  obtain ⟨k, s, hway, hq, hsent, hctrl⟩ := push_many 0 (r := nearlyAll.toNat)
    (inv_fresh (n := nearlyAll) hfresh) hfresh.2 (Nat.le_refl _) (by decide)
  have hnext := (next_of_quiet hway.inv hq).1
  have hval : s.control.lastSentIndex + 1 = nearlyAll.val := BitVec.eq_of_toNat_eq hsent
  have hlast : s.control.lastSentIndex = nearlyAll.val - 1 := by
    rw [← hval]
    grind
  have hs : s = filled := by
    refine State.ext ?_ (funext fun _ => rfl) (funext hq)
    rw [hctrl, hnext, hval, hlast]
    rfl
  rw [hs] at hway
  have hr : Run (system nearlyAll (Fin 6) Unit) ([] ++ k) filled := (Run.nil hfresh).append hway.run
  exact ⟨k, hr, fun e he => (hway.only e he).2.1⟩

def overfilling : List (Fin 6 × Act Unit) :=
  [(1, .tryPush), (2, .tryPush), (3, .tryPush), (4, .tryPush), (5, .tryPush),
    (3, .load), (4, .load), (5, .load),
    (0, .tryPop), (0, .load), (0, .load), (0, .drop false), (0, .publish false),
    (0, .tryPop), (0, .load), (0, .load), (0, .drop false), (0, .publish false),
    (1, .load), (2, .load), (1, .drop false), (1, .publish false), (2, .drop false),
    (2, .publish false), (3, .drop false), (3, .publish false), (4, .drop false),
    (4, .publish false), (5, .drop false), (5, .publish false),
    -- more items than half of the indices: the queue now looks empty
    (0, .tryPop), (0, .load), (0, .putBack false)]

def overfilledRun : List (Entry .w32 (Fin 6) Unit) × State .w32 (Fin 6) Unit :=
  ((system nearlyAll (Fin 6) Unit).replay filled overfilling).getD ([], filled)

theorem run_overfilled :
    Run ((system nearlyAll (Fin 6) Unit).startingAt filled) overfilledRun.1 overfilledRun.2 :=
  Run.of_replay overfilling rfl rfl

theorem overfilled_belowMax : ∀ e ∈ overfilledRun.1, BelowMax e := by decide

/-- Without the bound on the calls in progress a quiet queue can hold too many items. -/
theorem overfull : ∃ h s, Run (system nearlyAll (Fin 6) Unit) h s ∧ (∀ e ∈ h, BelowMax e) ∧
    Quiet s ∧ ¬ NoHoles nearlyAll h s := by
  obtain ⟨h, hr, hmax⟩ := run_filled
  have hq : ∀ c, overfilledRun.2.callers c = .idle := by decide
  refine ⟨_, _, hr.append run_overfilled, ?_, hq, fun hholes => ?_⟩
  · intro e he
    exact (List.mem_append.mp he).elim (hmax e) (overfilled_belowMax e)
  · exact absurd hholes.items_le (by decide)

end SandboxIpc.Queue
