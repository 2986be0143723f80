import SandboxIpc.Infra.Census
import SandboxIpc.Infra.Tickets
import SandboxIpc.Shm.Queue.Step

/-!
# The queue invariant

The indices claimed by `try_push` calls and not yet published are the tickets from `last_sent_index`
up to `next_send_index`, and likewise on the receiving side. A call passes its full or empty check
only for an index inside the window of `item_count` indices above `last_recvd_index`.

The checks read the distance of two counters as an `isize`. They are right as long as the claimed
indices do not run more than half the number space ahead, which the number of calls in progress
bounds (`Uncrowded`).

* `Inv` — the invariant
* `inv_of_run` — it holds in every state of a run that claims no index `usize::MAX` and is never
  crowded
-/

namespace SandboxIpc.Queue

open Infra

variable {p : PointerWidth} {ι α : Type}

/-! ## Which index a caller owns -/

/-- The index a push call has claimed and not yet published or put back. -/
def Caller.sendTicket : Caller p → Option Nat
  | .pushClaimed i | .pushFull i | .pushGuard i | .pushDropping i => some i.toNat
  | _ => none

/-- The index a pop call has claimed and not yet published or put back. -/
def Caller.recvTicket : Caller p → Option Nat
  | .popClaimed i | .popEmpty i | .popReady i | .popGuard i _ | .popDropping i => some i.toNat
  | _ => none

/-- The index of a push call that passed the full check. -/
def Caller.sendGrant : Caller p → Option Nat
  | .pushGuard i | .pushDropping i => some i.toNat
  | _ => none

/-- The index of a pop call that passed the empty check. -/
def Caller.recvGrant : Caller p → Option Nat
  | .popReady i | .popGuard i _ | .popDropping i => some i.toNat
  | _ => none

/-- Inside `try_push`, with an index claimed. -/
def Caller.pushing : Caller p → Bool
  | .pushClaimed _ | .pushFull _ => true
  | _ => false

/-- Inside `try_pop`, with an index claimed. -/
def Caller.popping : Caller p → Bool
  | .popClaimed _ | .popEmpty _ => true
  | _ => false

theorem sendGrant_or_pushing {x : Caller p} {i : Nat} (h : x.sendTicket = some i) :
    x.sendGrant = some i ∨ x.pushing = true := by
  cases x <;> simp_all [Caller.sendTicket, Caller.sendGrant, Caller.pushing]

theorem recvGrant_or_popping {x : Caller p} {i : Nat} (h : x.recvTicket = some i) :
    x.recvGrant = some i ∨ x.popping = true := by
  cases x <;> simp_all [Caller.recvTicket, Caller.recvGrant, Caller.popping]

theorem sendTicket_of_sendGrant {x : Caller p} {i : Nat} (h : x.sendGrant = some i) :
    x.sendTicket = some i := by
  cases x <;> simp_all [Caller.sendTicket, Caller.sendGrant]

theorem recvTicket_of_recvGrant {x : Caller p} {i : Nat} (h : x.recvGrant = some i) :
    x.recvTicket = some i := by
  cases x <;> simp_all [Caller.recvTicket, Caller.recvGrant]

/-! ## The counters as numbers of items -/

/-- How many indices have been published by push guards: one more than `last_sent_index`, which
starts at `usize::MAX`. -/
def State.sent (s : State p ι α) : Nat := (s.control.lastSentIndex + 1).toNat

/-- How many indices have been published by pop guards. -/
def State.recvd (s : State p ι α) : Nat := (s.control.lastRecvdIndex + 1).toNat

/-- `item_count` as a number. -/
def ItemCount.toNat (n : ItemCount p) : Nat := n.val.toNat

theorem ItemCount.lt_half (n : ItemCount p) : n.toNat < 2 ^ (p.bits - 1) := by
  have h := n.lt
  rw [toNat_isizeMax] at h
  exact Nat.lt_of_lt_of_le h (Nat.sub_le _ _)

theorem ItemCount.toInt_val (n : ItemCount p) : n.val.toInt = n.toNat :=
  toInt_of_lt_half p.bits_pos n.lt_half

theorem slot_eq (n : ItemCount p) (i : Usize p) : slot n i = i.toNat % n.toNat :=
  BitVec.toNat_umod

/-! ## The two checks -/

/-- The full check compares exact distances while the claimed index is less than half the number
space above what has been received. -/
theorem sendClear_iff {n : ItemCount p} {i last : Usize p} (hle : (last + 1).toNat ≤ i.toNat)
    (h : i.toNat < (last + 1).toNat + 2 ^ (p.bits - 1)) :
    sendClear n i last = true ↔ i.toNat < (last + 1).toNat + n.toNat := by
  unfold sendClear
  rw [decide_eq_true_iff, toInt_sub_of_le p.bits_pos hle (by omega), n.toInt_val]
  omega

/-- The empty check compares exact distances while the claimed index is at most half the number
space above what has been sent, and what has been sent less than half above the index. -/
theorem recvClear_iff {i last : Usize p} (hlo : i.toNat + 1 ≤ (last + 1).toNat + 2 ^ (p.bits - 1))
    (hhi : (last + 1).toNat ≤ i.toNat + 2 ^ (p.bits - 1)) :
    recvClear i last = true ↔ i.toNat < (last + 1).toNat := by
  have hp := p.two_pow_bits
  have hpos := p.half_pos
  have hlast := last.isLt
  unfold recvClear
  rw [decide_eq_true_iff]
  by_cases hmax : last = usizeMax p
  · -- nothing has been sent
    subst hmax
    have hi := i.isLt
    rw [toNat_usizeMax_add_one] at hlo ⊢
    have htop := toNat_usizeMax (p := p)
    have hval : (usizeMax p - i).toNat = 2 ^ p.bits - 1 - i.toNat := by
      rw [BitVec.toNat_sub_of_le (by rw [BitVec.le_def]; omega), htop]
    rw [toInt_of_half_le p.bits_pos (by omega), hval]
    omega
  · rw [toNat_succ p.bits_pos hmax] at hlo hhi ⊢
    by_cases hle : i.toNat ≤ last.toNat
    · rw [toInt_sub_of_le p.bits_pos hle (by omega)]
      omega
    · rw [toInt_sub_of_lt p.bits_pos (by omega) (by omega)]
      omega

/-! ## The invariant -/

structure Inv (n : ItemCount p) (s : State p ι α) : Prop where
  sends : Tickets (fun c => (s.callers c).sendTicket) s.sent s.control.nextSendIndex.toNat
  recvs : Tickets (fun c => (s.callers c).recvTicket) s.recvd s.control.nextRecvIndex.toNat
  /-- Nothing is received before it was sent. -/
  recvd_le_sent : s.recvd ≤ s.sent
  /-- At most `item_count` items are in the queue. -/
  sent_le : s.sent ≤ s.recvd + n.toNat
  sendGrant_lt : ∀ {c i}, (s.callers c).sendGrant = some i → i < s.recvd + n.toNat
  recvGrant_lt : ∀ {c i}, (s.callers c).recvGrant = some i → i < s.sent

theorem inv_fresh {n : ItemCount p} {s : State p ι α} (h : Fresh s) : Inv n s := by
  obtain ⟨hctrl, hidle⟩ := h
  have hsent : s.sent = 0 := by rw [State.sent, hctrl]; exact toNat_usizeMax_add_one
  have hrecvd : s.recvd = 0 := by rw [State.recvd, hctrl]; exact toNat_usizeMax_add_one
  have hnext : s.control.nextSendIndex.toNat = 0 ∧ s.control.nextRecvIndex.toNat = 0 := by
    simp [hctrl, Ctrl.new]
  constructor
  · rw [hsent, hnext.1]
    simpa [hidle, Caller.sendTicket] using Tickets.none_held (ι := ι) 0
  · rw [hrecvd, hnext.2]
    simpa [hidle, Caller.recvTicket] using Tickets.none_held (ι := ι) 0
  · omega
  · omega
  · intro c i hi; simp [hidle, Caller.sendGrant] at hi
  · intro c i hi; simp [hidle, Caller.recvGrant] at hi

/-- Few enough calls are in progress for the signed comparisons to be right. -/
def Uncrowded [Fintype ι] (n : ItemCount p) (s : State p ι α) : Prop :=
  census Caller.pushing s.callers + n.toNat ≤ 2 ^ (p.bits - 1) ∧
    census Caller.popping s.callers ≤ 2 ^ (p.bits - 1)

instance [Fintype ι] (n : ItemCount p) (s : State p ι α) : Decidable (Uncrowded n s) :=
  inferInstanceAs (Decidable (_ ∧ _))

/-- An index below `next_send_index` or `next_recv_index` is not the largest `usize`. -/
theorem toNat_index_succ {i next : Usize p} (h : i.toNat < next.toNat) :
    (i + 1).toNat = i.toNat + 1 := by
  refine toNat_succ p.bits_pos fun hmax => ?_
  have := next.isLt
  rw [show i.toNat = 2 ^ p.bits - 1 by rw [hmax]; exact BitVec.toNat_allOnes] at h
  omega

namespace Inv

variable {n : ItemCount p} {s : State p ι α}

/-- A push guard publishes when everything below its index has been sent. -/
theorem sent_publish (h : Inv n s) {c : ι} {i : Usize p} (hpc : s.callers c = .pushDropping i)
    (hlast : s.control.lastSentIndex = i - 1) :
    s.sent = i.toNat ∧ (i + 1).toNat = i.toNat + 1 := by
  have hi := h.sends.bounds (c := c) (i := i.toNat) (by simp [hpc, Caller.sendTicket])
  exact ⟨by rw [State.sent, hlast, BitVec.sub_add_cancel], toNat_index_succ hi.2⟩

/-- A pop guard publishes when everything below its index has been received. -/
theorem recvd_publish (h : Inv n s) {c : ι} {i : Usize p} (hpc : s.callers c = .popDropping i)
    (hlast : s.control.lastRecvdIndex = i - 1) :
    s.recvd = i.toNat ∧ (i + 1).toNat = i.toNat + 1 := by
  have hi := h.recvs.bounds (c := c) (i := i.toNat) (by simp [hpc, Caller.recvTicket])
  exact ⟨by rw [State.recvd, hlast, BitVec.sub_add_cancel], toNat_index_succ hi.2⟩

variable [Fintype ι]

/-- Indices claimed beyond the window belong to push calls in progress. -/
theorem nextSend_le (h : Inv n s) :
    s.control.nextSendIndex.toNat ≤ s.recvd + n.toNat + census Caller.pushing s.callers := by
  have := h.sends.sub_le_card h.sent_le (fun c => (s.callers c).pushing) fun {c i} hi hk => by
    rcases sendGrant_or_pushing hi with hg | hp
    · have := h.sendGrant_lt hg; omega
    · exact hp
  unfold census
  omega

/-- Indices claimed beyond what has been sent belong to pop calls in progress. -/
theorem nextRecv_le (h : Inv n s) :
    s.control.nextRecvIndex.toNat ≤ s.sent + census Caller.popping s.callers := by
  have := h.recvs.sub_le_card h.recvd_le_sent (fun c => (s.callers c).popping) fun {c i} hi hk => by
    rcases recvGrant_or_popping hi with hg | hp
    · have := h.recvGrant_lt hg; omega
    · exact hp
  unfold census
  omega

/-- In an uncrowded state the full check decides whether the index is inside the window. -/
theorem sendClear_iff (h : Inv n s) (hu : Uncrowded n s) {c : ι} {i : Usize p}
    (hc : s.callers c = .pushClaimed i) :
    sendClear n i s.control.lastRecvdIndex = true ↔ i.toNat < s.recvd + n.toNat := by
  have hi := h.sends.bounds (c := c) (i := i.toNat) (by simp [hc, Caller.sendTicket])
  have hnext := h.nextSend_le
  have hle := h.recvd_le_sent
  exact Queue.sendClear_iff (by unfold State.recvd at *; omega)
    (by have := hu.1; unfold State.recvd at *; omega)

/-- In an uncrowded state the empty check decides whether the item has been sent. -/
theorem recvClear_iff (h : Inv n s) (hu : Uncrowded n s) {c : ι} {i : Usize p}
    (hc : s.callers c = .popClaimed i) :
    recvClear i s.control.lastSentIndex = true ↔ i.toNat < s.sent := by
  have hi := h.recvs.bounds (c := c) (i := i.toNat) (by simp [hc, Caller.recvTicket])
  have hnext := h.nextRecv_le
  have hle := h.sent_le
  have hn := n.lt_half
  exact Queue.recvClear_iff (by have := hu.2; unfold State.sent at *; omega)
    (by unfold State.sent at *; omega)

end Inv

/-! ## Every step preserves it -/

section Preservation

variable [DecidableEq ι] {n : ItemCount p} {s : State p ι α}

/-- How a property of the callers changes when one of them moves. -/
theorem apply_setCaller (f : Caller p → Option Nat) (s : State p ι α) (c : ι) (x : Caller p) :
    (fun d => f ((s.setCaller c x).callers d))
      = Function.update (fun d => f (s.callers d)) c (f x) := by
  funext d
  by_cases hd : d = c
  · subst hd; simp
  · simp [hd]

theorem update_keep {f : ι → Option Nat} {c : ι} {x : Option Nat} (h : x = f c) :
    Function.update f c x = f := by
  rw [h, Function.update_eq_self]

/-- A caller of the sending side moves: what remains to be shown. -/
theorem Inv.of_send_move (h : Inv n s) {k : Ctrl p} {m : Nat → α} {c : ι} {x : Caller p}
    (hnext : k.nextRecvIndex = s.control.nextRecvIndex)
    (hlast : k.lastRecvdIndex = s.control.lastRecvdIndex)
    (hold : (s.callers c).recvTicket = none) (hnew : x.recvTicket = none)
    (hsends : Tickets (Function.update (fun d => (s.callers d).sendTicket) c x.sendTicket)
      (k.lastSentIndex + 1).toNat k.nextSendIndex.toNat)
    (hmono : s.sent ≤ (k.lastSentIndex + 1).toNat)
    (hle : (k.lastSentIndex + 1).toNat ≤ s.recvd + n.toNat)
    (hgrant : ∀ {i}, x.sendGrant = some i → i < s.recvd + n.toNat) :
    Inv n (State.setCaller { control := k, slots := m, callers := s.callers } c x) where
  sends := by rw [apply_setCaller]; exact hsends
  recvs := by
    rw [apply_setCaller, update_keep (by rw [hnew, hold])]
    simpa [State.recvd, hnext, hlast] using h.recvs
  recvd_le_sent := by
    have := h.recvd_le_sent
    simp only [State.sent, State.recvd, setCaller_control, hlast] at *
    omega
  sent_le := by simpa [State.sent, State.recvd, hlast] using hle
  sendGrant_lt {d i} hd := by
    simp only [State.recvd, setCaller_control, hlast]
    by_cases hdc : d = c
    · subst hdc
      exact hgrant (by simpa using hd)
    · exact h.sendGrant_lt (c := d) (by simpa [hdc] using hd)
  recvGrant_lt {d i} hd := by
    -- more has been sent, so what was granted to a pop call stays granted
    refine Nat.lt_of_lt_of_le ?_ hmono
    by_cases hdc : d = c
    · subst hdc
      have := recvTicket_of_recvGrant (by simpa using hd : x.recvGrant = some i)
      rw [hnew] at this
      simp at this
    · exact h.recvGrant_lt (c := d) (by simpa [hdc] using hd)

/-- A caller of the receiving side moves: what remains to be shown. -/
theorem Inv.of_recv_move (h : Inv n s) {k : Ctrl p} {m : Nat → α} {c : ι} {x : Caller p}
    (hnext : k.nextSendIndex = s.control.nextSendIndex)
    (hlast : k.lastSentIndex = s.control.lastSentIndex)
    (hold : (s.callers c).sendTicket = none) (hnew : x.sendTicket = none)
    (hrecvs : Tickets (Function.update (fun d => (s.callers d).recvTicket) c x.recvTicket)
      (k.lastRecvdIndex + 1).toNat k.nextRecvIndex.toNat)
    (hmono : s.recvd ≤ (k.lastRecvdIndex + 1).toNat)
    (hle : (k.lastRecvdIndex + 1).toNat ≤ s.sent)
    (hgrant : ∀ {i}, x.recvGrant = some i → i < s.sent) :
    Inv n (State.setCaller { control := k, slots := m, callers := s.callers } c x) where
  sends := by
    rw [apply_setCaller, update_keep (by rw [hnew, hold])]
    simpa [State.sent, hnext, hlast] using h.sends
  recvs := by rw [apply_setCaller]; exact hrecvs
  recvd_le_sent := by simpa [State.sent, State.recvd, hlast] using hle
  sent_le := by
    have := h.sent_le
    simp only [State.sent, State.recvd, setCaller_control, hlast] at *
    omega
  sendGrant_lt {d i} hd := by
    -- more has been received, so the window has only moved up
    refine Nat.lt_of_lt_of_le ?_ (Nat.add_le_add_right hmono _)
    by_cases hdc : d = c
    · subst hdc
      have := sendTicket_of_sendGrant (by simpa using hd : x.sendGrant = some i)
      rw [hnew] at this
      simp at this
    · exact h.sendGrant_lt (c := d) (by simpa [hdc] using hd)
  recvGrant_lt {d i} hd := by
    simp only [State.sent, setCaller_control, hlast]
    by_cases hdc : d = c
    · subst hdc
      exact hgrant (by simpa using hd)
    · exact h.recvGrant_lt (c := d) (by simpa [hdc] using hd)

/-- No `try_*` call of this step claims the index `usize::MAX`. -/
def BelowMax (e : State p ι α × ι × Act α) : Prop :=
  match e.2.2 with
  | .tryPush => e.1.control.nextSendIndex ≠ usizeMax p
  | .tryPop => e.1.control.nextRecvIndex ≠ usizeMax p
  | _ => True

instance : (e : State p ι α × ι × Act α) → Decidable (BelowMax e)
  | (s, _, .tryPush) => inferInstanceAs (Decidable (s.control.nextSendIndex ≠ usizeMax p))
  | (s, _, .tryPop) => inferInstanceAs (Decidable (s.control.nextRecvIndex ≠ usizeMax p))
  | (_, _, .load) | (_, _, .putBack _) | (_, _, .write _) | (_, _, .drop _) | (_, _, .publish _) =>
    isTrue trivial

/-- A step preserves the invariant if the checks that pass in it are right to pass. -/
theorem Inv.move_of (h : Inv n s) {c : ι} {a : Act α} {s' : State p ι α}
    (hmax : BelowMax (s, c, a))
    (hpush : ∀ {i}, s.callers c = .pushClaimed i →
      sendClear n i s.control.lastRecvdIndex = true → i.toNat < s.recvd + n.toNat)
    (hpop : ∀ {i}, s.callers c = .popClaimed i →
      recvClear i s.control.lastSentIndex = true → i.toNat < s.sent)
    (hm : Move n s c a s') : Inv n s' := by
  have hs := h.sends
  have hr := h.recvs
  cases hm with
  | wrapSend _ hw => exact absurd hw hmax
  | wrapRecv _ hw => exact absurd hw hmax
  | write => exact ⟨hs, hr, h.recvd_le_sent, h.sent_le, h.sendGrant_lt, h.recvGrant_lt⟩
  | spinPush | spinPop => exact h
  | claimSend hpc hne =>
    refine h.of_send_move rfl rfl (by simp [hpc, Caller.recvTicket]) rfl ?_ (Nat.le_refl _)
      h.sent_le (by simp [Caller.sendGrant])
    rw [toNat_succ p.bits_pos hne]
    exact hs.draw (by simp [hpc, Caller.sendTicket])
  | @grantPush i hpc hclear =>
    refine h.of_send_move rfl rfl (by simp [hpc, Caller.recvTicket]) rfl ?_ (Nat.le_refl _)
      h.sent_le ?_
    · rw [update_keep (by simp [hpc, Caller.sendTicket])]; exact hs
    · -- the one place where the signed comparison has to be right
      intro j hj
      obtain rfl : i.toNat = j := by simpa [Caller.sendGrant] using hj
      exact hpush hpc hclear
  | refusePush hpc | retryPush hpc =>
    refine h.of_send_move rfl rfl (by simp [hpc, Caller.recvTicket]) rfl ?_ (Nat.le_refl _)
      h.sent_le (by simp [Caller.sendGrant])
    rw [update_keep (by simp [hpc, Caller.sendTicket])]
    exact hs
  | @handBackSend i hpc hnext =>
    refine h.of_send_move rfl rfl (by simp [hpc, Caller.recvTicket]) rfl ?_ (Nat.le_refl _)
      h.sent_le (by simp [Caller.sendGrant])
    have hi : (s.callers c).sendTicket = some i.toNat := by simp [hpc, Caller.sendTicket]
    -- the exchange succeeds for the last ticket drawn only, so no gap appears
    exact hs.handBack hi (by rw [hnext, toNat_index_succ (hs.bounds hi).2])
  | @dropPush i _ hpc =>
    refine h.of_send_move rfl rfl (by simp [hpc, Caller.recvTicket]) rfl ?_ (Nat.le_refl _)
      h.sent_le ?_
    · rw [update_keep (by simp [hpc, Caller.sendTicket])]; exact hs
    · intro j hj
      exact h.sendGrant_lt (c := c) (by simpa [hpc, Caller.sendGrant] using hj)
  | @publishSend i hpc hlast =>
    have hi : (s.callers c).sendTicket = some i.toNat := by simp [hpc, Caller.sendTicket]
    obtain ⟨hsent, hsucc⟩ := h.sent_publish hpc hlast
    have hgrant := h.sendGrant_lt (c := c) (i := i.toNat) (by simp [hpc, Caller.sendGrant])
    refine h.of_send_move rfl rfl (by simp [hpc, Caller.recvTicket]) rfl ?_ ?_ ?_
      (by simp [Caller.sendGrant])
    · -- it is the lowest ticket, so the rest stay consecutive
      rw [hsucc, ← hsent]; exact hs.serve (by rw [hsent]; exact hi)
    · rw [hsucc]; omega
    · rw [hsucc]; omega
  | claimRecv hpc hne =>
    refine h.of_recv_move rfl rfl (by simp [hpc, Caller.sendTicket]) rfl ?_ (Nat.le_refl _)
      h.recvd_le_sent (by simp [Caller.recvGrant])
    rw [toNat_succ p.bits_pos hne]
    exact hr.draw (by simp [hpc, Caller.recvTicket])
  | @grantPop i hpc hclear =>
    refine h.of_recv_move rfl rfl (by simp [hpc, Caller.sendTicket]) rfl ?_ (Nat.le_refl _)
      h.recvd_le_sent ?_
    · rw [update_keep (by simp [hpc, Caller.recvTicket])]; exact hr
    · intro j hj
      obtain rfl : i.toNat = j := by simpa [Caller.recvGrant] using hj
      exact hpop hpc hclear
  | refusePop hpc | retryPop hpc =>
    refine h.of_recv_move rfl rfl (by simp [hpc, Caller.sendTicket]) rfl ?_ (Nat.le_refl _)
      h.recvd_le_sent (by simp [Caller.recvGrant])
    rw [update_keep (by simp [hpc, Caller.recvTicket])]
    exact hr
  | @handBackRecv i hpc hnext =>
    refine h.of_recv_move rfl rfl (by simp [hpc, Caller.sendTicket]) rfl ?_ (Nat.le_refl _)
      h.recvd_le_sent (by simp [Caller.recvGrant])
    have hi : (s.callers c).recvTicket = some i.toNat := by simp [hpc, Caller.recvTicket]
    exact hr.handBack hi (by rw [hnext, toNat_index_succ (hr.bounds hi).2])
  | handOut hpc | dropPop hpc =>
    refine h.of_recv_move rfl rfl (by simp [hpc, Caller.sendTicket]) rfl ?_ (Nat.le_refl _)
      h.recvd_le_sent ?_
    · rw [update_keep (by simp [hpc, Caller.recvTicket])]; exact hr
    · intro j hj
      exact h.recvGrant_lt (c := c) (by simpa [hpc, Caller.recvGrant] using hj)
  | @publishRecv i hpc hlast =>
    have hi : (s.callers c).recvTicket = some i.toNat := by simp [hpc, Caller.recvTicket]
    obtain ⟨hrecvd, hsucc⟩ := h.recvd_publish hpc hlast
    have hgrant := h.recvGrant_lt (c := c) (i := i.toNat) (by simp [hpc, Caller.recvGrant])
    refine h.of_recv_move rfl rfl (by simp [hpc, Caller.sendTicket]) rfl ?_ ?_ ?_
      (by simp [Caller.recvGrant])
    · rw [hsucc, ← hrecvd]; exact hr.serve (by rw [hrecvd]; exact hi)
    · rw [hsucc]; omega
    · rw [hsucc]; omega

theorem Inv.move [Fintype ι] (h : Inv n s) (hu : Uncrowded n s) {c : ι} {a : Act α}
    {s' : State p ι α} (hmax : BelowMax (s, c, a)) (hm : Move n s c a s') : Inv n s' :=
  h.move_of hmax (fun hpc => (h.sendClear_iff hu hpc).mp) (fun hpc => (h.recvClear_iff hu hpc).mp) hm

end Preservation

/-- The conditions on a run: no index `usize::MAX` is claimed, and the state each step starts from
is uncrowded. -/
def Calm [Fintype ι] (n : ItemCount p) (e : State p ι α × ι × Act α) : Prop :=
  BelowMax e ∧ Uncrowded n e.1

instance [Fintype ι] (n : ItemCount p) (e : State p ι α × ι × Act α) : Decidable (Calm n e) :=
  inferInstanceAs (Decidable (_ ∧ _))

theorem inv_of_run [Fintype ι] [DecidableEq ι] {n : ItemCount p}
    {h : List (State p ι α × ι × Act α)} {s : State p ι α} (hr : Run (system n ι α) h s)
    (hcalm : ∀ e ∈ h, Calm n e) : Inv n s :=
  hr.invariant_of (Calm n) (Inv n) (fun _ h0 => inv_fresh h0)
    (fun _ _ _ hi hc hs => hi.move hc.2 hc.1 (move_of_step hs)) hcalm

end SandboxIpc.Queue
