import SandboxIpc.Shm.Queue.Fifo

/-!
# The queue does not get stuck

Three kinds of loops wait for each other: an index is put back after all later ones, an item is
published after all earlier ones, and the full and the empty check wait for the other side.

* `Advances` — what a call in a loop waits for is the case
* `no_deadlock` — some call advances, or a guard waits for a thread that is free to drop it
* `stuck` — a crowd of producers gets stuck, and the loop may first have to go round once
-/

namespace SandboxIpc.Queue

open Infra

variable {p : PointerWidth} {ι τ α : Type}

/-- Inside `try_push`, `try_pop` or the drop of a guard. -/
def Caller.inside : Caller p → Bool
  | .idle | .pushGuard _ | .popGuard _ _ | .panicked => false
  | _ => true

/-- Has a guard and has not begun to drop it. -/
def Caller.owns : Caller p → Bool
  | .pushGuard _ | .popGuard _ _ => true
  | _ => false

/-- Its loop can end: the check passes for its index, the index can be put back, or the item can be
published. A call past its loop goes on in any case. -/
def Advances (n : ItemCount p) (s : State p ι α) (c : ι) : Prop :=
  match s.callers c with
  | .pushClaimed i | .pushFull i =>
    sendClear n i s.control.lastRecvdIndex = true ∨ s.control.nextSendIndex = i + 1
  | .pushDropping i => s.control.lastSentIndex = i - 1
  | .popClaimed i | .popEmpty i =>
    recvClear i s.control.lastSentIndex = true ∨ s.control.nextRecvIndex = i + 1
  | .popReady _ => True
  | .popDropping i => s.control.lastRecvdIndex = i - 1
  | _ => False

/-- A guard waits for a thread that is not inside any call. -/
def FreeToDrop (thread : ι → τ) (s : State p ι α) : Prop :=
  ∃ c, (s.callers c).owns = true ∧ ∀ d, thread d = thread c → (s.callers d).inside = false

/-- No thread has two live guards. -/
def OneGuardEach (thread : ι → τ) (s : State p ι α) : Prop :=
  ∀ c d, thread c = thread d → (s.callers c).guardIndex.isSome → (s.callers d).guardIndex.isSome →
    c = d

/-! ## Whose turn it is -/

/-- A push call with an index waits for room or has a guard. -/
theorem sendTicket_cases {x : Caller p} {i : Nat} (h : x.sendTicket = some i) :
    ∃ j, j.toNat = i ∧ (x = .pushClaimed j ∨ x = .pushFull j ∨ x = .pushGuard j ∨
      x = .pushDropping j) := by
  cases x with
  | pushClaimed j => exact ⟨j, Option.some.inj h, .inl rfl⟩
  | pushFull j => exact ⟨j, Option.some.inj h, .inr (.inl rfl)⟩
  | pushGuard j => exact ⟨j, Option.some.inj h, .inr (.inr (.inl rfl))⟩
  | pushDropping j => exact ⟨j, Option.some.inj h, .inr (.inr (.inr rfl))⟩
  | _ => cases h

theorem recvTicket_cases {x : Caller p} {i : Nat} (h : x.recvTicket = some i) :
    ∃ j, j.toNat = i ∧ (x = .popClaimed j ∨ x = .popEmpty j ∨ x = .popReady j ∨
      (∃ poisoned, x = .popGuard j poisoned) ∨ x = .popDropping j) := by
  cases x with
  | popClaimed j => exact ⟨j, Option.some.inj h, .inl rfl⟩
  | popEmpty j => exact ⟨j, Option.some.inj h, .inr (.inl rfl)⟩
  | popReady j => exact ⟨j, Option.some.inj h, .inr (.inr (.inl rfl))⟩
  | popGuard j _ => exact ⟨j, Option.some.inj h, .inr (.inr (.inr (.inl ⟨_, rfl⟩)))⟩
  | popDropping j => exact ⟨j, Option.some.inj h, .inr (.inr (.inr (.inr rfl)))⟩
  | _ => cases h

namespace Inv

variable {n : ItemCount p} {s : State p ι α}

/-- Below the window the full check passes, however crowded the queue is. -/
theorem sendClear_of_lt (h : Inv n s) {c : ι} {i : Usize p}
    (hc : (s.callers c).sendTicket = some i.toNat) (hi : i.toNat < s.recvd + n.toNat) :
    sendClear n i s.control.lastRecvdIndex = true := by
  have hlo := (h.sends.bounds hc).1
  have hle := h.recvd_le_sent
  have hn := n.lt_half
  unfold State.recvd at hi hle
  exact (Queue.sendClear_iff (by omega) (by omega)).mpr hi

theorem recvClear_of_lt (h : Inv n s) {c : ι} {i : Usize p}
    (hc : (s.callers c).recvTicket = some i.toNat) (hi : i.toNat < s.sent) :
    recvClear i s.control.lastSentIndex = true := by
  have hlo := (h.recvs.bounds hc).1
  have hle := h.sent_le
  have hn := n.lt_half
  unfold State.sent at hi hle
  exact (Queue.recvClear_iff (by omega) (by omega)).mpr hi

/-- A push call that waits for room advances if its index is the last one or inside the window. -/
theorem advances_of_sendTicket (h : Inv n s) {c : ι} {i : Nat}
    (hc : (s.callers c).pushing = true) (hi : (s.callers c).sendTicket = some i)
    (hgo : i + 1 = s.control.nextSendIndex.toNat ∨ i < s.recvd + n.toNat) : Advances n s c := by
  obtain ⟨j, rfl, hj⟩ := sendTicket_cases hi
  have hgo' : sendClear n j s.control.lastRecvdIndex = true ∨ s.control.nextSendIndex = j + 1 := by
    rcases hgo with hlast | hlt
    · right
      refine BitVec.eq_of_toNat_eq ?_
      rw [toNat_index_succ (h.sends.bounds hi).2, hlast]
    · exact .inl (h.sendClear_of_lt hi hlt)
  unfold Advances
  rcases hj with hj | hj | hj | hj <;> rw [hj] at hc ⊢
  · exact hgo'
  · exact hgo'
  all_goals cases hc

theorem advances_of_recvTicket (h : Inv n s) {c : ι} {i : Nat}
    (hc : (s.callers c).popping = true) (hi : (s.callers c).recvTicket = some i)
    (hgo : i + 1 = s.control.nextRecvIndex.toNat ∨ i < s.sent) : Advances n s c := by
  obtain ⟨j, rfl, hj⟩ := recvTicket_cases hi
  have hgo' : recvClear j s.control.lastSentIndex = true ∨ s.control.nextRecvIndex = j + 1 := by
    rcases hgo with hlast | hlt
    · right
      refine BitVec.eq_of_toNat_eq ?_
      rw [toNat_index_succ (h.recvs.bounds hi).2, hlast]
    · exact .inl (h.recvClear_of_lt hi hlt)
  unfold Advances
  rcases hj with hj | hj | hj | ⟨_, hj⟩ | hj <;> rw [hj] at hc ⊢
  · exact hgo'
  · exact hgo'
  all_goals cases hc

/-- While a push call waits for room, the owner of the last index can put it back; or it has been
granted, and with it everything below. -/
theorem advances_of_pushing (h : Inv n s) {c : ι} (hc : (s.callers c).pushing = true) :
    ∃ d, Advances n s d := by
  obtain ⟨i, hi⟩ : ∃ i, (s.callers c).sendTicket = some i := by
    cases hx : s.callers c <;> simp_all [Caller.pushing, Caller.sendTicket]
  have hb := h.sends.bounds hi
  obtain ⟨d, hd⟩ := h.sends.newest (by omega)
  rcases sendGrant_or_pushing hd with hgrant | hwaits
  · have hlt := h.sendGrant_lt hgrant
    exact ⟨c, h.advances_of_sendTicket hc hi (.inr (by omega))⟩
  · exact ⟨d, h.advances_of_sendTicket hwaits hd (.inl (by omega))⟩

/-- The same for the pop calls that wait for an item. -/
theorem advances_of_popping (h : Inv n s) {c : ι} (hc : (s.callers c).popping = true) :
    ∃ d, Advances n s d := by
  obtain ⟨i, hi⟩ : ∃ i, (s.callers c).recvTicket = some i := by
    cases hx : s.callers c <;> simp_all [Caller.popping, Caller.recvTicket]
  have hb := h.recvs.bounds hi
  obtain ⟨d, hd⟩ := h.recvs.newest (by omega)
  rcases recvGrant_or_popping hd with hgrant | hwaits
  · have hlt := h.recvGrant_lt hgrant
    exact ⟨c, h.advances_of_recvTicket hc hi (.inr (by omega))⟩
  · exact ⟨d, h.advances_of_recvTicket hwaits hd (.inl (by omega))⟩

/-- While a push guard is being dropped, the owner of the oldest index can publish, or has not begun
to drop its guard, or waits for room. -/
theorem oldest_push (h : Inv n s) {c : ι} {i : Usize p} (hc : s.callers c = .pushDropping i) :
    ∃ d, Advances n s d ∨ (s.callers d).owns = true ∨ (s.callers d).pushing = true := by
  have hb := h.sends.bounds (c := c) (i := i.toNat) (by rw [hc]; rfl)
  obtain ⟨d, hd⟩ := h.sends.oldest (by omega)
  obtain ⟨j, hj, hstate⟩ := sendTicket_cases hd
  refine ⟨d, ?_⟩
  rcases hstate with hstate | hstate | hstate | hstate
  · exact .inr (.inr (by rw [hstate]; rfl))
  · exact .inr (.inr (by rw [hstate]; rfl))
  · exact .inr (.inl (by rw [hstate]; rfl))
  · left
    unfold Advances
    rw [hstate]
    -- it is the one above everything that has been sent
    have hlast : s.control.lastSentIndex + 1 = j := BitVec.eq_of_toNat_eq hj.symm
    show s.control.lastSentIndex = j - 1
    rw [← hlast, BitVec.add_sub_cancel]

theorem oldest_pop (h : Inv n s) {c : ι} {i : Usize p} (hc : s.callers c = .popDropping i) :
    ∃ d, Advances n s d ∨ (s.callers d).owns = true ∨ (s.callers d).popping = true := by
  have hb := h.recvs.bounds (c := c) (i := i.toNat) (by rw [hc]; rfl)
  obtain ⟨d, hd⟩ := h.recvs.oldest (by omega)
  obtain ⟨j, hj, hstate⟩ := recvTicket_cases hd
  refine ⟨d, ?_⟩
  rcases hstate with hstate | hstate | hstate | ⟨_, hstate⟩ | hstate
  · exact .inr (.inr (by rw [hstate]; rfl))
  · exact .inr (.inr (by rw [hstate]; rfl))
  · left
    unfold Advances
    rw [hstate]
    trivial
  · exact .inr (.inl (by rw [hstate]; rfl))
  · left
    unfold Advances
    rw [hstate]
    have hlast : s.control.lastRecvdIndex + 1 = j := BitVec.eq_of_toNat_eq hj.symm
    show s.control.lastRecvdIndex = j - 1
    rw [← hlast, BitVec.add_sub_cancel]

/-- A call is inside: it advances or another does, or somebody owns a guard and every call is the
drop of another one. -/
theorem advances_or_owned (h : Inv n s) {c : ι} (hc : (s.callers c).inside = true) :
    (∃ d, Advances n s d) ∨ ∃ d, (s.callers d).owns = true ∧
      ∀ e, (s.callers e).inside = true → (s.callers e).guardIndex.isSome := by
  by_cases hpush : ∃ d, (s.callers d).pushing = true
  · obtain ⟨d, hd⟩ := hpush
    exact .inl (h.advances_of_pushing hd)
  by_cases hpop : ∃ d, (s.callers d).popping = true
  · obtain ⟨d, hd⟩ := hpop
    exact .inl (h.advances_of_popping hd)
  by_cases hready : ∃ d i, s.callers d = .popReady i
  · obtain ⟨d, i, hd⟩ := hready
    refine .inl ⟨d, ?_⟩
    unfold Advances
    rw [hd]
    trivial
  -- nobody waits for the other side, so all that is left are drops
  have hdrop : ∀ e, (s.callers e).inside = true →
      ∃ i, s.callers e = .pushDropping i ∨ s.callers e = .popDropping i := by
    intro e he
    cases hx : s.callers e with
    | pushDropping i => exact ⟨i, .inl rfl⟩
    | popDropping i => exact ⟨i, .inr rfl⟩
    | pushClaimed | pushFull => exact absurd ⟨e, by rw [hx]; rfl⟩ hpush
    | popClaimed | popEmpty => exact absurd ⟨e, by rw [hx]; rfl⟩ hpop
    | popReady i => exact absurd ⟨e, i, hx⟩ hready
    | idle | pushGuard | popGuard | panicked =>
      rw [hx] at he
      cases he
  have hguards : ∀ e, (s.callers e).inside = true → (s.callers e).guardIndex.isSome := by
    intro e he
    obtain ⟨i, hi | hi⟩ := hdrop e he <;> rw [hi] <;> rfl
  obtain ⟨i, hi | hi⟩ := hdrop c hc
  · obtain ⟨d, hd | hd | hd⟩ := h.oldest_push hi
    · exact .inl ⟨d, hd⟩
    · exact .inr ⟨d, hd, hguards⟩
    · exact absurd ⟨d, hd⟩ hpush
  · obtain ⟨d, hd | hd | hd⟩ := h.oldest_pop hi
    · exact .inl ⟨d, hd⟩
    · exact .inr ⟨d, hd, hguards⟩
    · exact absurd ⟨d, hd⟩ hpop

end Inv

/-! ## What advancing means -/

section Returns

variable [DecidableEq ι] {n : ItemCount p} {s s₁ s₂ s₃ : State p ι α} {c : ι}

/-- The call returns by steps of its own, at most three of them. -/
def Returns (n : ItemCount p) (s : State p ι α) (c : ι) : Prop :=
  ∃ acts : List (Act α), acts.length ≤ 3 ∧ ∃ h s',
    (system n ι α).replay s (acts.map (c, ·)) = some (h, s') ∧ (s'.callers c).inside = false

theorem returns_one {a : Act α} (h : step n s (c, a) = some s₁)
    (hout : (s₁.callers c).inside = false) : Returns n s c := by
  refine ⟨[a], by simp, [(s, c, a)], s₁, ?_, hout⟩
  simp only [List.map, System.replay, system, h]
  rfl

theorem returns_two {a b : Act α} (h₁ : step n s (c, a) = some s₁)
    (h₂ : step n s₁ (c, b) = some s₂) (hout : (s₂.callers c).inside = false) : Returns n s c := by
  refine ⟨[a, b], by simp, [(s, c, a), (s₁, c, b)], s₂, ?_, hout⟩
  simp only [List.map, System.replay, system, h₁, Option.bind_some, h₂]
  rfl

theorem returns_three {a b d : Act α} (h₁ : step n s (c, a) = some s₁)
    (h₂ : step n s₁ (c, b) = some s₂) (h₃ : step n s₂ (c, d) = some s₃)
    (hout : (s₃.callers c).inside = false) : Returns n s c := by
  refine ⟨[a, b, d], by simp, [(s, c, a), (s₁, c, b), (s₂, c, d)], s₃, ?_, hout⟩
  simp only [List.map, System.replay, system, h₁, Option.bind_some, h₂, h₃]
  rfl

/-- A call that advances can return, whatever the others do not do. -/
theorem returns_of_advances (h : Advances n s c) : Returns n s c := by
  have hself : ∀ (u : State p ι α) x, (u.setCaller c x).callers c = x :=
    fun _ _ => Function.update_self ..
  have hself' : ∀ (u : State p ι α) x, ((u.setCaller c x).callers c).inside = x.inside :=
    fun u x => by rw [hself]
  unfold Advances at h
  cases hx : s.callers c with
  | pushClaimed i =>
    rw [hx] at h
    cases hclear : sendClear n i s.control.lastRecvdIndex with
    | true => exact returns_one (step_iff_move.mpr (.grantPush hx hclear)) (hself' _ _)
    | false =>
      have hnext : s.control.nextSendIndex = i + 1 := h.resolve_left (by rw [hclear]; nofun)
      exact returns_two (step_iff_move.mpr (.refusePush hx hclear))
        (step_iff_move.mpr (.handBackSend (hself _ _) hnext)) (hself' _ _)
  | pushFull i =>
    rw [hx] at h
    by_cases hnext : s.control.nextSendIndex = i + 1
    · exact returns_one (step_iff_move.mpr (.handBackSend hx hnext)) (hself' _ _)
    · -- the exchange fails, and then the check passes
      exact returns_two (a := .putBack false)
        (step_iff_move.mpr (.retryPush hx fun hcas => hnext hcas.2))
        (step_iff_move.mpr (.grantPush (hself _ _) (h.resolve_right hnext))) (hself' _ _)
  | pushDropping i =>
    rw [hx] at h
    exact returns_one (step_iff_move.mpr (.publishSend hx h)) (hself' _ _)
  | popClaimed i =>
    rw [hx] at h
    cases hclear : recvClear i s.control.lastSentIndex with
    | true =>
      exact returns_two (step_iff_move.mpr (.grantPop hx hclear))
        (step_iff_move.mpr (.handOut (hself _ _))) (hself' _ _)
    | false =>
      have hnext : s.control.nextRecvIndex = i + 1 := h.resolve_left (by rw [hclear]; nofun)
      exact returns_two (step_iff_move.mpr (.refusePop hx hclear))
        (step_iff_move.mpr (.handBackRecv (hself _ _) hnext)) (hself' _ _)
  | popEmpty i =>
    rw [hx] at h
    by_cases hnext : s.control.nextRecvIndex = i + 1
    · exact returns_one (step_iff_move.mpr (.handBackRecv hx hnext)) (hself' _ _)
    · exact returns_three (a := .putBack false)
        (step_iff_move.mpr (.retryPop hx fun hcas => hnext hcas.2))
        (step_iff_move.mpr (.grantPop (hself _ _) (h.resolve_right hnext)))
        (step_iff_move.mpr (.handOut (hself _ _))) (hself' _ _)
  | popReady i => exact returns_one (step_iff_move.mpr (.handOut hx)) (hself' _ _)
  | popDropping i =>
    rw [hx] at h
    exact returns_one (step_iff_move.mpr (.publishRecv hx h)) (hself' _ _)
  | idle | pushGuard | popGuard | panicked =>
    rw [hx] at h
    exact h.elim

end Returns

section Runs

variable [Fintype ι] [DecidableEq ι]

/--
Freedom from deadlock.

In every state of a calm run in which some call has not returned, and no thread has two guards, a
guard waits for a thread that is free to drop it, or some call advances.
-/
theorem no_deadlock {n : ItemCount p} {h : List (Entry p ι α)} {s : State p ι α}
    (hr : Run (system n ι α) h s) (hcalm : ∀ e ∈ h, Calm n e) (thread : ι → τ)
    (hone : OneGuardEach thread s) (hinside : ∃ c, (s.callers c).inside = true) :
    FreeToDrop thread s ∨ ∃ c, Advances n s c := by
  obtain ⟨c, hc⟩ := hinside
  rcases (inv_of_run hr hcalm).advances_or_owned hc with hadv | ⟨d, hd, hdrops⟩
  · exact .inr hadv
  · -- a thread inside a drop has no second guard
    refine .inl ⟨d, hd, fun e he => ?_⟩
    by_contra hin
    have hin : (s.callers e).inside = true := by simpa using hin
    have hguard : (s.callers d).guardIndex.isSome := by
      cases hx : s.callers d <;> simp_all [Caller.owns, Caller.guardIndex]
    obtain rfl := hone e d he (hdrops e hin) hguard
    cases hx : s.callers e <;> simp_all [Caller.owns, Caller.inside]

end Runs

/-- A producer in the way of another: it is the first that goes on. -/
theorem no_deadlock_two : ∃ h s, Run (system twoSlots (Fin 2) Unit) h s ∧
    s.callers 0 = .pushDropping 0 ∧ s.callers 1 = .pushDropping 1 ∧
    (FreeToDrop id s ∨ ∃ c, Advances twoSlots s c) := by
  have hr : Run (system twoSlots (Fin 2) Unit) _ _ :=
    Run.of_replay [(0, .tryPush), (1, .tryPush), (1, .load), (0, .load), (1, .drop false),
        (1, .publish false), (0, .drop false)]
      (fresh_fresh fun _ => ()) rfl
  exact ⟨_, _, hr, by decide, by decide,
    no_deadlock hr (by decide) id (fun c d h _ _ => h) ⟨0, by decide⟩⟩

/-! ## How it gets stuck

The last of the crowd has a guard it should not have. Once it drops it, it waits for those before
it, and they wait for the receiving side or for the last index to be put back.
-/

def crowdStuck : State .w32 Crowd Bool :=
  { crowdPublished with control.poison := crowdPublished.control.poison || false }.setCaller last
    (.pushDropping (BitVec.ofNat _ (2 ^ 31)))

theorem run_crowdStuck : ∃ h, Run (system oneSlot Crowd Bool) h crowdStuck ∧
    ∀ e ∈ h, BelowMax e := by
  obtain ⟨h, hr, hh⟩ := run_crowdGranted fun _ => false
  have hdrop : (system oneSlot Crowd Bool).step _ (last, .drop false) = some crowdStuck :=
    step_iff_move.mpr (.dropPush crowdPublished_last)
  refine ⟨_, ((hr.snoc crowd_drop).snoc crowd_publish).snoc hdrop, fun e he => ?_⟩
  simp only [List.mem_append, List.mem_singleton] at he
  rcases he with ((he | rfl) | rfl) | rfl
  · exact (hh e he).1
  all_goals exact trivial

theorem crowdStuck_callers (c : Crowd) : crowdStuck.callers c =
    if c = last then .pushDropping (BitVec.ofNat _ (2 ^ 31))
    else if c = first then .idle else .pushClaimed (BitVec.ofNat _ c.val) := by
  by_cases hl : c = last
  · subst hl
    rw [crowdStuck, setCaller_callers, Function.update_self, if_pos rfl]
  · rw [crowdStuck, setCaller_callers, Function.update_of_ne hl, if_neg hl]
    show crowdPublished.callers c = _
    by_cases hf : c = first
    · subst hf
      rw [crowdPublished, setCaller_callers, Function.update_self, if_pos rfl]
    · rw [crowdPublished, setCaller_callers, Function.update_of_ne hf, if_neg hf]
      show crowdDropped.callers c = _
      rw [crowdDropped, setCaller_callers, Function.update_of_ne hf]
      show (crowdGranted _).callers c = _
      rw [crowdGranted, setCaller_callers, Function.update_of_ne hl, setCaller_callers,
        Function.update_of_ne hf]
      exact if_pos c.isLt

theorem crowdStuck_sent : ¬ (0 : Usize .w32) = BitVec.ofNat _ (2 ^ 31) - 1 := by decide

/-- Nothing has been received, so the queue of one slot is full for every index above zero. -/
theorem crowd_not_clear {i : Usize .w32} (hlo : 0 < i.toNat) (hhi : i.toNat < 2 ^ 31) :
    sendClear oneSlot i (usizeMax .w32) = false := by
  have hiff : sendClear oneSlot i (usizeMax .w32) = true ↔
      i.toNat < (usizeMax .w32 + 1).toNat + oneSlot.toNat :=
    sendClear_iff (by rw [toNat_usizeMax_add_one]; exact Nat.zero_le _)
      (by rw [toNat_usizeMax_add_one, Nat.zero_add]; exact hhi)
  rw [toNat_usizeMax_add_one] at hiff
  rw [Bool.eq_false_iff]
  intro hclear
  have hlt : i.toNat < 0 + 1 := hiff.mp hclear
  omega

theorem crowd_next_ne {k : Nat} (hhi : k < 2 ^ 31) :
    (BitVec.ofNat 32 (2 ^ 31 + 1)) ≠ BitVec.ofNat 32 k + 1 := by
  intro he
  have hsucc : BitVec.ofNat 32 k + 1 = BitVec.ofNat 32 (k + 1) := (BitVec.ofNat_add k 1).symm
  have hnat := congrArg BitVec.toNat (he.trans hsucc)
  rw [BitVec.toNat_ofNat, BitVec.toNat_ofNat] at hnat
  omega

theorem crowdStuck_not_advances (c : Crowd) : ¬ Advances oneSlot crowdStuck c := by
  unfold Advances
  rw [crowdStuck_callers]
  by_cases hl : c = last
  · rw [if_pos hl]
    exact crowdStuck_sent
  by_cases hf : c = first
  · rw [if_neg hl, if_pos hf]
    exact id
  rw [if_neg hl, if_neg hf]
  have hlo : c.val ≠ 0 := fun h => hf (Fin.ext h)
  have hne : c.val ≠ 2 ^ 31 := fun h => hl (Fin.ext h)
  have hlt := c.isLt
  have hval : (BitVec.ofNat PointerWidth.w32.bits c.val).toNat = c.val :=
    Nat.mod_eq_of_lt (Nat.lt_trans hlt (by decide))
  rintro (hclear | hnext)
  · have hfull := crowd_not_clear (i := BitVec.ofNat _ c.val) (by rw [hval]; omega)
      (by rw [hval]; omega)
    exact absurd (hclear.symm.trans hfull) nofun
  · exact crowd_next_ne (by omega) hnext

/-- The steps of all calls are compare-exchanges that fail. -/
def OnlyRetries [DecidableEq ι] (n : ItemCount p) (s : State p ι α) : Prop :=
  ∀ c a s', (s.callers c).inside = true → step n s (c, a) = some s' →
    s'.control = s.control ∧ ∃ fails, a = .putBack fails ∨ a = .publish fails

/-- Caller 1 finds the queue full. Two items are received, and caller 3 gets the index above. -/
def overtakenPush : List (Fin 5 × Act Unit) :=
  [(0, .tryPush), (0, .load), (0, .drop false), (0, .publish false),
    (0, .tryPush), (0, .load), (0, .drop false), (0, .publish false),
    (1, .tryPush), (1, .load),
    (2, .tryPop), (2, .load), (2, .load), (2, .drop false), (2, .publish false),
    (2, .tryPop), (2, .load), (2, .load), (2, .drop false), (2, .publish false),
    (3, .tryPush), (3, .load), (3, .drop true)]

def overtakenRun : List (Entry .w64 (Fin 5) Unit) × State .w64 (Fin 5) Unit :=
  ((system twoSlots (Fin 5) Unit).replay (fresh _ _ fun _ => ()) overtakenPush).getD
    ([], fresh _ _ fun _ => ())

theorem run_overtaken : Run (system twoSlots (Fin 5) Unit) overtakenRun.1 overtakenRun.2 :=
  Run.of_replay overtakenPush (fresh_fresh fun _ => ()) rfl

theorem overtakenRun_callers : overtakenRun.2.callers 1 = .pushFull 2 ∧
    overtakenRun.2.callers 3 = .pushDropping 3 ∧
    ∀ c, (overtakenRun.2.callers c).inside = true → c = 1 ∨ c = 3 := by
  decide

/-- Neither of the two calls that have not returned can do better. -/
theorem overtakenRun_onlyRetries : OnlyRetries twoSlots overtakenRun.2 := by
  obtain ⟨hfull, hdropping, hthese⟩ := overtakenRun_callers
  have hnext : overtakenRun.2.control.nextSendIndex ≠ 2 + 1 := by decide
  have hlast : overtakenRun.2.control.lastSentIndex ≠ 3 - 1 := by decide
  intro c a s' hin hs
  have hm := move_of_step hs
  replace hthese := hthese c hin
  generalize overtakenRun.2 = s at *
  rcases hthese with rfl | rfl
  · cases hm <;> simp_all
  · cases hm <;> simp_all

/--
A crowd of producers gets stuck.

And in a calm run it can be that every next step is a failing compare-exchange: a call about to put
its index back has to fail once before it repeats the check.
-/
theorem stuck :
    (∃ h s, Run (system oneSlot Crowd Bool) h s ∧ (∀ e ∈ h, BelowMax e) ∧ OneGuardEach id s ∧
      (∃ c, (s.callers c).inside = true) ∧ ¬ (FreeToDrop id s ∨ ∃ c, Advances oneSlot s c)) ∧
    ∃ h s, Run (system twoSlots (Fin 5) Unit) h s ∧ (∀ e ∈ h, Calm twoSlots e) ∧
      OneGuardEach id s ∧ (∃ c, (s.callers c).inside = true) ∧ ¬ FreeToDrop id s ∧
      OnlyRetries twoSlots s := by
  constructor
  · obtain ⟨h, hr, hmax⟩ := run_crowdStuck
    refine ⟨h, _, hr, hmax, fun c d heq _ _ => heq, ⟨last, ?_⟩, ?_⟩
    · rw [crowdStuck_callers, if_pos rfl]
      rfl
    · rintro (⟨c, hc, -⟩ | ⟨c, hc⟩)
      · rw [crowdStuck_callers] at hc
        split at hc
        · cases hc
        · split at hc <;> cases hc
      · exact crowdStuck_not_advances c hc
  · refine ⟨_, _, run_overtaken, by decide, fun c d heq _ _ => heq, ⟨1, by decide⟩, ?_,
      overtakenRun_onlyRetries⟩
    rintro ⟨c, hc, -⟩
    revert hc
    revert c
    decide

end SandboxIpc.Queue
