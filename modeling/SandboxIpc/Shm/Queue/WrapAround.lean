import SandboxIpc.Shm.Queue.Holes

/-!
# Calls without a guard, and counters that wrap around

A call that returns nothing puts its index back. A call that claims the index `usize::MAX` panics
instead, when `fetch_add` has already set the counter back to zero.

* `AsIfUnmade` — the state is one that is reached without the calls that have returned no guard
* `Publishable` — every live guard can still publish its index
* `unharmed` — in a calm run both are the case, and no two live guards share a slot
* `wrapped` — after a panic at `usize::MAX` the guards that follow cannot be published
-/

namespace SandboxIpc.Queue

open Infra

variable {p : PointerWidth} {ι α : Type}

/-! ## What is expected of a run -/

/-- The caller has a live guard before the step. -/
def ofGuard (e : Entry p ι α) : Bool := (e.1.callers e.2.1).guardIndex.isSome

/-- What has been done with guards, in its order. -/
def guardSteps (h : List (Entry p ι α)) : List (ι × Act α) := (h.filter ofGuard).map Prod.snd

/-- The call does not end without a guard in this step. -/
structure Successful (e : Entry p ι α) : Prop where
  not_full : ¬ ReturnsFull e
  not_empty : ¬ ReturnsEmpty e
  no_panic : BelowMax e

/-- Those that have panicked are idle again. -/
def State.recovered (s : State p ι α) : State p ι α where
  control := s.control
  slots := s.slots
  callers c := if s.callers c = .panicked then .idle else s.callers c

section Statement

variable [DecidableEq ι] (n : ItemCount p) (h : List (Entry p ι α)) (s : State p ι α)

/-- The same state is reached by a run in which no call has ended without a guard, and the same is
done with the guards. -/
def AsIfUnmade : Prop :=
  ∃ h', Run (system n ι α) h' s.recovered ∧ (∀ e ∈ h', Successful e) ∧ guardSteps h' = guardSteps h

/-- Every live guard can still publish its index, with no other call being made. -/
def Publishable : Prop :=
  ∀ c i, (s.callers c).guardIndex = some i → ∃ k s', Run ((system n ι α).startingAt s) k s' ∧
    (∀ e ∈ k, e.2.2 ≠ .tryPush ∧ e.2.2 ≠ .tryPop) ∧
    ∃ e ∈ k, e.2.1 = c ∧ (pushes e = true ∨ pops e = true)

/-- The calls of `h` that have returned no guard have done no harm. -/
structure Unharmed : Prop where
  unmade : AsIfUnmade n h s
  slots : SlotsDistinct n s
  publishable : Publishable n s

end Statement

/-! ## Taking calls back -/

/-- A call that waits with an index from `k` on, of `try_push`, or from `m` on, of `try_pop`, has not
been made. -/
def Caller.unmade (k m : Nat) : Caller p → Caller p
  | .pushClaimed i => if k ≤ i.toNat then .idle else .pushClaimed i
  | .pushFull i => if k ≤ i.toNat then .idle else .pushFull i
  | .popClaimed i => if m ≤ i.toNat then .idle else .popClaimed i
  | .popEmpty i => if m ≤ i.toNat then .idle else .popEmpty i
  | x => x

def State.unmade (s : State p ι α) (k m : Usize p) : State p ι α where
  control := { s.control with nextSendIndex := k, nextRecvIndex := m }
  slots := s.slots
  callers c := (s.callers c).unmade k.toNat m.toNat

/-- The calls from `k` and from `m` on can be taken back: none of them has been granted. -/
structure Unmakes (s : State p ι α) (k m : Usize p) : Prop where
  sent_le : s.sent ≤ k.toNat
  recvd_le : s.recvd ≤ m.toNat
  send_le : k.toNat ≤ s.control.nextSendIndex.toNat
  recv_le : m.toNat ≤ s.control.nextRecvIndex.toNat
  sendGrant_lt : ∀ {c i}, (s.callers c).sendGrant = some i → i < k.toNat
  recvGrant_lt : ∀ {c i}, (s.callers c).recvGrant = some i → i < m.toNat

section Unmade

variable {k m : Nat}

theorem guardIndex_unmade (x : Caller p) : (x.unmade k m).guardIndex = x.guardIndex := by
  cases x with
  | pushClaimed i | pushFull i | popClaimed i | popEmpty i =>
    unfold Caller.unmade
    dsimp only
    split <;> rfl
  | _ => rfl

/-- Nobody is taken back who has an index below. -/
theorem unmade_of_lt {x : Caller p} (hsend : ∀ i, x.sendTicket = some i → i < k)
    (hrecv : ∀ i, x.recvTicket = some i → i < m) : x.unmade k m = x := by
  cases x with
  | pushClaimed i | pushFull i => exact if_neg (Nat.not_le.mpr (hsend _ rfl))
  | popClaimed i | popEmpty i => exact if_neg (Nat.not_le.mpr (hrecv _ rfl))
  | _ => rfl

/-- Whether a call is taken back depends on the bound of its own side. -/
theorem unmade_succ_send {x : Caller p} (h : ∀ i, x.sendTicket = some i → i < k) :
    x.unmade (k + 1) m = x.unmade k m := by
  cases x with
  | pushClaimed i | pushFull i =>
    have hlt := h _ rfl
    unfold Caller.unmade
    dsimp only
    rw [if_neg (by omega), if_neg (by omega)]
  | _ => rfl

theorem unmade_succ_recv {x : Caller p} (h : ∀ i, x.recvTicket = some i → i < m) :
    x.unmade k (m + 1) = x.unmade k m := by
  cases x with
  | popClaimed i | popEmpty i =>
    have hlt := h _ rfl
    unfold Caller.unmade
    dsimp only
    rw [if_neg (by omega), if_neg (by omega)]
  | _ => rfl

end Unmade

section Moves

variable [DecidableEq ι] {n : ItemCount p} {s s' t t' : State p ι α} {c : ι} {a : Act α}
  {k m : Usize p} {u : Ctrl p} {f : Nat → α} {x : Caller p}

theorem unmade_setCaller : (State.setCaller ⟨u, f, s.callers⟩ c x).unmade k m
    = State.setCaller ⟨{ u with nextSendIndex := k, nextRecvIndex := m }, f, (s.unmade k m).callers⟩ c
      (x.unmade k.toNat m.toNat) :=
  State.ext rfl rfl (Function.comp_update (Caller.unmade k.toNat m.toNat) s.callers c x)

/-- A step of a call that is taken back changes nothing. -/
theorem unmade_skip (hu : { u with nextSendIndex := k, nextRecvIndex := m }
      = { s.control with nextSendIndex := k, nextRecvIndex := m })
    (hx : x.unmade k.toNat m.toNat = (s.callers c).unmade k.toNat m.toNat) :
    (State.setCaller ⟨u, s.slots, s.callers⟩ c x).unmade k m = s.unmade k m := by
  rw [unmade_setCaller, hx, hu]
  exact State.ext rfl rfl (Function.update_eq_self c (s.unmade k m).callers)

/-- A bound on the indices of a class after the step was one before, if the caller itself met it. -/
theorem lt_of_setCaller {g : Caller p → Option Nat} {b : Nat}
    (h : ∀ {d i}, g ((State.setCaller ⟨u, f, s.callers⟩ c x).callers d) = some i → i < b)
    (hc : ∀ i, g (s.callers c) = some i → i < b) {d : ι} {i : Nat} (hd : g (s.callers d) = some i) :
    i < b := by
  by_cases hdc : d = c
  · rw [hdc] at hd
    exact hc i hd
  · refine h (d := d) ?_
    rwa [setCaller_callers, Function.update_of_ne hdc]

/-- What could be taken back before the step. -/
theorem Unmakes.of_setCaller (h : Unmakes (State.setCaller ⟨u, f, s.callers⟩ c x) k m)
    (hsent : s.sent ≤ k.toNat) (hrecvd : s.recvd ≤ m.toNat)
    (hsend : k.toNat ≤ s.control.nextSendIndex.toNat)
    (hrecv : m.toNat ≤ s.control.nextRecvIndex.toNat)
    (hpush : ∀ i, (s.callers c).sendGrant = some i → i < k.toNat)
    (hpop : ∀ i, (s.callers c).recvGrant = some i → i < m.toNat) : Unmakes s k m :=
  ⟨hsent, hrecvd, hsend, hrecv, lt_of_setCaller h.sendGrant_lt hpush,
    lt_of_setCaller h.recvGrant_lt hpop⟩

/-- What corresponds to the step of `s` by `a`, from `t` to `t'`: nothing, or a step of the same
caller. -/
def Matched (n : ItemCount p) (s : State p ι α) (c : ι) (a : Act α) (t t' : State p ι α) : Prop :=
  (t' = t ∧ ofGuard (s, c, a) = false) ∨
  ∃ a', Move n t c a' t' ∧ Successful (t, c, a') ∧ (ofGuard (s, c, a) = true → a' = a)

omit [DecidableEq ι] in
theorem successful_of_ne (ha : a ≠ .putBack false) (hmax : BelowMax (t, c, a)) :
    Successful (t, c, a) where
  not_full h := ha h.choose_spec.2.1
  not_empty h := ha h.choose_spec.2.1
  no_panic := hmax

/-- The same step is taken by the same caller. -/
theorem matched_same (hm : Move n t c a t') (ha : a ≠ .putBack false) (hmax : BelowMax (t, c, a)) :
    Matched n s c a t t' :=
  .inr ⟨a, hm, successful_of_ne ha hmax, fun _ => rfl⟩

/-- A waiting call that is not taken back goes round, if need be by a spurious failure. -/
theorem matched_retry (hm : Move n t c (.putBack true) t') (hwaits : ofGuard (s, c, a) = false) :
    Matched n s c a t t' :=
  .inr ⟨_, hm, successful_of_ne nofun trivial, fun h => by rw [hwaits] at h; cases h⟩

/-- A push call begins. -/
theorem unmade_claimSend (hi : Inv n s) (hpc : s.callers c = .idle)
    (hne : s.control.nextSendIndex ≠ usizeMax p) (hu : Unmakes
      ({ s with control.nextSendIndex := s.control.nextSendIndex + 1 }.setCaller c
        (.pushClaimed s.control.nextSendIndex)) k m) :
    ∃ k₀, Unmakes s k₀ m ∧ Matched n s c .tryPush (s.unmade k₀ m)
      (({ s with control.nextSendIndex := s.control.nextSendIndex + 1 }.setCaller c
        (.pushClaimed s.control.nextSendIndex)).unmade k m) := by
  have hguard : ofGuard (s, c, (.tryPush : Act α)) = false := by
    unfold ofGuard
    rw [hpc]
    rfl
  have hsucc := toNat_add_one hne
  have hle : k.toNat ≤ (s.control.nextSendIndex + 1).toNat := hu.send_le
  have hidle : ∀ k : Nat, (s.callers c).unmade k m.toNat = .idle := by
    intro k
    rw [hpc]
    rfl
  by_cases hk : k.toNat ≤ s.control.nextSendIndex.toNat
  · -- it is taken back
    refine ⟨k, hu.of_setCaller (s := s) hu.sent_le hu.recvd_le hk hu.recv_le ?_ ?_,
      .inl ⟨?_, hguard⟩⟩
    · rw [hpc]
      nofun
    · rw [hpc]
      nofun
    · refine unmade_skip rfl ?_
      rw [hidle]
      exact if_pos hk
  · obtain rfl : k = s.control.nextSendIndex + 1 := BitVec.eq_of_toNat_eq (by omega)
    refine ⟨s.control.nextSendIndex, ⟨hi.sends.le, hu.recvd_le, Nat.le_refl _, hu.recv_le,
      fun hd => (hi.sends.bounds (sendTicket_of_sendGrant hd)).2,
      lt_of_setCaller hu.recvGrant_lt ?_⟩, ?_⟩
    · rw [hpc]
      nofun
    · have hmove := Move.claimSend (n := n) (s := s.unmade s.control.nextSendIndex m) (c := c)
        (hidle _) hne
      have hstate : ({ s with control.nextSendIndex := s.control.nextSendIndex + 1 }.setCaller c
          (.pushClaimed s.control.nextSendIndex)).unmade (s.control.nextSendIndex + 1) m
          = { s.unmade s.control.nextSendIndex m with
              control.nextSendIndex := s.control.nextSendIndex + 1 }.setCaller c
            (.pushClaimed s.control.nextSendIndex) := by
        rw [unmade_setCaller]
        refine State.ext rfl rfl ?_
        have hcallers : (s.unmade (s.control.nextSendIndex + 1) m).callers
            = (s.unmade s.control.nextSendIndex m).callers := by
          funext d
          show (s.callers d).unmade _ _ = (s.callers d).unmade _ _
          rw [hsucc]
          exact unmade_succ_send fun i hd => (hi.sends.bounds (c := d) hd).2
        rw [setCaller_callers, setCaller_callers, hcallers]
        exact congrArg _ (if_neg hk)
      rw [hstate]
      exact matched_same hmove nofun hne

theorem unmade_claimRecv (hi : Inv n s) (hpc : s.callers c = .idle)
    (hne : s.control.nextRecvIndex ≠ usizeMax p) (hu : Unmakes
      ({ s with control.nextRecvIndex := s.control.nextRecvIndex + 1 }.setCaller c
        (.popClaimed s.control.nextRecvIndex)) k m) :
    ∃ m₀, Unmakes s k m₀ ∧ Matched n s c .tryPop (s.unmade k m₀)
      (({ s with control.nextRecvIndex := s.control.nextRecvIndex + 1 }.setCaller c
        (.popClaimed s.control.nextRecvIndex)).unmade k m) := by
  have hguard : ofGuard (s, c, (.tryPop : Act α)) = false := by
    unfold ofGuard
    rw [hpc]
    rfl
  have hsucc := toNat_add_one hne
  have hle : m.toNat ≤ (s.control.nextRecvIndex + 1).toNat := hu.recv_le
  have hidle : ∀ m : Nat, (s.callers c).unmade k.toNat m = .idle := by
    intro m
    rw [hpc]
    rfl
  by_cases hm : m.toNat ≤ s.control.nextRecvIndex.toNat
  · refine ⟨m, hu.of_setCaller (s := s) hu.sent_le hu.recvd_le hu.send_le hm ?_ ?_,
      .inl ⟨?_, hguard⟩⟩
    · rw [hpc]
      nofun
    · rw [hpc]
      nofun
    · refine unmade_skip rfl ?_
      rw [hidle]
      exact if_pos hm
  · obtain rfl : m = s.control.nextRecvIndex + 1 := BitVec.eq_of_toNat_eq (by omega)
    refine ⟨s.control.nextRecvIndex, ⟨hu.sent_le, hi.recvs.le, hu.send_le, Nat.le_refl _,
      lt_of_setCaller hu.sendGrant_lt ?_,
      fun hd => (hi.recvs.bounds (recvTicket_of_recvGrant hd)).2⟩, ?_⟩
    · rw [hpc]
      nofun
    · have hmove := Move.claimRecv (n := n) (s := s.unmade k s.control.nextRecvIndex) (c := c)
        (hidle _) hne
      have hstate : ({ s with control.nextRecvIndex := s.control.nextRecvIndex + 1 }.setCaller c
          (.popClaimed s.control.nextRecvIndex)).unmade k (s.control.nextRecvIndex + 1)
          = { s.unmade k s.control.nextRecvIndex with
              control.nextRecvIndex := s.control.nextRecvIndex + 1 }.setCaller c
            (.popClaimed s.control.nextRecvIndex) := by
        rw [unmade_setCaller]
        refine State.ext rfl rfl ?_
        have hcallers : (s.unmade k (s.control.nextRecvIndex + 1)).callers
            = (s.unmade k s.control.nextRecvIndex).callers := by
          funext d
          show (s.callers d).unmade _ _ = (s.callers d).unmade _ _
          rw [hsucc]
          exact unmade_succ_recv fun i hd => (hi.recvs.bounds (c := d) hd).2
        rw [setCaller_callers, setCaller_callers, hcallers]
        exact congrArg _ (if_neg hm)
      rw [hstate]
      exact matched_same hmove nofun hne

omit [DecidableEq ι] in
/-- Both stages of a waiting call are taken back, or neither is. -/
theorem unmade_push_both (k m : Nat) (i : Usize p) :
    (Caller.pushClaimed i).unmade k m = .idle ∧ (Caller.pushFull i).unmade k m = .idle ∨
      (Caller.pushClaimed i).unmade k m = .pushClaimed i ∧
      (Caller.pushFull i).unmade k m = .pushFull i :=
  (Nat.lt_or_ge i.toNat k).symm.imp (fun h => ⟨if_pos h, if_pos h⟩)
    fun h => ⟨if_neg (Nat.not_le.mpr h), if_neg (Nat.not_le.mpr h)⟩

omit [DecidableEq ι] in
theorem unmade_pop_both (k m : Nat) (i : Usize p) :
    (Caller.popClaimed i).unmade k m = .idle ∧ (Caller.popEmpty i).unmade k m = .idle ∨
      (Caller.popClaimed i).unmade k m = .popClaimed i ∧
      (Caller.popEmpty i).unmade k m = .popEmpty i :=
  (Nat.lt_or_ge i.toNat m).symm.imp (fun h => ⟨if_pos h, if_pos h⟩)
    fun h => ⟨if_neg (Nat.not_le.mpr h), if_neg (Nat.not_le.mpr h)⟩

/-- A waiting call is taken back before the step as after, or it takes the same step. -/
theorem unmade_wait {x y : Caller p} (hpc : s.callers c = x) (hsend : x.sendGrant = none)
    (hrecv : x.recvGrant = none) (hu : Unmakes (s.setCaller c y) k m)
    (hboth : x.unmade k.toNat m.toNat = .idle ∧ y.unmade k.toNat m.toNat = .idle ∨
      x.unmade k.toNat m.toNat = x ∧ y.unmade k.toNat m.toNat = y)
    (hguard : ofGuard (s, c, a) = false)
    (hstep : (s.unmade k m).callers c = x →
      Matched n s c a (s.unmade k m) ((s.unmade k m).setCaller c y)) :
    ∃ k₀ m₀, Unmakes s k₀ m₀ ∧ Matched n s c a (s.unmade k₀ m₀) ((s.setCaller c y).unmade k m) := by
  refine ⟨k, m, hu.of_setCaller hu.sent_le hu.recvd_le hu.send_le hu.recv_le ?_ ?_, ?_⟩
  · rw [hpc, hsend]
    nofun
  · rw [hpc, hrecv]
    nofun
  · rcases hboth with ⟨hx, hy⟩ | ⟨hx, hy⟩
    · refine .inl ⟨unmade_skip rfl ?_, hguard⟩
      rw [hy, hpc, hx]
    · rw [show (s.setCaller c y).unmade k m = _ from unmade_setCaller, hy]
      refine hstep ?_
      show (s.callers c).unmade _ _ = x
      rw [hpc, hx]

/-- The owner of a guard is never taken back and takes the same step. -/
theorem unmade_guard {x y : Caller p} {b : Bool} (hpc : s.callers c = x)
    (hsame : x.sendGrant = y.sendGrant ∧ x.recvGrant = y.recvGrant)
    (hu : Unmakes ({ s with control.poison := b }.setCaller c y) k m)
    (hx : x.unmade k.toNat m.toNat = x) (hy : y.unmade k.toNat m.toNat = y)
    (ha : a ≠ .putBack false) (hmax : BelowMax (s.unmade k m, c, a))
    (hstep : (s.unmade k m).callers c = x → Move n (s.unmade k m) c a
      ({ s.unmade k m with control.poison := b }.setCaller c y)) :
    ∃ k₀ m₀, Unmakes s k₀ m₀ ∧ Matched n s c a (s.unmade k₀ m₀)
      (({ s with control.poison := b }.setCaller c y).unmade k m) := by
  have hself : ({ s with control.poison := b }.setCaller c y).callers c = y := Function.update_self ..
  refine ⟨k, m, hu.of_setCaller (s := s) hu.sent_le hu.recvd_le hu.send_le hu.recv_le ?_ ?_, ?_⟩
  · intro i hi
    refine hu.sendGrant_lt (c := c) ?_
    rw [hself, ← hsame.1, ← hpc, hi]
  · intro i hi
    refine hu.recvGrant_lt (c := c) ?_
    rw [hself, ← hsame.2, ← hpc, hi]
  · have hset : ({ s with control.poison := b }.setCaller c y).unmade k m
        = { s.unmade k m with control.poison := b }.setCaller c (y.unmade k.toNat m.toNat) :=
      unmade_setCaller
    rw [hset, hy]
    refine matched_same (hstep ?_) ha hmax
    show (s.callers c).unmade _ _ = x
    rw [hpc, hx]

/-- Every step is matched. -/
theorem unmade_move (hi : Inv n s) (hmax : BelowMax (s, c, a)) (hm : Move n s c a s')
    (hu : Unmakes s' k m) :
    ∃ k₀ m₀, Unmakes s k₀ m₀ ∧ Matched n s c a (s.unmade k₀ m₀) (s'.unmade k m) := by
  have hself : ∀ (u : Ctrl p) x, (State.setCaller ⟨u, s.slots, s.callers⟩ c x).callers c = x :=
    fun _ _ => Function.update_self ..
  have hwaits : ∀ {x : Caller p}, s.callers c = x → x.guardIndex = none →
      ∀ a : Act α, ofGuard (s, c, a) = false := by
    rintro x rfl hx a
    unfold ofGuard
    rw [hx]
    rfl
  cases hm with
  | claimSend hpc hne =>
    obtain ⟨k₀, hu₀, hmatched⟩ := unmade_claimSend hi hpc hne hu
    exact ⟨k₀, m, hu₀, hmatched⟩
  | claimRecv hpc hne =>
    obtain ⟨m₀, hu₀, hmatched⟩ := unmade_claimRecv hi hpc hne hu
    exact ⟨k, m₀, hu₀, hmatched⟩
  | wrapSend _ hw => exact absurd hw hmax
  | wrapRecv _ hw => exact absurd hw hmax
  | @grantPush i hpc hclear =>
    have hlt : i.toNat < k.toNat := hu.sendGrant_lt (c := c) (by rw [hself]; rfl)
    exact unmade_wait hpc rfl rfl hu (.inr ⟨if_neg (Nat.not_le.mpr hlt), rfl⟩) (hwaits hpc rfl _)
      fun hpc' => matched_same (.grantPush hpc' hclear) nofun trivial
  | @grantPop i hpc hclear =>
    have hlt : i.toNat < m.toNat := hu.recvGrant_lt (c := c) (by rw [hself]; rfl)
    exact unmade_wait hpc rfl rfl hu (.inr ⟨if_neg (Nat.not_le.mpr hlt), rfl⟩) (hwaits hpc rfl _)
      fun hpc' => matched_same (.grantPop hpc' hclear) nofun trivial
  | @refusePush i hpc hclear =>
    exact unmade_wait hpc rfl rfl hu (unmade_push_both _ _ i) (hwaits hpc rfl _)
      fun hpc' => matched_same (.refusePush hpc' hclear) nofun trivial
  | @refusePop i hpc hclear =>
    exact unmade_wait hpc rfl rfl hu (unmade_pop_both _ _ i) (hwaits hpc rfl _)
      fun hpc' => matched_same (.refusePop hpc' hclear) nofun trivial
  | @retryPush i fails hpc =>
    -- there it may be the first to put its index back, so it has to fail spuriously
    exact unmade_wait hpc rfl rfl hu ((unmade_push_both _ _ i).imp And.symm And.symm)
      (hwaits hpc rfl _) fun hpc' => matched_retry (.retryPush hpc' nofun) (hwaits hpc rfl _)
  | @retryPop i fails hpc =>
    exact unmade_wait hpc rfl rfl hu ((unmade_pop_both _ _ i).imp And.symm And.symm)
      (hwaits hpc rfl _) fun hpc' => matched_retry (.retryPop hpc' nofun) (hwaits hpc rfl _)
  | @handBackSend i hpc hnext =>
    have hle : k.toNat ≤ i.toNat := hu.send_le
    have hlt := (hi.sends.bounds (c := c) (i := i.toNat) (by rw [hpc]; rfl)).2
    refine ⟨k, m, hu.of_setCaller (s := s) hu.sent_le hu.recvd_le (by omega) hu.recv_le ?_ ?_,
      .inl ⟨unmade_skip rfl ?_, hwaits hpc rfl _⟩⟩
    · rw [hpc]
      nofun
    · rw [hpc]
      nofun
    · rw [hpc]
      exact (if_pos hle).symm
  | @handBackRecv i hpc hnext =>
    have hle : m.toNat ≤ i.toNat := hu.recv_le
    have hlt := (hi.recvs.bounds (c := c) (i := i.toNat) (by rw [hpc]; rfl)).2
    refine ⟨k, m, hu.of_setCaller (s := s) hu.sent_le hu.recvd_le hu.send_le (by omega) ?_ ?_,
      .inl ⟨unmade_skip rfl ?_, hwaits hpc rfl _⟩⟩
    · rw [hpc]
      nofun
    · rw [hpc]
      nofun
    · rw [hpc]
      exact (if_pos hle).symm
  | @write i contents hpc =>
    refine ⟨k, m, ⟨hu.sent_le, hu.recvd_le, hu.send_le, hu.recv_le, hu.sendGrant_lt,
      hu.recvGrant_lt⟩, ?_⟩
    have hpc' : (s.unmade k m).callers c = .pushGuard i := by
      show (s.callers c).unmade _ _ = _
      rw [hpc]
      rfl
    exact matched_same (.write hpc') nofun trivial
  | @spinPush i fails hpc hno =>
    have hpc' : (s.unmade k m).callers c = .pushDropping i := by
      show (s.callers c).unmade _ _ = _
      rw [hpc]
      rfl
    exact ⟨k, m, hu, matched_same (.spinPush hpc' hno) nofun trivial⟩
  | @spinPop i fails hpc hno =>
    have hpc' : (s.unmade k m).callers c = .popDropping i := by
      show (s.callers c).unmade _ _ = _
      rw [hpc]
      rfl
    exact ⟨k, m, hu, matched_same (.spinPop hpc' hno) nofun trivial⟩
  | dropPush hpc =>
    exact unmade_guard hpc ⟨rfl, rfl⟩ hu rfl rfl nofun trivial fun hpc' => .dropPush hpc'
  | handOut hpc =>
    exact unmade_guard hpc ⟨rfl, rfl⟩ hu rfl rfl nofun trivial fun hpc' => .handOut hpc'
  | dropPop hpc =>
    exact unmade_guard hpc ⟨rfl, rfl⟩ hu rfl rfl nofun trivial fun hpc' => .dropPop hpc'
  | @publishSend i hpc hlast =>
    obtain ⟨hsent, hsucc⟩ := hi.sent_publish hpc hlast
    have hle : (i + 1).toNat ≤ k.toNat := hu.sent_le
    have hpc' : (s.unmade k m).callers c = .pushDropping i := by
      show (s.callers c).unmade _ _ = _
      rw [hpc]
      rfl
    refine ⟨k, m, hu.of_setCaller (s := s) (by omega) hu.recvd_le hu.send_le hu.recv_le ?_ ?_, ?_⟩
    · rw [hpc]
      intro j hj
      obtain rfl := Option.some.inj hj
      omega
    · rw [hpc]
      nofun
    · have hset : ({ s with control.lastSentIndex := i }.setCaller c .idle).unmade k m
          = { s.unmade k m with control.lastSentIndex := i }.setCaller c .idle := unmade_setCaller
      rw [hset]
      exact matched_same (.publishSend hpc' hlast) nofun trivial
  | @publishRecv i hpc hlast =>
    obtain ⟨hrecvd, hsucc⟩ := hi.recvd_publish hpc hlast
    have hle : (i + 1).toNat ≤ m.toNat := hu.recvd_le
    have hpc' : (s.unmade k m).callers c = .popDropping i := by
      show (s.callers c).unmade _ _ = _
      rw [hpc]
      rfl
    refine ⟨k, m, hu.of_setCaller (s := s) hu.sent_le (by omega) hu.send_le hu.recv_le ?_ ?_, ?_⟩
    · rw [hpc]
      nofun
    · rw [hpc]
      intro j hj
      obtain rfl := Option.some.inj hj
      omega
    · have hset : ({ s with control.lastRecvdIndex := i }.setCaller c .idle).unmade k m
          = { s.unmade k m with control.lastRecvdIndex := i }.setCaller c .idle := unmade_setCaller
      rw [hset]
      exact matched_same (.publishRecv hpc' hlast) nofun trivial

end Moves

section Runs

variable [DecidableEq ι] [Fintype ι] {n : ItemCount p} {h : List (Entry p ι α)} {s : State p ι α}

omit [DecidableEq ι] [Fintype ι] in
theorem guardSteps_snoc (h : List (Entry p ι α)) (e : Entry p ι α) :
    guardSteps (h ++ [e]) = guardSteps h ++ if ofGuard e = true then [e.2] else [] := by
  unfold guardSteps
  rw [List.filter_append, List.map_append, List.filter_singleton]
  cases ofGuard e <;> rfl

/-- The run without the calls that are taken back. -/
theorem unmade_of_run (hr : Run (system n ι α) h s) (hcalm : ∀ e ∈ h, Calm n e) :
    ∀ k m, Unmakes s k m → ∃ h', Run (system n ι α) h' (s.unmade k m) ∧
      (∀ e ∈ h', Successful e) ∧ guardSteps h' = guardSteps h := by
  refine hr.history (Calm n) (fun h s => ∀ k m, Unmakes s k m → ∃ h',
    Run (system n ι α) h' (s.unmade k m) ∧ (∀ e ∈ h', Successful e) ∧
      guardSteps h' = guardSteps h) ?_ ?_ hcalm
  · rintro s ⟨hctrl, hidle⟩ k m hu
    have hk : k = 0 := by
      have hle := hu.send_le
      rw [hctrl] at hle
      exact BitVec.eq_of_toNat_eq (Nat.le_zero.mp hle)
    have hm : m = 0 := by
      have hle := hu.recv_le
      rw [hctrl] at hle
      exact BitVec.eq_of_toNat_eq (Nat.le_zero.mp hle)
    refine ⟨[], .nil ⟨?_, fun c => ?_⟩, nofun, rfl⟩
    · unfold State.unmade
      rw [hctrl, hk, hm]
      rfl
    · show (s.callers c).unmade _ _ = .idle
      rw [hidle c]
      rfl
  · rintro h s ⟨c, a⟩ s' hr hcalm ih hc hs k m hu
    obtain ⟨k₀, m₀, hu₀, hmatched⟩ := unmade_move (inv_of_run hr hcalm) hc.1 (move_of_step hs) hu
    obtain ⟨h', hr', hall, hsteps⟩ := ih k₀ m₀ hu₀
    rcases hmatched with ⟨hsame, hguard⟩ | ⟨a', hm, hsucc, hact⟩
    · refine ⟨h', by rwa [hsame], hall, ?_⟩
      rw [guardSteps_snoc, if_neg (by rw [hguard]; nofun), List.append_nil, hsteps]
    · refine ⟨_, hr'.snoc (step_iff_move.mpr hm), ?_, ?_⟩
      · intro e he
        rcases List.mem_append.mp he with he | he
        · exact hall e he
        · obtain rfl := List.mem_singleton.mp he
          exact hsucc
      · have hguard : ofGuard (s.unmade k₀ m₀, c, a') = ofGuard (s, c, a) :=
          congrArg Option.isSome (guardIndex_unmade (s.callers c))
        rw [guardSteps_snoc, guardSteps_snoc, hsteps, hguard]
        by_cases hg : ofGuard (s, c, a) = true
        · rw [hact hg]
        · rw [if_neg hg, if_neg hg]

/-- Nobody panics in a calm run. -/
theorem not_panicked_of_run (hr : Run (system n ι α) h s) (hcalm : ∀ e ∈ h, Calm n e) (c : ι) :
    s.callers c ≠ .panicked := by
  refine hr.invariant_of (Calm n) (fun s => ∀ c, s.callers c ≠ .panicked) ?_ ?_ hcalm c
  · rintro s ⟨-, hidle⟩ c
    rw [hidle c]
    nofun
  · rintro s ⟨d, a⟩ s' ih ⟨hmax, -⟩ hs c
    have hm := move_of_step hs
    by_cases hd : c = d
    · subst hd
      cases hm with
      | wrapSend _ hw => exact absurd hw hmax
      | wrapRecv _ hw => exact absurd hw hmax
      | write | spinPush | spinPop => exact ih c
      | _ =>
        rw [setCaller_callers, Function.update_self]
        nofun
    · rw [callers_of_move hm hd]
      exact ih c

theorem asIfUnmade_of_run (hr : Run (system n ι α) h s) (hcalm : ∀ e ∈ h, Calm n e) :
    AsIfUnmade n h s := by
  have hi := inv_of_run hr hcalm
  have hall : Unmakes s s.control.nextSendIndex s.control.nextRecvIndex :=
    ⟨hi.sends.le, hi.recvs.le, Nat.le_refl _, Nat.le_refl _,
      fun hc => (hi.sends.bounds (sendTicket_of_sendGrant hc)).2,
      fun hc => (hi.recvs.bounds (recvTicket_of_recvGrant hc)).2⟩
  obtain ⟨h', hr', hsucc, hsteps⟩ := unmade_of_run hr hcalm _ _ hall
  have hnone : s.unmade s.control.nextSendIndex s.control.nextRecvIndex = s.recovered := by
    refine State.ext rfl rfl (funext fun c => ?_)
    show (s.callers c).unmade _ _ = if s.callers c = .panicked then .idle else s.callers c
    rw [if_neg (not_panicked_of_run hr hcalm c)]
    exact unmade_of_lt (fun _ hc => (hi.sends.bounds (c := c) hc).2)
      fun _ hc => (hi.recvs.bounds (c := c) hc).2
  rw [hnone] at hr'
  exact ⟨h', hr', hsucc, hsteps⟩

end Runs

/-! ## Publishing what is live -/

section Finishing

variable [DecidableEq ι] {n : ItemCount p} {s s' s'' : State p ι α} {c d : ι} {a : Act α}
  {k k' : List (Entry p ι α)} {i : Nat}

/-- Calls go on and guards are dropped, but no call is made. -/
structure Finishes (n : ItemCount p) (s : State p ι α) (k : List (Entry p ι α))
    (s' : State p ι α) : Prop where
  run : Run ((system n ι α).startingAt s) k s'
  only : ∀ e ∈ k, e.2.2 ≠ .tryPush ∧ e.2.2 ≠ .tryPop
  inv : Inv n s'

/-- Caller `d` alone goes on, and has not published yet. -/
structure Approaches (n : ItemCount p) (d : ι) (s : State p ι α) (k : List (Entry p ι α))
    (s' : State p ι α) : Prop extends Finishes n s k s' where
  control : s'.control = s.control
  others : ∀ c, c ≠ d → s'.callers c = s.callers c

namespace Finishes

theorem nil (hi : Inv n s) : Finishes n s [] s := ⟨.nil rfl, nofun, hi⟩

theorem append (h : Finishes n s k s') (h' : Finishes n s' k' s'') : Finishes n s (k ++ k') s'' where
  run := h.run.append h'.run
  only e he := (List.mem_append.mp he).elim (h.only e) (h'.only e)
  inv := h'.inv

/-- One more step. A check that passes in it is right to pass. -/
theorem snoc (h : Finishes n s k s') (hm : Move n s' c a s'') (ha : a ≠ .tryPush ∧ a ≠ .tryPop)
    (hpush : ∀ i, s'.callers c = .pushClaimed i → i.toNat < s'.recvd + n.toNat)
    (hpop : ∀ i, s'.callers c = .popClaimed i → i.toNat < s'.sent) :
    Finishes n s (k ++ [(s', c, a)]) s'' where
  run := h.run.snoc (step_iff_move.mpr hm)
  only e he := by
    rcases List.mem_append.mp he with he | he
    · exact h.only e he
    · obtain rfl := List.mem_singleton.mp he
      exact ha
  inv := by
    refine h.inv.move_of ?_ (fun hpc _ => hpush _ hpc) (fun hpc _ => hpop _ hpc) hm
    cases a with
    | tryPush => exact absurd rfl ha.1
    | tryPop => exact absurd rfl ha.2
    | _ => trivial

end Finishes

namespace Approaches

theorem nil (hi : Inv n s) : Approaches n d s [] s := ⟨.nil hi, rfl, fun _ _ => rfl⟩

theorem snoc (h : Approaches n d s k s') (hm : Move n s' d a s'') (ha : a ≠ .tryPush ∧ a ≠ .tryPop)
    (hpush : ∀ i, s'.callers d = .pushClaimed i → i.toNat < s'.recvd + n.toNat)
    (hpop : ∀ i, s'.callers d = .popClaimed i → i.toNat < s'.sent)
    (hctrl : s''.control = s'.control) : Approaches n d s (k ++ [(s', d, a)]) s'' where
  toFinishes := h.toFinishes.snoc hm ha hpush hpop
  control := hctrl.trans h.control
  others c hc := (callers_of_move hm hc).trans (h.others c hc)

end Approaches

/-- A push call with an index inside the window gets its guard, if it has none, and drops it. -/
theorem approach_push {j : Usize p} (hi : Inv n s) (hd : (s.callers d).sendTicket = some j.toNat)
    (hwindow : j.toNat < s.recvd + n.toNat) :
    ∃ k s', Approaches n d s k s' ∧ s'.callers d = .pushDropping j := by
  have hguard : ∀ k s', Approaches n d s k s' → s'.callers d = .pushGuard j →
      ∃ k s', Approaches n d s k s' ∧ s'.callers d = .pushDropping j := by
    intro k s' h hpc
    exact ⟨_, _, h.snoc (a := .drop false) (.dropPush hpc) ⟨nofun, nofun⟩ (by rw [hpc]; nofun)
      (by rw [hpc]; nofun) (Ctrl.ext rfl rfl rfl rfl (Bool.or_false _)), Function.update_self ..⟩
  have hclaimed : ∀ k s', Approaches n d s k s' → s'.callers d = .pushClaimed j →
      ∃ k s', Approaches n d s k s' ∧ s'.callers d = .pushDropping j := by
    intro k s' h hpc
    have hwindow' : j.toNat < s'.recvd + n.toNat := by
      unfold State.recvd at hwindow ⊢
      rwa [h.control]
    have hclear := h.inv.sendClear_of_lt (c := d) (by rw [hpc]; rfl) hwindow'
    refine hguard _ _ (h.snoc (.grantPush hpc hclear) ⟨nofun, nofun⟩ ?_ (by rw [hpc]; nofun) rfl)
      (Function.update_self ..)
    intro i hi
    obtain rfl := Caller.pushClaimed.inj (hpc.symm.trans hi)
    exact hwindow'
  obtain ⟨j', hj, hstate⟩ := sendTicket_cases hd
  obtain rfl : j' = j := BitVec.eq_of_toNat_eq hj
  rcases hstate with hpc | hpc | hpc | hpc
  · exact hclaimed _ _ (.nil hi) hpc
  · have hretry := (Approaches.nil (d := d) hi).snoc (a := .putBack true) (.retryPush hpc nofun)
      ⟨nofun, nofun⟩ (by rw [hpc]; nofun) (by rw [hpc]; nofun) rfl
    exact hclaimed _ _ hretry (Function.update_self ..)
  · exact hguard _ _ (.nil hi) hpc
  · exact ⟨_, _, .nil hi, hpc⟩

/-- The push call with the lowest index can finish. -/
theorem finish_push (hi : Inv n s) (hd : (s.callers d).sendTicket = some s.sent)
    (hroom : s.sent < s.recvd + n.toNat) :
    ∃ k s', Finishes n s k s' ∧ (∃ e ∈ k, e.2.1 = d ∧ pushes e = true) ∧
      (∀ c, c ≠ d → s'.callers c = s.callers c) ∧ s'.sent = s.sent + 1 ∧ s'.recvd = s.recvd := by
  obtain ⟨j, hj, -⟩ := sendTicket_cases hd
  rw [← hj] at hd hroom
  obtain ⟨k, s', h, hpc⟩ := approach_push hi hd hroom
  have hlast : s'.control.lastSentIndex = j - 1 := by
    have hj' : s.control.lastSentIndex + 1 = j := BitVec.eq_of_toNat_eq hj.symm
    rw [h.control, ← hj', BitVec.add_sub_cancel]
  have hm : Move n s' d (.publish false) _ := .publishSend hpc hlast
  refine ⟨_, _, h.toFinishes.snoc hm ⟨nofun, nofun⟩ (by rw [hpc]; nofun) (by rw [hpc]; nofun),
    ⟨_, List.mem_append_right _ (.head _), rfl, ?_⟩,
    fun c hc => (callers_of_move hm hc).trans (h.others c hc), ?_, ?_⟩
  · unfold pushes
    dsimp only
    rw [hpc]
    exact decide_eq_true hlast
  · show (j + 1).toNat = s.sent + 1
    rw [toNat_index_succ (hi.sends.bounds hd).2, hj]
  · show s'.recvd = s.recvd
    unfold State.recvd
    rw [h.control]

/-- A pop call with the index of an item that was sent gets its guard, if it has none, and drops
it. -/
theorem approach_pop {j : Usize p} (hi : Inv n s) (hd : (s.callers d).recvTicket = some j.toNat)
    (hitem : j.toNat < s.sent) :
    ∃ k s', Approaches n d s k s' ∧ s'.callers d = .popDropping j := by
  have hguard : ∀ k s' poisoned, Approaches n d s k s' → s'.callers d = .popGuard j poisoned →
      ∃ k s', Approaches n d s k s' ∧ s'.callers d = .popDropping j := by
    intro k s' poisoned h hpc
    exact ⟨_, _, h.snoc (a := .drop false) (.dropPop hpc) ⟨nofun, nofun⟩ (by rw [hpc]; nofun)
      (by rw [hpc]; nofun) (Ctrl.ext rfl rfl rfl rfl (Bool.or_false _)), Function.update_self ..⟩
  have hready : ∀ k s', Approaches n d s k s' → s'.callers d = .popReady j →
      ∃ k s', Approaches n d s k s' ∧ s'.callers d = .popDropping j := by
    intro k s' h hpc
    exact hguard _ _ _ (h.snoc (.handOut hpc) ⟨nofun, nofun⟩ (by rw [hpc]; nofun)
      (by rw [hpc]; nofun) rfl) (Function.update_self ..)
  have hclaimed : ∀ k s', Approaches n d s k s' → s'.callers d = .popClaimed j →
      ∃ k s', Approaches n d s k s' ∧ s'.callers d = .popDropping j := by
    intro k s' h hpc
    have hitem' : j.toNat < s'.sent := by
      unfold State.sent at hitem ⊢
      rwa [h.control]
    have hclear := h.inv.recvClear_of_lt (c := d) (by rw [hpc]; rfl) hitem'
    refine hready _ _ (h.snoc (.grantPop hpc hclear) ⟨nofun, nofun⟩ (by rw [hpc]; nofun) ?_ rfl)
      (Function.update_self ..)
    intro i hi
    obtain rfl := Caller.popClaimed.inj (hpc.symm.trans hi)
    exact hitem'
  obtain ⟨j', hj, hstate⟩ := recvTicket_cases hd
  obtain rfl : j' = j := BitVec.eq_of_toNat_eq hj
  rcases hstate with hpc | hpc | hpc | ⟨_, hpc⟩ | hpc
  · exact hclaimed _ _ (.nil hi) hpc
  · have hretry := (Approaches.nil (d := d) hi).snoc (a := .putBack true) (.retryPop hpc nofun)
      ⟨nofun, nofun⟩ (by rw [hpc]; nofun) (by rw [hpc]; nofun) rfl
    exact hclaimed _ _ hretry (Function.update_self ..)
  · exact hready _ _ (.nil hi) hpc
  · exact hguard _ _ _ (.nil hi) hpc
  · exact ⟨_, _, .nil hi, hpc⟩

theorem finish_pop (hi : Inv n s) (hd : (s.callers d).recvTicket = some s.recvd)
    (hitem : s.recvd < s.sent) :
    ∃ k s', Finishes n s k s' ∧ (∃ e ∈ k, e.2.1 = d ∧ pops e = true) ∧
      (∀ c, c ≠ d → s'.callers c = s.callers c) ∧ s'.recvd = s.recvd + 1 ∧ s'.sent = s.sent := by
  obtain ⟨j, hj, -⟩ := recvTicket_cases hd
  rw [← hj] at hd hitem
  obtain ⟨k, s', h, hpc⟩ := approach_pop hi hd hitem
  have hlast : s'.control.lastRecvdIndex = j - 1 := by
    have hj' : s.control.lastRecvdIndex + 1 = j := BitVec.eq_of_toNat_eq hj.symm
    rw [h.control, ← hj', BitVec.add_sub_cancel]
  have hm : Move n s' d (.publish false) _ := .publishRecv hpc hlast
  refine ⟨_, _, h.toFinishes.snoc hm ⟨nofun, nofun⟩ (by rw [hpc]; nofun) (by rw [hpc]; nofun),
    ⟨_, List.mem_append_right _ (.head _), rfl, ?_⟩,
    fun c hc => (callers_of_move hm hc).trans (h.others c hc), ?_, ?_⟩
  · unfold pops
    dsimp only
    rw [hpc]
    exact decide_eq_true hlast
  · show (j + 1).toNat = s.recvd + 1
    rw [toNat_index_succ (hi.recvs.bounds hd).2, hj]
  · show s'.sent = s.sent
    unfold State.sent
    rw [h.control]

/-- A push guard can publish: those below it finish first, the lowest one always being able to. -/
theorem publish_push (r : Nat) (hi : Inv n s) (hc : (s.callers c).sendGrant = some (s.sent + r)) :
    ∃ k s', Finishes n s k s' ∧ ∃ e ∈ k, e.2.1 = c ∧ pushes e = true := by
  induction r generalizing s with
  | zero =>
    obtain ⟨k, s', h, hpub, -⟩ := finish_push hi (sendTicket_of_sendGrant hc) (hi.sendGrant_lt hc)
    exact ⟨k, s', h, hpub⟩
  | succ r ih =>
    have hwindow := hi.sendGrant_lt hc
    have hbounds := hi.sends.bounds (c := c) (sendTicket_of_sendGrant hc)
    obtain ⟨d, hd⟩ := hi.sends.oldest (by omega)
    have hne : c ≠ d := by
      rintro rfl
      have hsame := Option.some.inj ((sendTicket_of_sendGrant hc).symm.trans hd)
      omega
    obtain ⟨k, s', h, -, hothers, hsent, -⟩ := finish_push hi hd (by omega)
    obtain ⟨k', s'', h', e, he, hpub⟩ := ih h.inv (by
      rw [hothers c hne, hc, hsent]
      exact congrArg some (by omega))
    exact ⟨_, _, h.append h', e, List.mem_append_right _ he, hpub⟩

theorem publish_pop (r : Nat) (hi : Inv n s) (hc : (s.callers c).recvGrant = some (s.recvd + r)) :
    ∃ k s', Finishes n s k s' ∧ ∃ e ∈ k, e.2.1 = c ∧ pops e = true := by
  induction r generalizing s with
  | zero =>
    obtain ⟨k, s', h, hpub, -⟩ := finish_pop hi (recvTicket_of_recvGrant hc) (hi.recvGrant_lt hc)
    exact ⟨k, s', h, hpub⟩
  | succ r ih =>
    have hitem := hi.recvGrant_lt hc
    have hbounds := hi.recvs.bounds (c := c) (recvTicket_of_recvGrant hc)
    obtain ⟨d, hd⟩ := hi.recvs.oldest (by omega)
    have hne : c ≠ d := by
      rintro rfl
      have hsame := Option.some.inj ((recvTicket_of_recvGrant hc).symm.trans hd)
      omega
    obtain ⟨k, s', h, -, hothers, hrecvd, -⟩ := finish_pop hi hd (by omega)
    obtain ⟨k', s'', h', e, he, hpub⟩ := ih h.inv (by
      rw [hothers c hne, hc, hrecvd]
      exact congrArg some (by omega))
    exact ⟨_, _, h.append h', e, List.mem_append_right _ he, hpub⟩

theorem publishable_of_inv (hi : Inv n s) : Publishable n s := by
  intro c i hc
  rcases grant_of_guardIndex hc with hg | hg
  · have hb := (hi.sends.bounds (c := c) (sendTicket_of_sendGrant hg)).1
    obtain ⟨k, s', h, e, he, hec, hpub⟩ := publish_push (c := c) (i.toNat - s.sent) hi (by
      rw [hg]
      exact congrArg some (by omega))
    exact ⟨k, s', h.run, h.only, e, he, hec, .inl hpub⟩
  · have hb := (hi.recvs.bounds (c := c) (recvTicket_of_recvGrant hg)).1
    obtain ⟨k, s', h, e, he, hec, hpub⟩ := publish_pop (c := c) (i.toNat - s.recvd) hi (by
      rw [hg]
      exact congrArg some (by omega))
    exact ⟨k, s', h.run, h.only, e, he, hec, .inr hpub⟩

end Finishing

/--
Calls that return no guard do no harm.

In every calm run, whatever such calls there have been, the state is one that is reached without
them, no two live guards share a slot, and every live guard can publish its index.
-/
theorem unharmed [DecidableEq ι] [Fintype ι] {n : ItemCount p} {h : List (Entry p ι α)}
    {s : State p ι α} (hr : Run (system n ι α) h s) (hcalm : ∀ e ∈ h, Calm n e) :
    Unharmed n h s where
  unmade := asIfUnmade_of_run hr hcalm
  slots := (inv_of_run hr hcalm).slotsDistinct
  publishable := publishable_of_inv (inv_of_run hr hcalm)

/-- An empty answer, then a push guard that is still live. -/
def emptyFirst : List (Fin 2 × Act Unit) := onePushed.take 5

def emptyFirstRun : List (Entry .w64 (Fin 2) Unit) × State .w64 (Fin 2) Unit :=
  ((system twoSlots (Fin 2) Unit).replay (fresh _ _ fun _ => ()) emptyFirst).getD
    ([], fresh _ _ fun _ => ())

theorem unharmed_emptyFirst :
    Run (system twoSlots (Fin 2) Unit) emptyFirstRun.1 emptyFirstRun.2 ∧
    emptyFirstRun.2.callers 1 = .pushGuard 0 ∧
    Unharmed twoSlots emptyFirstRun.1 emptyFirstRun.2 := by
  have hr : Run (system twoSlots (Fin 2) Unit) emptyFirstRun.1 emptyFirstRun.2 :=
    Run.of_replay emptyFirst (fresh_fresh fun _ => ()) rfl
  exact ⟨hr, by decide, unharmed hr (by decide)⟩

/-! ## At `usize::MAX`

Items are pushed and popped one at a time until all indices but the last are used up. The next push
call claims `usize::MAX` and panics. The one after it is given the index zero and a guard, which
would have to wait for the index `usize::MAX` to be published.
-/

/-- One item at a time, any number of items can be passed on. -/
theorem pass_on [DecidableEq ι] [Fintype ι] {n : ItemCount p} (c : ι) (slots : Nat → α) {r : Nat}
    (hr : r ≤ (usizeMax p).toNat) :
    ∃ h s, Run (system n ι α) h s ∧ Inv n s ∧ Quiet s ∧ s.sent = r ∧ s.recvd = r := by
  induction r with
  | zero =>
    have hfresh := fresh_fresh (p := p) (ι := ι) slots
    exact ⟨[], _, .nil hfresh, inv_fresh hfresh, fun _ => rfl, toNat_usizeMax_add_one,
      toNat_usizeMax_add_one⟩
  | succ r ih =>
    obtain ⟨h, s, hrun, hi, hq, hsent, hrecvd⟩ := ih (by omega)
    have hpos := n.pos
    obtain ⟨hsend, hrecv⟩ := next_of_quiet hi hq
    have hsend' : s.control.nextSendIndex.toNat = r := by rw [hsend]; exact hsent
    obtain ⟨k, s₁, hway, hq₁, hsent₁, hctrl⟩ := push_one hi hq c
      (by rw [hsent, hrecvd]; exact Nat.lt_add_of_pos_right hpos)
      fun he => by rw [he] at hsend'; omega
    have hrecvd₁ : s₁.recvd = r := by
      rw [← hrecvd]
      unfold State.recvd
      rw [hctrl]
    have hrecv₁ : s₁.control.nextRecvIndex.toNat = r := by
      rw [(next_of_quiet hway.inv hq₁).2]
      exact hrecvd₁
    obtain ⟨k', s₂, hway', hq₂, hrecvd₂, hsent₂, -⟩ := pop_one hway.inv hq₁ c (by omega)
      fun he => by rw [he] at hrecv₁; omega
    exact ⟨_, s₂, (hrun.append hway.run).append hway'.run, hway'.inv, hq₂, by omega, by omega⟩

/-- A queue of two slots on a 32-bit machine. -/
def twoSmallSlots : ItemCount .w32 := ⟨2, by decide, by decide⟩

/-- One caller has panicked. The guard of the other waits for the index `usize::MAX`. -/
structure Cut (s : State .w32 (Fin 2) Unit) : Prop where
  gone : s.callers 0 = .panicked
  waits : s.callers 1 = .pushGuard 0 ∨ s.callers 1 = .pushDropping 0
  last : s.control.lastSentIndex = usizeMax .w32 - 1

theorem cut_move {s s' : State .w32 (Fin 2) Unit} {c : Fin 2} {a : Act Unit} (h : Cut s)
    (hm : Move twoSmallSlots s c a s') : Cut s' := by
  have hc : s.callers c = .panicked ∨ s.callers c = .pushGuard 0 ∨ s.callers c = .pushDropping 0 := by
    by_cases hzero : c = 0
    · exact .inl (hzero ▸ h.gone)
    · obtain rfl : c = 1 := by omega
      exact .inr h.waits
  have hother : c = 1 → s'.callers 0 = .panicked := by
    rintro rfl
    rw [callers_of_move hm (by decide)]
    exact h.gone
  have hone : s.callers c ≠ .panicked → c = 1 := fun hno => by
    by_contra hc1
    obtain rfl : c = 0 := by omega
    exact hno h.gone
  cases hm with
  | write => exact ⟨h.gone, h.waits, h.last⟩
  | spinPush | spinPop => exact h
  | @dropPush i _ hpc =>
    obtain rfl := hone (by rw [hpc]; nofun)
    obtain rfl : i = 0 := by
      rcases h.waits with hw | hw
      · exact Caller.pushGuard.inj (hpc.symm.trans hw)
      · cases hpc.symm.trans hw
    exact ⟨hother rfl, .inr (setCaller_self ..), h.last⟩
  | @publishSend i hpc hlast =>
    obtain rfl := hone (by rw [hpc]; nofun)
    have hi : i = 0 := by
      rcases h.waits with hw | hw
      · cases hpc.symm.trans hw
      · exact Caller.pushDropping.inj (hpc.symm.trans hw)
    rw [h.last, hi] at hlast
    exact absurd hlast (by decide)
  | claimSend hpc | wrapSend hpc | grantPush hpc | refusePush hpc | handBackSend hpc | retryPush hpc
  | claimRecv hpc | wrapRecv hpc | grantPop hpc | refusePop hpc | handBackRecv hpc | retryPop hpc
  | handOut hpc | dropPop hpc | publishRecv hpc =>
    rw [hpc] at hc
    rcases hc with hc | hc | hc <;> cases hc

/-- What is cut off is never published. -/
theorem not_publishable_of_cut {s : State .w32 (Fin 2) Unit} (h : Cut s) :
    ¬ Publishable twoSmallSlots s := by
  intro hpub
  obtain ⟨i, hi⟩ : ∃ i, (s.callers 1).guardIndex = some i := by
    rcases h.waits with hw | hw <;> exact ⟨0, by rw [hw]; rfl⟩
  obtain ⟨k, s', hk, -, ⟨u, c, a⟩, he, rfl, hdone⟩ := hpub 1 i hi
  obtain ⟨pre, hpre, -, u', hs⟩ := hk.of_mem he
  have hcut : Cut u := by
    refine hpre.invariant_of (fun _ => True) Cut ?_ ?_ fun _ _ => trivial
    · rintro s rfl
      exact h
    · intro s a s' hc _ hs
      exact cut_move hc (move_of_step hs)
  unfold pushes pops at hdone
  dsimp only at hdone
  rcases hcut.waits with hw | hw <;> rw [hw, hcut.last] at hdone
  · rcases hdone with hdone | hdone <;> cases hdone
  · rcases hdone with hdone | hdone
    · split at hdone
      · next hi =>
        obtain rfl := Caller.pushDropping.inj hi
        exact absurd hdone (by decide)
      · cases hdone
    · cases hdone

/-- Two callers are no crowd. -/
theorem uncrowded_two (s : State .w32 (Fin 2) Unit) : Uncrowded twoSmallSlots s := by
  have hcard : ∀ f : Caller .w32 → Bool, census f s.callers ≤ 2 := fun f =>
    (Finset.card_le_univ _).trans_eq (Fintype.card_fin 2)
  have hpush := hcard Caller.pushing
  have hpop := hcard Caller.popping
  exact ⟨(Nat.add_le_add_right hpush _).trans (by decide), hpop.trans (by decide)⟩

/-- After the index `usize::MAX` has been claimed, a guard can be live that is never published. -/
theorem wrapped : ∃ h s, Run (system twoSmallSlots (Fin 2) Unit) h s ∧
    (∀ e ∈ h, Uncrowded twoSmallSlots e.1) ∧ ¬ Unharmed twoSmallSlots h s := by
  obtain ⟨h, s, hr, hi, hq, hsent, hrecvd⟩ := pass_on (n := twoSmallSlots) (p := .w32) (0 : Fin 2)
    (fun _ => ()) (Nat.le_refl _)
  have hnext : s.control.nextSendIndex = usizeMax .w32 := by
    rw [(next_of_quiet hi hq).1]
    exact BitVec.eq_of_toNat_eq hsent
  have hlast : s.control.lastSentIndex = usizeMax .w32 - 1 := by
    rw [← hnext, (next_of_quiet hi hq).1, BitVec.add_sub_cancel]
  have hlastRecvd : s.control.lastRecvdIndex = usizeMax .w32 - 1 := by
    have heq : s.control.lastRecvdIndex + 1 = usizeMax .w32 := BitVec.eq_of_toNat_eq hrecvd
    rw [← heq, BitVec.add_sub_cancel]
  -- the counter has gone back to zero before the call panics
  obtain ⟨s₁, hm₁, hgone, hidle, hctrl₁⟩ : ∃ s₁, Move twoSmallSlots s 0 .tryPush s₁ ∧
      s₁.callers 0 = .panicked ∧ s₁.callers 1 = .idle ∧
      s₁.control = { s.control with nextSendIndex := 0 } := by
    refine ⟨_, .wrapSend (hq 0) hnext, setCaller_self .., ?_, ?_⟩
    · exact (setCaller_of_ne _ _ _ (by decide)).trans (hq 1)
    · rw [hnext]
      rfl
  obtain ⟨s₂, hm₂, hgone₂, hclaimed, hctrl₂⟩ : ∃ s₂, Move twoSmallSlots s₁ 1 .tryPush s₂ ∧
      s₂.callers 0 = .panicked ∧ s₂.callers 1 = .pushClaimed 0 ∧
      s₂.control = { s.control with nextSendIndex := 1 } := by
    have hzero : s₁.control.nextSendIndex = 0 := by rw [hctrl₁]
    refine ⟨_, .claimSend hidle (by rw [hzero]; decide), ?_, ?_, ?_⟩
    · exact (setCaller_of_ne _ _ _ (by decide)).trans hgone
    · rw [hzero]
      exact setCaller_self ..
    · rw [hctrl₁]
      rfl
  have hclear : sendClear twoSmallSlots 0 s₂.control.lastRecvdIndex = true := by
    rw [hctrl₂, hlastRecvd]
    decide
  have hcut : Cut (s₂.setCaller 1 (.pushGuard 0)) := by
    refine ⟨(setCaller_of_ne _ _ _ (by decide)).trans hgone₂, .inl (setCaller_self ..), ?_⟩
    rw [setCaller_control, hctrl₂]
    exact hlast
  have hr₃ := ((hr.snoc (step_iff_move.mpr hm₁)).snoc (step_iff_move.mpr hm₂)).snoc
    (step_iff_move.mpr (.grantPush hclaimed hclear))
  exact ⟨_, _, hr₃, fun e _ => uncrowded_two e.1, fun hno =>
    not_publishable_of_cut hcut hno.publishable⟩

end SandboxIpc.Queue
