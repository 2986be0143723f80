import SandboxIpc.Infra.Buffer
import SandboxIpc.Shm.Queue.Fifo

/-!
# The queue is a bounded buffer

Seen from outside, a calm run of the queue is a run of `Infra.Buffer`, in which every operation is
one indivisible step: a push takes effect when the drop of its guard finishes, a pop at a moment
between its call and its return.

A pop call is sure to get its item once a call with the same or a later index has met an item that is
published: a call with an earlier index cannot put that index back any more. The pops below such an
index are *settled*, and all of them are served at once, in the order of their indices, by whichever
step settles the last of them.

* `seen` — the calls, their answers and the drops of the guards
* `Settled` — how far the pops are settled
* `State.seenAs` — the buffer the queue is
* `linearizable` — the refinement
-/

namespace SandboxIpc.Queue

open Infra

variable {p : PointerWidth} {ι α : Type}

/-- What is seen of a step. -/
def seen (n : ItemCount p) (e : Entry p ι α) : Option (Buffer.Event ι α) :=
  let control := e.1.control
  match e.1.callers e.2.1, e.2.2 with
  | .idle, .tryPush => some (.offers e.2.1)
  | .pushClaimed sendIndex, .load =>
    if sendClear n sendIndex control.lastRecvdIndex then some (.isAdmitted e.2.1) else none
  | .pushFull sendIndex, .putBack fails =>
    if fails = false ∧ control.nextSendIndex = sendIndex + 1 then some (.givesUp e.2.1) else none
  | .pushDropping sendIndex, .publish fails =>
    if fails = false ∧ control.lastSentIndex = sendIndex - 1 then
      some (.puts e.2.1 (e.1.slots (slot n sendIndex)))
    else none
  | .idle, .tryPop => some (.asks e.2.1)
  | .popEmpty recvIndex, .putBack fails =>
    if fails = false ∧ control.nextRecvIndex = recvIndex + 1 then some (.leaves e.2.1) else none
  | .popReady recvIndex, .load => some (.receives e.2.1 (e.1.slots (slot n recvIndex)))
  | .popDropping recvIndex, .publish fails =>
    if fails = false ∧ control.lastRecvdIndex = recvIndex - 1 then some (.givesBack e.2.1) else none
  | _, _ => none

/-! ## The buffer the queue is -/

/-- The client a caller is when the pops below `K` are settled. -/
def Caller.client (n : ItemCount p) (slots : Nat → α) (K : Nat) : Caller p → Buffer.Client α
  | .idle | .panicked => .idle
  | .pushClaimed _ => .offering
  | .pushFull _ => .turnedAway
  | .pushGuard _ | .pushDropping _ => .admitted
  | .popClaimed j => if j.toNat < K then .owed (slots (slot n j)) else .asking
  | .popEmpty j => if j.toNat < K then .owed (slots (slot n j)) else .unserved
  | .popReady j => .owed (slots (slot n j))
  | .popGuard j _ | .popDropping j => .holding (slots (slot n j))

/-- The buffer the queue is when the pops below `K` are settled. -/
def State.seenAs (n : ItemCount p) (s : State p ι α) (K : Nat) : Buffer ι α where
  waiting := (List.range' K (s.sent - K)).map fun j => s.slots (j % n.toNat)
  held := K - s.recvd
  clients c := (s.callers c).client n s.slots K

/-- The pops below `K` are settled, and no others. -/
structure Settled (s : State p ι α) (K : Nat) : Prop where
  recvd_le : s.recvd ≤ K
  le_sent : K ≤ s.sent
  le_next : K ≤ s.control.nextRecvIndex.toNat
  granted : ∀ {c j}, (s.callers c).recvGrant = some j → j < K
  claimed : ∀ {c j}, s.callers c = .popClaimed j → j.toNat < s.sent → j.toNat < K
  /-- The last of them is not about to put its index back. -/
  last : ∀ {c j}, s.callers c = .popEmpty j → j.toNat + 1 ≠ K

section SeenAs

variable {n : ItemCount p} {s s' : State p ι α} {c : ι} {K : Nat} {x : Caller p}

@[simp] theorem seenAs_waiting_length : (s.seenAs n K).waiting.length = s.sent - K := by
  simp [State.seenAs]

@[simp] theorem seenAs_held : (s.seenAs n K).held = K - s.recvd := rfl

@[simp] theorem seenAs_clients : (s.seenAs n K).clients c = (s.callers c).client n s.slots K := rfl

variable [DecidableEq ι]

/-- A caller moves, and nothing else changes that the buffer has. -/
theorem seenAs_move (hsent : s'.sent = s.sent) (hrecvd : s'.recvd = s.recvd)
    (hslots : s'.slots = s.slots) (hcallers : s'.callers = Function.update s.callers c x) :
    s'.seenAs n K = (s.seenAs n K).move c (x.client n s.slots K) := by
  ext1
  · simp only [State.seenAs, Buffer.move_waiting, hsent, hslots]
  · simp only [State.seenAs, Buffer.move_held, hrecvd]
  · funext d
    by_cases hd : d = c
    · subst hd; simp [hcallers, hslots]
    · simp [hcallers, hslots, hd]

/-- A caller moves and stays the same client. -/
theorem seenAs_stay (hsent : s'.sent = s.sent) (hrecvd : s'.recvd = s.recvd)
    (hslots : s'.slots = s.slots) (hcallers : s'.callers = Function.update s.callers c x)
    (hx : x.client n s.slots K = (s.callers c).client n s.slots K) :
    s'.seenAs n K = s.seenAs n K := by
  rw [seenAs_move hsent hrecvd hslots hcallers, hx, ← seenAs_clients, Buffer.move_self]

end SeenAs

/-! ## Serving the calls that are settled -/

/-- Settling the index `K` changes nothing for a caller with another index. -/
theorem client_succ {n : ItemCount p} {slots : Nat → α} {K : Nat} {x : Caller p}
    (h : x.recvTicket ≠ some K) : x.client n slots (K + 1) = x.client n slots K := by
  cases x with
  | popClaimed j | popEmpty j =>
    have hj : j.toNat ≠ K := fun hj => h (by rw [← hj]; rfl)
    have hiff : j.toNat < K + 1 ↔ j.toNat < K := by omega
    simp only [Caller.client, hiff]
  | _ => rfl

section Serving

variable [DecidableEq ι] [Fintype ι] {n : ItemCount p} {s : State p ι α} {K K' : Nat}

/-- The buffer serves the call with the index `K`. -/
theorem Inv.goes_succ (hi : Inv n s) (hrecvd : s.recvd ≤ K) (hsent : K < s.sent)
    (hnext : K < s.control.nextRecvIndex.toNat)
    (hgrant : ∀ {c j}, (s.callers c).recvGrant = some j → j < K) :
    (Buffer.system n.toNat ι α).Goes Buffer.see (s.seenAs n K) [] (s.seenAs n (K + 1)) := by
  obtain ⟨d, hd⟩ := hi.recvs.cover hrecvd hnext
  have hpop : (s.callers d).popping = true :=
    (recvGrant_or_popping hd).resolve_left fun hg => absurd (hgrant hg) (Nat.lt_irrefl K)
  have howed : (s.callers d).client n s.slots (K + 1) = .owed (s.slots (K % n.toNat)) ∧
      ((s.callers d).client n s.slots K).asks = true := by
    cases hpc : s.callers d with
    | popClaimed j | popEmpty j =>
      obtain rfl : j.toNat = K := by simpa [hpc, Caller.recvTicket] using hd
      simp [Caller.client, Buffer.Client.asks, slot_eq]
    | _ => simp [hpc, Caller.popping] at hpop
  have hwaiting : (s.seenAs n K).waiting
      = s.slots (K % n.toNat) :: (s.seenAs n (K + 1)).waiting := by
    simp only [State.seenAs]
    rw [show s.sent - K = (s.sent - (K + 1)) + 1 by omega, List.range'_succ, List.map_cons]
  convert Buffer.goes_served n.toNat hwaiting howed.2 using 1
  ext1
  · rfl
  · simp only [Buffer.move_held, seenAs_held]
    omega
  · funext e
    by_cases he : e = d
    · subst he; simp [howed.1]
    · have hne : (s.callers e).recvTicket ≠ some K := fun h => he (hi.recvs.inj h hd)
      simp [he, client_succ hne]

/-- The buffer serves all calls with an index from `K` up to `K'`, one after the other. -/
theorem Inv.goes_up (hi : Inv n s) (hrecvd : s.recvd ≤ K) (hle : K ≤ K') (hsent : K' ≤ s.sent)
    (hnext : K' ≤ s.control.nextRecvIndex.toNat)
    (hgrant : ∀ {c j}, (s.callers c).recvGrant = some j → j < K) :
    (Buffer.system n.toNat ι α).Goes Buffer.see (s.seenAs n K) [] (s.seenAs n K') := by
  induction K', hle using Nat.le_induction with
  | base => exact .refl _
  | succ k hk ih =>
    exact (ih (by omega) (by omega)).trans (hi.goes_succ (by omega) (by omega) (by omega)
      fun hc => Nat.lt_of_lt_of_le (hgrant hc) hk)

end Serving

/-! ## What a step does to the settled pops -/

section Steps

variable [DecidableEq ι] {n : ItemCount p} {s s' : State p ι α} {c : ι} {a : Act α} {K K' : Nat}
  {x : Caller p}

/-- A caller moves and the items published stay the same: what remains to be shown. -/
theorem Settled.update (h : Settled s K) (hcallers : s'.callers = Function.update s.callers c x)
    (hsent : s'.sent = s.sent) (hrecvd : s'.recvd ≤ K) (hnext : K ≤ s'.control.nextRecvIndex.toNat)
    (hgrant : ∀ {j}, x.recvGrant = some j → j < K)
    (hclaimed : ∀ {j}, x = .popClaimed j → j.toNat < s.sent → j.toNat < K)
    (hlast : ∀ {j}, x = .popEmpty j → j.toNat + 1 ≠ K) : Settled s' K where
  recvd_le := hrecvd
  le_sent := hsent ▸ h.le_sent
  le_next := hnext
  granted {d j} hd := by
    rw [hcallers] at hd
    by_cases hdc : d = c
    · subst hdc; exact hgrant (by simpa using hd)
    · exact h.granted (by simpa [hdc] using hd)
  claimed {d j} hd hj := by
    rw [hcallers] at hd
    by_cases hdc : d = c
    · subst hdc; exact hclaimed (by simpa using hd) (hsent ▸ hj)
    · exact h.claimed (by simpa [hdc] using hd) (hsent ▸ hj)
  last {d j} hd := by
    rw [hcallers] at hd
    by_cases hdc : d = c
    · subst hdc; exact hlast (by simpa using hd)
    · exact h.last (by simpa [hdc] using hd)

/-- A caller that has nothing to do with pops moves. -/
theorem Settled.push (h : Settled s K) (hcallers : s'.callers = Function.update s.callers c x)
    (hsent : s'.sent = s.sent) (hrecvd : s'.recvd = s.recvd)
    (hnext : s'.control.nextRecvIndex = s.control.nextRecvIndex) (hx : x.recvTicket = none) :
    Settled s' K := by
  refine h.update hcallers hsent (hrecvd ▸ h.recvd_le) (hnext ▸ h.le_next) (fun hj => ?_) ?_ ?_
  · rw [recvTicket_of_recvGrant hj] at hx
    cases hx
  · rintro j rfl
    cases hx
  · rintro j rfl
    cases hx

variable [Fintype ι]

/-- The step from `s` to `s'` is matched by the buffer. -/
def Mirrored (n : ItemCount p) (s s' : State p ι α) (K : Nat) (e : ι × Act α) : Prop :=
  ∃ K', Settled s' K' ∧
    (Buffer.system n.toNat ι α).Goes Buffer.see (s.seenAs n K) (seen n (s, e)).toList
      (s'.seenAs n K')

/-- The buffer does nothing. -/
theorem Mirrored.stay (h : Settled s' K) (hseen : seen n (s, c, a) = none)
    (heq : s'.seenAs n K = s.seenAs n K) : Mirrored n s s' K (c, a) := by
  refine ⟨K, h, ?_⟩
  rw [hseen, heq]
  exact .refl _

/-- The buffer does one operation. -/
theorem Mirrored.op (h : Settled s' K) {o : Buffer.Op α}
    (hop : Buffer.step n.toNat (s.seenAs n K) (c, o) = some (s'.seenAs n K))
    (hsee : Buffer.see (s.seenAs n K, c, o) = seen n (s, c, a)) : Mirrored n s s' K (c, a) := by
  refine ⟨K, h, ?_⟩
  rw [← hsee]
  exact .step hop

/-- One that only moves the client. -/
theorem Mirrored.move (h : Settled s' K) {o : Buffer.Op α} (hsent : s'.sent = s.sent)
    (hrecvd : s'.recvd = s.recvd) (hslots : s'.slots = s.slots)
    (hcallers : s'.callers = Function.update s.callers c x)
    (hop : Buffer.step n.toNat (s.seenAs n K) (c, o)
      = some ((s.seenAs n K).move c (x.client n s.slots K)))
    (hsee : Buffer.see (s.seenAs n K, c, o) = seen n (s, c, a)) : Mirrored n s s' K (c, a) :=
  .op h (by rw [hop, seenAs_move hsent hrecvd hslots hcallers]) hsee

/-- The buffer does one operation, and then serves the pops from `K` up to `K'`. -/
theorem Mirrored.opServe (h : Settled s' K') (hi : Inv n s') {o : Buffer.Op α}
    (hop : Buffer.step n.toNat (s.seenAs n K) (c, o) = some (s'.seenAs n K))
    (hsee : Buffer.see (s.seenAs n K, c, o) = seen n (s, c, a)) (hle : K ≤ K')
    (hrecvd : s'.recvd ≤ K) (hgrant : ∀ {c j}, (s'.callers c).recvGrant = some j → j < K) :
    Mirrored n s s' K (c, a) := by
  refine ⟨K', h, ?_⟩
  rw [← hsee]
  have hone : (Buffer.system n.toNat ι α).Goes Buffer.see (s.seenAs n K)
      (Buffer.see (s.seenAs n K, c, o)).toList (s'.seenAs n K) := .step hop
  simpa using hone.trans (hi.goes_up hrecvd hle h.le_sent h.le_next hgrant)

/-! ## Pushes -/

theorem Settled.claimSend (h : Settled s K) (hpc : s.callers c = .idle) :
    Mirrored n s ({ s with control.nextSendIndex := s.control.nextSendIndex + 1 }.setCaller c
      (.pushClaimed s.control.nextSendIndex)) K (c, .tryPush) := by
  refine .move (o := .offer) (h.push rfl rfl rfl rfl rfl) rfl rfl rfl rfl ?_ ?_
  · simp [Buffer.step, hpc, Caller.client]
  · simp [Buffer.see, seen, hpc]

omit [DecidableEq ι] in
/-- Callers that were granted a push have different indices of the window. -/
theorem Inv.admitted_le (hi : Inv n s) :
    census Buffer.Client.isAdmitted (s.seenAs n K).clients ≤ s.recvd + n.toNat - s.sent := by
  refine hi.sends.card_le_sub (fun c => ((s.seenAs n K).clients c).isAdmitted) fun {c} hc => ?_
  have hgrant : ∃ i, (s.callers c).sendGrant = some i := by
    cases hpc : s.callers c with
    | pushGuard i | pushDropping i => exact ⟨i.toNat, rfl⟩
    | popClaimed j | popEmpty j =>
      simp only [seenAs_clients, hpc, Caller.client] at hc
      split at hc <;> cases hc
    | _ => simp [hpc, Caller.client, Buffer.Client.isAdmitted] at hc
  obtain ⟨i, hi'⟩ := hgrant
  exact ⟨i, sendTicket_of_sendGrant hi', hi.sendGrant_bounds hi'⟩

theorem Settled.grantPush (h : Settled s K) {i : Usize p}
    (hi' : Inv n (s.setCaller c (.pushGuard i))) (hpc : s.callers c = .pushClaimed i)
    (hclear : sendClear n i s.control.lastRecvdIndex = true) :
    Mirrored n s (s.setCaller c (.pushGuard i)) K (c, .load) := by
  have hmove : (s.setCaller c (.pushGuard i)).seenAs n K = (s.seenAs n K).move c .admitted :=
    seenAs_move (x := .pushGuard i) rfl rfl rfl rfl
  refine .op (o := .letIn) (h.push rfl rfl rfl rfl rfl) ?_ ?_
  · -- after the step it is one of those that were granted a push
    have hafter := hi'.admitted_le (K := K)
    have hcensus := census_update Buffer.Client.isAdmitted (s.seenAs n K).clients c .admitted
    rw [hmove] at hafter
    simp only [Buffer.move_clients] at hafter
    simp only [seenAs_clients, hpc, Caller.client, Buffer.Client.isAdmitted, Bool.toNat_false,
      Bool.toNat_true] at hcensus
    have hrecvd := h.recvd_le
    have hsent := h.le_sent
    have hroom : s.sent - K + (K - s.recvd)
        + census Buffer.Client.isAdmitted (s.seenAs n K).clients < n.toNat := by
      change _ ≤ s.recvd + n.toNat - s.sent at hafter
      omega
    rw [hmove]
    simp [Buffer.step, hpc, Caller.client, hroom]
  · simp [Buffer.see, seen, hpc, hclear]

theorem Settled.refusePush (h : Settled s K) (hi : Inv n s) (hu : Uncrowded n s) {i : Usize p}
    (hpc : s.callers c = .pushClaimed i)
    (hfull : sendClear n i s.control.lastRecvdIndex = false) :
    Mirrored n s (s.setCaller c (.pushFull i)) K (c, .load) := by
  refine .move (o := .turnAway) (h.push rfl rfl rfl rfl rfl) rfl rfl rfl rfl ?_ ?_
  · -- all indices up to `i` belong to callers that offer
    have hbeyond : ¬ i.toNat < s.recvd + n.toNat := fun hlt => by
      rw [(hi.sendClear_iff hu hpc).mpr hlt] at hfull
      cases hfull
    have hlast := (hi.sends.bounds (c := c) (i := i.toNat) (by simp [hpc, Caller.sendTicket])).2
    have hoffers := hi.sends.sub_le_card (Nat.le_refl _)
      (fun c => ((s.seenAs n K).clients c).offers) fun {d j} hd _ => by
        cases hpd : s.callers d <;>
          simp_all [Caller.sendTicket, Caller.client, Buffer.Client.offers]
    have hrecvd := h.recvd_le
    have hsent := h.le_sent
    have hroom : n.toNat < s.sent - K + (K - s.recvd)
        + census Buffer.Client.offers (s.seenAs n K).clients := by
      unfold census
      omega
    simp [Buffer.step, hpc, Caller.client, hroom]
  · simp [Buffer.see, seen, hpc, hfull]

theorem Settled.handBackSend (h : Settled s K) {i : Usize p} (hpc : s.callers c = .pushFull i)
    (hnext : s.control.nextSendIndex = i + 1) :
    Mirrored n s ({ s with control.nextSendIndex := i }.setCaller c .idle) K
      (c, .putBack false) := by
  refine .move (o := .giveUp) (h.push rfl rfl rfl rfl rfl) rfl rfl rfl rfl ?_ ?_
  · simp [Buffer.step, hpc, Caller.client]
  · simp [Buffer.see, seen, hpc, hnext]

theorem Settled.retryPush (h : Settled s K) {i : Usize p} {fails : Bool}
    (hpc : s.callers c = .pushFull i)
    (hno : ¬ (fails = false ∧ s.control.nextSendIndex = i + 1)) :
    Mirrored n s (s.setCaller c (.pushClaimed i)) K (c, .putBack fails) := by
  refine .move (o := .offerAgain) (h.push rfl rfl rfl rfl rfl) rfl rfl rfl rfl ?_ ?_
  · simp [Buffer.step, hpc, Caller.client]
  · simp only [Buffer.see, seen, hpc, if_neg hno]

omit [Fintype ι] in
/-- Who is not idle after a caller became idle is another caller, and has not moved. -/
theorem callers_of_idle {y : Caller p} {d : ι}
    (h : Function.update s.callers c .idle d = y) (hy : y ≠ .idle) : s.callers d = y := by
  by_cases hd : d = c
  · subst hd
    rw [Function.update_self] at h
    exact absurd h.symm hy
  · rwa [Function.update_of_ne hd] at h

/-- An item is published. It settles the pop that has its index and has not yet found the queue
empty, if there is one. -/
theorem Settled.publishSend (h : Settled s K) (hi : Inv n s) {i : Usize p}
    (hpc : s.callers c = .pushDropping i) (hlast : s.control.lastSentIndex = i - 1)
    (hi' : Inv n ({ s with control.lastSentIndex := i }.setCaller c .idle)) :
    Mirrored n s ({ s with control.lastSentIndex := i }.setCaller c .idle) K
      (c, .publish false) := by
  obtain ⟨hsent, hsucc⟩ := hi.sent_publish hpc hlast
  have hle := h.le_sent
  set s' := { s with control.lastSentIndex := i }.setCaller c .idle with hs'
  have hsent' : s'.sent = s.sent + 1 := by rw [hsent]; exact hsucc
  have hold : ∀ {d y}, s'.callers d = y → y ≠ .idle → s.callers d = y := callers_of_idle
  have hgranted : ∀ {d j}, (s'.callers d).recvGrant = some j → j < K := fun {d j} hd => by
    refine h.granted (c := d) ?_
    rw [hold rfl fun hidle => by rw [hidle] at hd; cases hd]
    exact hd
  have hop : Buffer.step n.toNat (s.seenAs n K) (c, .put (s.slots (slot n i)))
      = some (s'.seenAs n K) := by
    simp only [Buffer.step, seenAs_clients, hpc, Caller.client]
    refine congrArg some ?_
    ext1
    · simp only [Buffer.move_waiting, State.seenAs, hsent']
      rw [show s.sent + 1 - K = (s.sent - K) + 1 by omega, List.range'_1_concat, List.map_append,
        show K + (s.sent - K) = i.toNat by omega, slot_eq]
      rfl
    · rfl
    · funext d
      by_cases hd : d = c
      · subst hd; simp [hs', Caller.client]
      · simp [hs', hd]
  have hsee : Buffer.see (s.seenAs n K, c, .put (s.slots (slot n i)))
      = seen n (s, c, .publish false) := by
    simp [Buffer.see, seen, hpc, hlast]
  by_cases hex : ∃ d j, s.callers d = .popClaimed j ∧ j.toNat = s.sent
  · obtain ⟨d, j, hd, hj⟩ := hex
    have hticket : (s.callers d).recvTicket = some s.sent := by
      simp [hd, Caller.recvTicket, hj]
    have hnext := (hi.recvs.bounds hticket).2
    have hsettled : Settled s' (s.sent + 1) := by
      refine ⟨?_, hsent'.ge, hnext, ?_, ?_, ?_⟩
      · exact Nat.le_trans h.recvd_le (by omega)
      · intro e k he
        exact Nat.lt_of_lt_of_le (hgranted he) (by omega)
      · intro e k _ hk
        omega
      · -- the pop with the index just published has not found the queue empty
        intro e k he hk
        have hempty := hold he (by simp)
        have hke : k.toNat = s.sent := by omega
        have heq := hi.recvs.inj (c := e) (by simp [hempty, Caller.recvTicket, hke]) hticket
        rw [heq, hd] at hempty
        cases hempty
    exact .opServe hsettled hi' hop hsee (by omega) h.recvd_le hgranted
  · refine .op ⟨h.recvd_le, by omega, h.le_next, hgranted, ?_, ?_⟩ hop hsee
    · intro e k he hk
      have hclaimed := hold he (by simp)
      refine h.claimed hclaimed (Nat.lt_of_le_of_ne (by omega) fun hke => ?_)
      exact hex ⟨e, k, hclaimed, hke⟩
    · intro e k he
      exact h.last (hold he (by simp))

/-! ## Pops -/

omit [DecidableEq ι] [Fintype ι] in
/-- Pops that are not settled ask. -/
theorem Settled.asks (h : Settled s K) {j : Nat} (hc : (s.callers c).recvTicket = some j)
    (hj : K ≤ j) : ((s.seenAs n K).clients c).asks = true := by
  rcases recvGrant_or_popping hc with hg | hpop
  · have := h.granted hg
    omega
  · cases hpc : s.callers c with
    | popClaimed i | popEmpty i =>
      obtain rfl : i.toNat = j := by simpa [hpc, Caller.recvTicket] using hc
      have hno : ¬ i.toNat < K := by omega
      simp [hpc, Caller.client, hno, Buffer.Client.asks]
    | _ => simp [hpc, Caller.popping] at hpop

omit [Fintype ι] in
/-- A call that looks at an item that is published settles its own pop and all before it. -/
theorem Settled.settle (h : Settled s K) (hi' : Inv n s') {j : Usize p}
    (hsent : s'.sent = s.sent) (hrecvd : s'.recvd = s.recvd)
    (hcallers : s'.callers = Function.update s.callers c (.popClaimed j))
    (hnext : j.toNat < s'.control.nextRecvIndex.toNat) (hle : K ≤ j.toNat)
    (hlt : j.toNat < s.sent) : Settled s' (j.toNat + 1) := by
  have hc : s'.callers c = .popClaimed j := by rw [hcallers, Function.update_self]
  have hold : ∀ {d}, d ≠ c → s'.callers d = s.callers d := fun hd => by
    rw [hcallers, Function.update_of_ne hd]
  refine ⟨?_, hsent ▸ hlt, hnext, fun {d k} hd => ?_, fun {d k} hd hk => ?_, fun {d k} hd hk => ?_⟩
  · have := h.recvd_le
    omega
  · have hdc : d ≠ c := by
      rintro rfl
      rw [hc] at hd
      cases hd
    rw [hold hdc] at hd
    exact Nat.lt_succ_of_lt (Nat.lt_of_lt_of_le (h.granted hd) hle)
  · by_cases hdc : d = c
    · subst hdc
      obtain rfl : j = k := by simpa [hc] using hd
      exact Nat.lt_succ_self _
    · rw [hold hdc] at hd
      exact Nat.lt_succ_of_lt (Nat.lt_of_lt_of_le (h.claimed hd (hsent ▸ hk)) hle)
  · have hkj : k.toNat = j.toNat := by omega
    have heq := hi'.recvs.inj (c := d) (i := j.toNat)
      (by simp [hd, Caller.recvTicket, hkj]) (by rw [hc]; rfl : (s'.callers c).recvTicket = _)
    rw [heq, hc] at hd
    cases hd

/-- A call begins, or begins again, with an index that is not settled. -/
theorem Settled.claims (h : Settled s K) (hi' : Inv n s') {j : Usize p} {o : Buffer.Op α}
    (hsent : s'.sent = s.sent) (hrecvd : s'.recvd = s.recvd) (hslots : s'.slots = s.slots)
    (hcallers : s'.callers = Function.update s.callers c (.popClaimed j))
    (hnext : j.toNat < s'.control.nextRecvIndex.toNat) (hle : K ≤ j.toNat)
    (hop : Buffer.step n.toNat (s.seenAs n K) (c, o) = some ((s.seenAs n K).move c .asking))
    (hsee : Buffer.see (s.seenAs n K, c, o) = seen n (s, c, a)) : Mirrored n s s' K (c, a) := by
  have hclient : (Caller.popClaimed j).client n s.slots K = .asking := by
    simp only [Caller.client, if_neg (Nat.not_lt.mpr hle)]
  have hop' : Buffer.step n.toNat (s.seenAs n K) (c, o) = some (s'.seenAs n K) := by
    rw [hop, seenAs_move hsent hrecvd hslots hcallers, hclient]
  by_cases hlt : j.toNat < s.sent
  · refine .opServe (h.settle hi' hsent hrecvd hcallers hnext hle hlt) hi' hop' hsee (by omega)
      (hrecvd ▸ h.recvd_le) fun {d k} hd => ?_
    have hdc : d ≠ c := by
      rintro rfl
      rw [hcallers, Function.update_self] at hd
      cases hd
    rw [hcallers, Function.update_of_ne hdc] at hd
    exact h.granted hd
  · refine .op (h.update hcallers hsent (hrecvd ▸ h.recvd_le) (by omega) (by rintro k ⟨⟩) ?_
      (by rintro k ⟨⟩)) hop' hsee
    rintro k ⟨⟩ hk
    exact absurd hk hlt

theorem Settled.claimRecv (h : Settled s K) (hpc : s.callers c = .idle)
    (hne : s.control.nextRecvIndex ≠ usizeMax p)
    (hi' : Inv n ({ s with control.nextRecvIndex := s.control.nextRecvIndex + 1 }.setCaller c
      (.popClaimed s.control.nextRecvIndex))) :
    Mirrored n s ({ s with control.nextRecvIndex := s.control.nextRecvIndex + 1 }.setCaller c
      (.popClaimed s.control.nextRecvIndex)) K (c, .tryPop) := by
  refine h.claims (o := .ask) hi' rfl rfl rfl rfl ?_ h.le_next ?_ ?_
  · exact Nat.lt_of_lt_of_eq (Nat.lt_succ_self _) (toNat_succ p.bits_pos hne).symm
  · simp [Buffer.step, hpc, Caller.client]
  · simp [Buffer.see, seen, hpc]

theorem Settled.retryPop (h : Settled s K) (hi : Inv n s) {j : Usize p} {fails : Bool}
    (hpc : s.callers c = .popEmpty j)
    (hno : ¬ (fails = false ∧ s.control.nextRecvIndex = j + 1))
    (hi' : Inv n (s.setCaller c (.popClaimed j))) :
    Mirrored n s (s.setCaller c (.popClaimed j)) K (c, .putBack fails) := by
  have hnext := (hi.recvs.bounds (c := c) (i := j.toNat) (by simp [hpc, Caller.recvTicket])).2
  have hseen : seen n (s, c, .putBack fails) = none := by simp only [seen, hpc, if_neg hno]
  by_cases hlt : j.toNat < K
  · -- it has been served already, and will find its item
    refine .stay (h.update rfl rfl h.recvd_le h.le_next (by rintro k ⟨⟩) ?_ (by rintro k ⟨⟩))
      hseen (seenAs_stay rfl rfl rfl rfl ?_)
    · rintro k ⟨⟩ _
      exact hlt
    · simp only [Caller.client, hpc, if_pos hlt]
  · refine h.claims (o := .askAgain) hi' rfl rfl rfl rfl hnext (by omega) ?_ ?_
    · simp [Buffer.step, hpc, Caller.client, hlt]
    · rw [hseen]
      rfl

theorem Settled.grantPop (h : Settled s K) (hi : Inv n s) (hu : Uncrowded n s) {j : Usize p}
    (hpc : s.callers c = .popClaimed j) (hclear : recvClear j s.control.lastSentIndex = true) :
    Mirrored n s (s.setCaller c (.popReady j)) K (c, .load) := by
  have hlt : j.toNat < K := h.claimed hpc ((hi.recvClear_iff hu hpc).mp hclear)
  refine .stay (h.update rfl rfl h.recvd_le h.le_next ?_ (by rintro k ⟨⟩) (by rintro k ⟨⟩))
    (by simp [seen, hpc]) (seenAs_stay rfl rfl rfl rfl ?_)
  · intro k hk
    obtain rfl : j.toNat = k := by simpa [Caller.recvGrant] using hk
    exact hlt
  · simp only [Caller.client, hpc, if_pos hlt]

theorem Settled.refusePop (h : Settled s K) (hi : Inv n s) (hu : Uncrowded n s) {j : Usize p}
    (hpc : s.callers c = .popClaimed j) (hempty : recvClear j s.control.lastSentIndex = false) :
    Mirrored n s (s.setCaller c (.popEmpty j)) K (c, .load) := by
  have hge : ¬ j.toNat < s.sent := fun hlt => by
    rw [(hi.recvClear_iff hu hpc).mpr hlt] at hempty
    cases hempty
  have hsent := h.le_sent
  have hno : ¬ j.toNat < K := by omega
  refine .move (o := .refuse) (h.update rfl rfl h.recvd_le h.le_next (by rintro k ⟨⟩)
    (by rintro k ⟨⟩) ?_) rfl rfl rfl rfl ?_ ?_
  · rintro k ⟨⟩
    omega
  · -- the indices of all items that wait belong to calls that ask
    have hlast := (hi.recvs.bounds (c := c) (i := j.toNat) (by simp [hpc, Caller.recvTicket])).2
    have hasks := hi.recvs.sub_le_card h.recvd_le
      (fun c => ((s.seenAs n K).clients c).asks) fun {d k} hd hk => h.asks hd hk
    have hfew : s.sent - K < census Buffer.Client.asks (s.seenAs n K).clients := by
      unfold census
      omega
    simp [Buffer.step, hpc, Caller.client, hno, hfew]
  · simp [Buffer.see, seen, hpc]

/-- Only an index that is not settled is put back. -/
theorem Settled.handBackRecv (h : Settled s K) (hi : Inv n s) {j : Usize p}
    (hpc : s.callers c = .popEmpty j) (hnext : s.control.nextRecvIndex = j + 1) :
    Mirrored n s ({ s with control.nextRecvIndex := j }.setCaller c .idle) K
      (c, .putBack false) := by
  have hbound := (hi.recvs.bounds (c := c) (i := j.toNat) (by simp [hpc, Caller.recvTicket])).2
  have hle : K ≤ j.toNat := by
    have hlast := h.last hpc
    have hK := h.le_next
    rw [hnext, toNat_index_succ hbound] at hK
    omega
  refine .move (o := .leave) (h.update rfl rfl h.recvd_le hle (by rintro k ⟨⟩)
    (by rintro k ⟨⟩) (by rintro k ⟨⟩)) rfl rfl rfl rfl ?_ ?_
  · simp [Buffer.step, hpc, Caller.client, Nat.not_lt.mpr hle]
  · simp [Buffer.see, seen, hpc, hnext]

theorem Settled.handOut (h : Settled s K) {j : Usize p} (hpc : s.callers c = .popReady j) :
    Mirrored n s (s.setCaller c (.popGuard j s.control.poison)) K (c, .load) := by
  refine .move (o := .receive) (h.update rfl rfl h.recvd_le h.le_next ?_ (by rintro k ⟨⟩)
    (by rintro k ⟨⟩)) rfl rfl rfl rfl ?_ ?_
  · intro k hk
    exact h.granted (c := c) (by simpa [hpc, Caller.recvGrant] using hk)
  · simp [Buffer.step, hpc, Caller.client]
  · simp [Buffer.see, seen, hpc, Caller.client]

/-- The slot of an item that was received is free again. -/
theorem Settled.publishRecv (h : Settled s K) (hi : Inv n s) {j : Usize p}
    (hpc : s.callers c = .popDropping j) (hlast : s.control.lastRecvdIndex = j - 1) :
    Mirrored n s ({ s with control.lastRecvdIndex := j }.setCaller c .idle) K
      (c, .publish false) := by
  obtain ⟨hrecvd, hsucc⟩ := hi.recvd_publish hpc hlast
  have hlt : j.toNat < K := h.granted (c := c) (by simp [hpc, Caller.recvGrant])
  set s' := { s with control.lastRecvdIndex := j }.setCaller c .idle with hs'
  have hrecvd' : s'.recvd = j.toNat + 1 := hsucc
  refine .op (o := .giveBack) (h.update rfl rfl (by omega) h.le_next (by rintro k ⟨⟩)
    (by rintro k ⟨⟩) (by rintro k ⟨⟩)) ?_ ?_
  · simp only [Buffer.step, seenAs_clients, hpc, Caller.client]
    refine congrArg some ?_
    ext1
    · rfl
    · simp only [Buffer.move_held, seenAs_held, hrecvd']
      omega
    · funext d
      by_cases hd : d = c
      · subst hd; simp [hs', Caller.client]
      · simp [hs', hd]
  · simp [Buffer.see, seen, hpc, hlast]

theorem Settled.dropPop (h : Settled s K) {j : Usize p} {poisoned panicking : Bool}
    (hpc : s.callers c = .popGuard j poisoned) :
    Mirrored n s ({ s with control.poison := s.control.poison || panicking }.setCaller c
      (.popDropping j)) K (c, .drop panicking) := by
  refine .stay (h.update rfl rfl h.recvd_le h.le_next ?_ (by rintro k ⟨⟩) (by rintro k ⟨⟩))
    (by simp [seen, hpc]) (seenAs_stay rfl rfl rfl rfl ?_)
  · intro k hk
    exact h.granted (c := c) (by simpa [hpc, Caller.recvGrant] using hk)
  · simp only [Caller.client, hpc]

/-! ## All steps -/

omit [DecidableEq ι] [Fintype ι] in
/-- The buffer has what is in the slots of the items between the two last indices. -/
theorem Settled.seenAs_slots (h : Settled s K) (hi : Inv n s) {slots : Nat → α}
    (hslots : ∀ j, s.recvd ≤ j → j < s.sent → slots (j % n.toNat) = s.slots (j % n.toNat)) :
    State.seenAs n { s with slots } K = s.seenAs n K := by
  have hslot : ∀ {c} {j : Usize p}, (s.callers c).recvTicket = some j.toNat → j.toNat < s.sent →
      slots (slot n j) = s.slots (slot n j) := fun hc hj => by
    rw [slot_eq]
    exact hslots _ (hi.recvs.bounds hc).1 hj
  have hsent := h.le_sent
  ext1
  · refine List.map_congr_left fun j hj => ?_
    obtain ⟨hK, hj⟩ := List.mem_range'_1.mp hj
    have hle := h.recvd_le
    have hj' : j < K + (s.sent - K) := hj
    exact hslots j (by omega) (by omega)
  · rfl
  · funext c
    change (s.callers c).client n slots K = (s.callers c).client n s.slots K
    cases hpc : s.callers c with
    | popClaimed j | popEmpty j =>
      simp only [Caller.client]
      by_cases hj : j.toNat < K
      · rw [if_pos hj, if_pos hj, hslot (c := c) (by simp [hpc, Caller.recvTicket]) (by omega)]
      · rw [if_neg hj, if_neg hj]
    | popReady j | popGuard j _ | popDropping j =>
      have hj := h.granted (c := c) (j := j.toNat) (by simp [hpc, Caller.recvGrant])
      simp only [Caller.client]
      rw [hslot (c := c) (by simp [hpc, Caller.recvTicket]) (by omega)]
    | _ => rfl

/-- The owner of a push guard writes to a slot the buffer has nothing in. -/
theorem Settled.write (h : Settled s K) (hi : Inv n s) {i : Usize p} {v : α}
    (hpc : s.callers c = .pushGuard i) :
    Mirrored n s { s with slots := Function.update s.slots (slot n i) v } K (c, .write v) := by
  have hb := hi.sendGrant_bounds (c := c) (i := i.toNat) (by simp [hpc, Caller.sendGrant])
  refine .stay ⟨h.recvd_le, h.le_sent, h.le_next, h.granted, h.claimed, h.last⟩
    (by simp [seen, hpc]) (h.seenAs_slots hi fun j hj hlt => ?_)
  have hcap := hi.sent_le
  have hle := hi.recvd_le_sent
  refine Function.update_of_ne (fun hslot => ?_) _ _
  rw [slot_eq] at hslot
  have heq := eq_of_mod_eq_of_window ⟨hj, by omega⟩ ⟨by omega, hb.2⟩ hslot
  omega

theorem Settled.move (h : Settled s K) (hi : Inv n s) (hi' : Inv n s') (hcalm : Calm n (s, c, a))
    (hm : Move n s c a s') : Mirrored n s s' K (c, a) := by
  cases hm with
  | wrapSend _ hw | wrapRecv _ hw => exact absurd hw hcalm.1
  | claimSend hpc => exact h.claimSend hpc
  | grantPush hpc hclear => exact h.grantPush hi' hpc hclear
  | refusePush hpc hfull => exact h.refusePush hi hcalm.2 hpc hfull
  | handBackSend hpc hnext => exact h.handBackSend hpc hnext
  | retryPush hpc hno => exact h.retryPush hpc hno
  | write hpc => exact h.write hi hpc
  | dropPush hpc =>
    refine .stay (h.push rfl rfl rfl rfl rfl) (by simp [seen, hpc])
      (seenAs_stay rfl rfl rfl rfl ?_)
    simp only [Caller.client, hpc]
  | publishSend hpc hlast => exact h.publishSend hi hpc hlast hi'
  | spinPush hpc hno => exact .stay h (by simp only [seen, hpc, if_neg hno]) rfl
  | claimRecv hpc hne => exact h.claimRecv hpc hne hi'
  | grantPop hpc hclear => exact h.grantPop hi hcalm.2 hpc hclear
  | refusePop hpc hempty => exact h.refusePop hi hcalm.2 hpc hempty
  | handBackRecv hpc hnext => exact h.handBackRecv hi hpc hnext
  | retryPop hpc hno => exact h.retryPop hi hpc hno hi'
  | handOut hpc => exact h.handOut hpc
  | dropPop hpc => exact h.dropPop hpc
  | publishRecv hpc hlast => exact h.publishRecv hi hpc hlast
  | spinPop hpc hno => exact .stay h (by simp only [seen, hpc, if_neg hno]) rfl

end Steps

/-! ## All runs -/

theorem settled_fresh {s : State p ι α} (h : Fresh s) : Settled s 0 := by
  obtain ⟨hctrl, hidle⟩ := h
  have hrecvd : s.recvd = 0 := by rw [State.recvd, hctrl]; exact toNat_usizeMax_add_one
  refine ⟨hrecvd.le, Nat.zero_le _, Nat.zero_le _, fun {c j} hc => ?_, fun {c j} hc => ?_,
    fun {c j} hc => ?_⟩
  all_goals
    rw [hidle] at hc
    cases hc

theorem seenAs_fresh {n : ItemCount p} {s : State p ι α} (h : Fresh s) :
    (s.seenAs n 0).Empty := by
  obtain ⟨hctrl, hidle⟩ := h
  have hsent : s.sent = 0 := by rw [State.sent, hctrl]; exact toNat_usizeMax_add_one
  exact ⟨by simp [State.seenAs, hsent], by simp, fun c => by simp [hidle, Caller.client]⟩

section Runs

variable [Fintype ι] [DecidableEq ι] {n : ItemCount p} {h : List (Entry p ι α)} {s : State p ι α}

/--
Linearizability.

What is seen of a calm run of the queue is seen of a run of a bounded buffer of the same size. The
items are received in one order, the order in which they were put in.
-/
theorem linearizable (hr : Run (system n ι α) h s) (hcalm : ∀ e ∈ h, Calm n e) :
    ∃ k t, Run (Buffer.system n.toNat ι α) k t ∧ trace Buffer.see k = trace (seen n) h ∧
      Buffer.Orderly n.toNat k t := by
  have hsim := hr.simulated (Buffer.system n.toNat ι α) (seen n) Buffer.see (Calm n)
    (fun s t => ∃ K, Settled s K ∧ t = s.seenAs n K)
    (fun s h0 => ⟨_, seenAs_fresh h0, 0, settled_fresh h0, rfl⟩)
    (fun h s e s' _ hr hpre hR he hs => by
      obtain ⟨K, hK, rfl⟩ := hR
      have hi := inv_of_run hr hpre
      have hm := move_of_step (c := e.1) (a := e.2) hs
      obtain ⟨K', hK', hgoes⟩ := hK.move hi (hi.move he.2 he.1 hm) he hm
      exact ⟨_, hgoes, K', hK', rfl⟩)
    hcalm
  obtain ⟨k, t, hk, -, htrace⟩ := hsim
  exact ⟨k, t, hk, htrace, Buffer.orderly_of_run hk⟩

end Runs

/-- One item is received before the push of the next is over. -/
theorem linearizable_two : ∃ h s, Run (system twoSlots (Fin 3) Bool) h s ∧
    trace (seen twoSlots) h = [.offers 0, .isAdmitted 0, .offers 1, .puts 0 true, .asks 2,
      .isAdmitted 1, .receives 2 true, .puts 1 false] ∧
    ∃ k t, Run (Buffer.system twoSlots.toNat (Fin 3) Bool) k t ∧
      trace Buffer.see k = trace (seen twoSlots) h ∧ Buffer.Orderly twoSlots.toNat k t := by
  have hr : Run (system twoSlots (Fin 3) Bool) _ _ :=
    Run.of_replay
      [(0, .tryPush), (0, .load), (1, .tryPush), (0, .write true), (0, .drop false),
        (0, .publish false), (2, .tryPop), (2, .load), (1, .load), (2, .load), (1, .drop false),
        (1, .publish false)]
      (fresh_fresh fun _ => false) rfl
  exact ⟨_, _, hr, rfl, linearizable hr (by decide)⟩

end SandboxIpc.Queue
