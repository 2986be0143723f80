import SandboxIpc.Shm.Queue.Holes

/-!
# The order in which one thread drops its guards

The loop in the drop of a guard waits until all guards of its kind with lower indices have been
dropped. Where they belong to the same thread, nobody is left to do that.

* `Terminates` — the loop ends, unless the exchange fails spuriously for ever
* `drop_terminates_iff` — on one thread it does so if and only if the guard is the oldest of its kind
* `second_first` — of two guards, the second is dropped first
-/

namespace SandboxIpc.Queue

open Infra

variable {p : PointerWidth} {ι α : Type}

/-- In the loop of the drop of a guard. -/
def Caller.inDrop : Caller p → Bool
  | .pushDropping _ | .popDropping _ => true
  | _ => false

section Statement

variable [DecidableEq ι] (n : ItemCount p) (c : ι) (fails : Nat → Bool) (s : State p ι α)

/-- The state after at most `k` rounds of the loop, which `c` runs alone. In round `i` the exchange
fails spuriously if `fails i`. -/
def dropLoop : Nat → State p ι α
  | 0 => s
  | k + 1 => (step n (dropLoop k) (c, .publish (fails k))).getD (dropLoop k)

/-- The loop of `c` ends, however often the exchange fails spuriously before it does not. -/
def Terminates : Prop :=
  ∀ fails : Nat → Bool, (∃ k, fails k = false) →
    ∃ k, (dropLoop n c fails s k).callers c = .idle

/-- No live guard of the kind of that of `c` has a lower index. -/
def OldestOfKind (s : State p ι α) (c : ι) : Prop :=
  ∀ d i j, ((s.callers c).sendGrant = some i ∧ (s.callers d).sendGrant = some j ∨
    (s.callers c).recvGrant = some i ∧ (s.callers d).recvGrant = some j) → i ≤ j

end Statement

/-! ## Rounds of the loop -/

section Rounds

variable [DecidableEq ι] {n : ItemCount p} {c : ι} {fails : Nat → Bool} {s s' : State p ι α}
  {i : Usize p}

/-- As long as every round leaves the state as it is, there is another one. -/
theorem dropLoop_of_stays {k : Nat}
    (h : ∀ m, m < k → step n s (c, .publish (fails m)) = some s) : dropLoop n c fails s k = s := by
  induction k with
  | zero => rfl
  | succ k ih =>
    unfold dropLoop
    rw [ih fun m hm => h m (Nat.lt_succ_of_lt hm), h k (Nat.lt_succ_self k)]
    rfl

/-- The first round without a spurious failure ends the loop. -/
theorem terminates_of_leaves (hfail : step n s (c, .publish true) = some s)
    (hdone : step n s (c, .publish false) = some s') (hidle : s'.callers c = .idle) :
    Terminates n c s := by
  intro fails hsome
  have hstays : dropLoop n c fails s (Nat.find hsome) = s := by
    refine dropLoop_of_stays fun m hm => ?_
    have htrue : fails m = true := by
      have hno := Nat.find_min hsome hm
      rwa [Bool.not_eq_false] at hno
    rw [htrue, hfail]
  refine ⟨Nat.find hsome + 1, ?_⟩
  unfold dropLoop
  rw [hstays, Nat.find_spec hsome, hdone]
  exact hidle

theorem not_terminates_of_stays (hstays : ∀ f, step n s (c, .publish f) = some s)
    (hc : (s.callers c).inDrop = true) : ¬ Terminates n c s := by
  intro h
  obtain ⟨k, hk⟩ := h (fun _ => false) ⟨0, rfl⟩
  rw [dropLoop_of_stays fun _ _ => hstays _] at hk
  rw [hk] at hc
  cases hc

/-- The loop of a push guard ends if and only if the guard below it has been published. -/
theorem terminates_push_iff (hpc : s.callers c = .pushDropping i) :
    Terminates n c s ↔ s.control.lastSentIndex = i - 1 := by
  constructor
  · intro h
    by_contra hlast
    refine not_terminates_of_stays (fun f => ?_) (by rw [hpc]; rfl) h
    exact step_iff_move.mpr (.spinPush hpc fun hcas => hlast hcas.2)
  · intro hlast
    exact terminates_of_leaves (step_iff_move.mpr (.spinPush hpc nofun))
      (step_iff_move.mpr (.publishSend hpc hlast)) (setCaller_self ..)

theorem terminates_pop_iff (hpc : s.callers c = .popDropping i) :
    Terminates n c s ↔ s.control.lastRecvdIndex = i - 1 := by
  constructor
  · intro h
    by_contra hlast
    refine not_terminates_of_stays (fun f => ?_) (by rw [hpc]; rfl) h
    exact step_iff_move.mpr (.spinPop hpc fun hcas => hlast hcas.2)
  · intro hlast
    exact terminates_of_leaves (step_iff_move.mpr (.spinPop hpc nofun))
      (step_iff_move.mpr (.publishRecv hpc hlast)) (setCaller_self ..)

end Rounds

/-! ## One thread -/

section OneThread

variable {n : ItemCount p} {c : ι} {s : State p ι α} {i : Usize p}

/-- The lowest index that is out is that of a guard, if nobody else is in a call. -/
theorem lastSent_iff_oldest (hi : Inv n s) (halone : ∀ d, d ≠ c → (s.callers d).inside = false)
    (hpc : s.callers c = .pushDropping i) :
    s.control.lastSentIndex = i - 1 ↔ OldestOfKind s c := by
  have hgrant : (s.callers c).sendGrant = some i.toNat := by rw [hpc]; rfl
  have hb := hi.sends.bounds (c := c) (sendTicket_of_sendGrant hgrant)
  constructor
  · rintro hlast d i' j (⟨hi', hd⟩ | ⟨hi', -⟩)
    · rw [hgrant] at hi'
      obtain rfl := Option.some.inj hi'
      rw [← (hi.sent_publish hpc hlast).1]
      exact (hi.sends.bounds (c := d) (sendTicket_of_sendGrant hd)).1
    · rw [hpc] at hi'
      cases hi'
  · intro hold
    obtain ⟨d, hd⟩ := hi.sends.oldest (by omega)
    have hguard : (s.callers d).sendGrant = some s.sent := by
      refine (sendGrant_or_pushing hd).resolve_right fun hpushing => ?_
      by_cases hdc : d = c
      · rw [hdc, hpc] at hpushing
        cases hpushing
      · rw [pushing_outside (halone d hdc)] at hpushing
        cases hpushing
    have hle := hold d _ _ (.inl ⟨hgrant, hguard⟩)
    have hsent : s.control.lastSentIndex + 1 = i :=
      BitVec.eq_of_toNat_eq (Nat.le_antisymm hb.1 hle)
    rw [← hsent, BitVec.add_sub_cancel]

theorem lastRecvd_iff_oldest (hi : Inv n s) (halone : ∀ d, d ≠ c → (s.callers d).inside = false)
    (hpc : s.callers c = .popDropping i) :
    s.control.lastRecvdIndex = i - 1 ↔ OldestOfKind s c := by
  have hgrant : (s.callers c).recvGrant = some i.toNat := by rw [hpc]; rfl
  have hb := hi.recvs.bounds (c := c) (recvTicket_of_recvGrant hgrant)
  constructor
  · rintro hlast d i' j (⟨hi', -⟩ | ⟨hi', hd⟩)
    · rw [hpc] at hi'
      cases hi'
    · rw [hgrant] at hi'
      obtain rfl := Option.some.inj hi'
      rw [← (hi.recvd_publish hpc hlast).1]
      exact (hi.recvs.bounds (c := d) (recvTicket_of_recvGrant hd)).1
  · intro hold
    obtain ⟨d, hd⟩ := hi.recvs.oldest (by omega)
    have hguard : (s.callers d).recvGrant = some s.recvd := by
      refine (recvGrant_or_popping hd).resolve_right fun hpopping => ?_
      by_cases hdc : d = c
      · rw [hdc, hpc] at hpopping
        cases hpopping
      · rw [popping_outside (halone d hdc)] at hpopping
        cases hpopping
    have hle := hold d _ _ (.inr ⟨hgrant, hguard⟩)
    have hrecvd : s.control.lastRecvdIndex + 1 = i :=
      BitVec.eq_of_toNat_eq (Nat.le_antisymm hb.1 hle)
    rw [← hrecvd, BitVec.add_sub_cancel]

variable [DecidableEq ι] {h : List (Entry p ι α)}

/-- While one call is in progress in a run of a lone thread, no other is. -/
theorem alone_of_run (hr : Run (system n ι α) h s) (hlone : ∀ e ∈ h, Lone e)
    (hc : (s.callers c).inside = true) : ∀ d, d ≠ c → (s.callers d).inside = false := by
  refine hr.invariant_of Lone (fun s => ∀ c, (s.callers c).inside = true →
    ∀ d, d ≠ c → (s.callers d).inside = false) ?_ ?_ hlone c hc
  · rintro s ⟨-, hidle⟩ c hc
    rw [hidle c] at hc
    cases hc
  · rintro s ⟨c', a⟩ s' - hout hs c hc d hd
    have hm := move_of_step hs
    have hcc : c = c' := by
      by_contra hne
      rw [callers_of_move hm hne, show (s.callers c).inside = false from hout c hne] at hc
      cases hc
    subst hcc
    rw [callers_of_move hm hd]
    exact hout d hd

/--
Which guards one thread can drop.

A thread that nobody disturbs calls `try_push` and `try_pop` and drops guards in any order, and
claims no index `usize::MAX`. The loop of a drop ends if and only if the guard is the oldest live
one of its kind.
-/
theorem drop_terminates_iff [Fintype ι] (hr : Run (system n ι α) h s)
    (hlone : ∀ e ∈ h, Lone e ∧ BelowMax e) (hc : (s.callers c).inDrop = true) :
    Terminates n c s ↔ OldestOfKind s c := by
  have hinside : (s.callers c).inside = true := by
    cases hpc : s.callers c with
    | pushDropping | popDropping => rfl
    | _ =>
      rw [hpc] at hc
      cases hc
  have halone := alone_of_run hr (fun e he => (hlone e he).1) hinside
  have hi : Inv n s := inv_of_run hr fun e he =>
    ⟨(hlone e he).2, uncrowded_of_lone (c := e.2.1) (a := e.2.2) (hlone e he).1⟩
  cases hpc : s.callers c with
  | pushDropping i => rw [terminates_push_iff hpc, lastSent_iff_oldest hi halone hpc]
  | popDropping i => rw [terminates_pop_iff hpc, lastRecvd_iff_oldest hi halone hpc]
  | _ =>
    rw [hpc] at hc
    cases hc

end OneThread

/-- Of two push guards, the first is dropped first. -/
theorem drop_terminates_first : ∃ h s, Run (system twoSlots (Fin 2) Unit) h s ∧
    s.callers 1 = .pushGuard 1 ∧ Terminates twoSlots 0 s := by
  have hr : Run (system twoSlots (Fin 2) Unit) _ _ :=
    Run.of_replay
      [(0, .tryPush), (0, .load), (1, .tryPush), (1, .load), (0, .drop false)]
      (fresh_fresh fun _ => ()) rfl
  refine ⟨_, _, hr, rfl, (drop_terminates_iff hr ?_ rfl).mpr ?_⟩
  · unfold Lone
    decide
  · unfold OldestOfKind
    rintro d i j (⟨hi, -⟩ | ⟨hi, -⟩)
    · obtain rfl := Option.some.inj hi
      exact Nat.zero_le _
    · cases hi

/-- The reverse order, that of scopes: the drop of the second guard never ends. -/
theorem second_first : ∃ h s, Run (system twoSlots (Fin 2) Unit) h s ∧
    (∀ e ∈ h, Lone e ∧ BelowMax e) ∧ (s.callers 1).inDrop = true ∧ ¬ Terminates twoSlots 1 s := by
  have hr : Run (system twoSlots (Fin 2) Unit) _ _ :=
    Run.of_replay
      [(0, .tryPush), (0, .load), (1, .tryPush), (1, .load), (1, .drop false)]
      (fresh_fresh fun _ => ()) rfl
  refine ⟨_, _, hr, ?_, rfl, ?_⟩
  · unfold Lone
    decide
  · rw [terminates_push_iff (i := 1) rfl]
    decide

end SandboxIpc.Queue
