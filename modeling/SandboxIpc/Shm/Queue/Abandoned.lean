import SandboxIpc.Infra.Refinement
import SandboxIpc.Shm.Queue.Holes

/-!
# A caller that never goes on

Indices are published in their order, so everybody waits for the holder of the lowest one. A process
that dies with an index, inside `try_push` or `try_pop` or with a guard, takes the queue with it: no
recovery is attempted, and what still gets through is what has a lower index.

* `PushesStop`, `PopsStop` — what is still possible after such a caller
* `abandoned` — nothing more than that happens, in any continuation
-/

namespace SandboxIpc.Queue

open Infra

variable {p : PointerWidth} {ι α : Type}

/-- The index `i` is never published by a push. -/
structure PushesStop (i : Nat) (s : State p ι α) (k : List (Entry p ι α)) : Prop where
  published : ∀ e ∈ k, ∀ j, PublishesPush j e → j.toNat < i
  handedOut : ∀ e ∈ k, ∀ j, HandsOut j e → j.toNat < i
  /-- Whoever drops a guard with an index above `i` does not come back. -/
  pushes_le : k.countP pushes ≤ i - s.sent
  pops_le : k.countP pops ≤ i - s.recvd

/-- The index `i` is never published by a pop. -/
structure PopsStop (n : ItemCount p) (i : Nat) (s : State p ι α) (k : List (Entry p ι α)) : Prop where
  /-- No push gets a slot that would be free after that pop. -/
  granted : ∀ e ∈ k, ∀ j, e.1.callers e.2.1 = .pushClaimed j → returnsPush n e = true →
    j.toNat < i + n.toNat
  published : ∀ e ∈ k, ∀ j, PublishesPush j e → j.toNat < i + n.toNat
  pushes_le : k.countP pushes ≤ i + n.toNat - s.sent
  pops_le : k.countP pops ≤ i - s.recvd

section Continuation

variable [DecidableEq ι] [Fintype ι] {n : ItemCount p} {h k : List (Entry p ι α)}
  {s s' : State p ι α} {c : ι}

omit [Fintype ι] in
/-- Who takes no step stays where it is. -/
theorem callers_of_absent (hk : Run ((system n ι α).startingAt s) k s') (hgone : ∀ e ∈ k, e.2.1 ≠ c) :
    s'.callers c = s.callers c := by
  refine hk.invariant_of (fun e => e.2.1 ≠ c) (fun s' => s'.callers c = s.callers c) ?_ ?_ hgone
  · rintro _ rfl
    rfl
  · intro s₁ a s₂ ih hne hs
    have hm : Move n s₁ a.1 a.2 s₂ := move_of_step hs
    rw [callers_of_move hm hne.symm, ih]

/-- What holds where an entry of the continuation starts and where it ends. -/
theorem absent_at (hr : Run (system n ι α) h s) (hk : Run ((system n ι α).startingAt s) k s')
    (hcalm : ∀ e ∈ h ++ k, Calm n e) (hgone : ∀ e ∈ k, e.2.1 ≠ c) {e : Entry p ι α} (he : e ∈ k) :
    ∃ s'', Move n e.1 e.2.1 e.2.2 s'' ∧ Inv n e.1 ∧ Inv n s'' ∧ e.1.callers c = s.callers c ∧
      s''.callers c = s.callers c := by
  obtain ⟨pre, post, rfl⟩ := List.append_of_mem he
  obtain ⟨hpre, s'', hs, hpost⟩ := hk.split
  have hsub : ∀ x ∈ pre ++ [e], x ∈ pre ++ e :: post := fun x hx => by
    rw [List.append_cons]
    exact List.mem_append_left _ hx
  have hcalm' : ∀ x ∈ h ++ (pre ++ [e]), Calm n x := fun x hx =>
    hcalm x (List.mem_append.mpr ((List.mem_append.mp hx).imp_right (hsub x)))
  have hgone' : ∀ x ∈ pre ++ [e], x.2.1 ≠ c := fun x hx => hgone x (hsub x hx)
  have hbefore : ∀ x ∈ h ++ pre, Calm n x := fun x hx => hcalm' x (by
    rw [← List.append_assoc]
    exact List.mem_append_left _ hx)
  exact ⟨s'', move_of_step hs, inv_of_run (hr.append hpre) hbefore,
    inv_of_run (hr.append hpost) hcalm',
    callers_of_absent hpre fun x hx => hgone' x (List.mem_append_left _ hx),
    callers_of_absent hpost hgone'⟩

/-- The pushes and the pops of the continuation are what the counters go up by. -/
theorem counts_of_continuation (hr : Run (system n ι α) h s)
    (hk : Run ((system n ι α).startingAt s) k s') (hcalm : ∀ e ∈ h ++ k, Calm n e) :
    s'.sent = s.sent + k.countP pushes ∧ s'.recvd = s.recvd + k.countP pops := by
  have hpre := counts_of_run hr fun e he => hcalm e (List.mem_append_left _ he)
  have hall := counts_of_run (hr.append hk) hcalm
  rw [List.countP_append, List.countP_append] at hall
  exact ⟨by rw [hall.1, hpre.1], by rw [hall.2, hpre.2]⟩

/-- Somebody claimed index `i` for a push, and takes no step any more. -/
theorem pushes_stop (hr : Run (system n ι α) h s) (hk : Run ((system n ι α).startingAt s) k s')
    (hcalm : ∀ e ∈ h ++ k, Calm n e) (hgone : ∀ e ∈ k, e.2.1 ≠ c) {i : Nat}
    (hc : (s.callers c).sendTicket = some i) : PushesStop i s k := by
  have hend : s'.sent ≤ i ∧ s'.recvd ≤ s'.sent := by
    have hi := inv_of_run (hr.append hk) hcalm
    rw [← callers_of_absent hk hgone] at hc
    exact ⟨(hi.sends.bounds hc).1, hi.recvd_le_sent⟩
  obtain ⟨hsent, hrecvd⟩ := counts_of_continuation hr hk hcalm
  refine ⟨fun e he j hj => ?_, fun e he j hj => ?_, by omega, by omega⟩
  · obtain ⟨s'', hm, hi, hi', -, hc'⟩ := absent_at hr hk hcalm hgone he
    obtain ⟨s₁, d, a⟩ := e
    obtain ⟨hpc, rfl, hlast⟩ := hj
    have hbound := (hi'.sends.bounds (c := c) (by rw [hc']; exact hc)).1
    have hcount := (sent_move hi hm).1
    dsimp only at hpc hlast
    simp only [pushes, hpc, hlast, decide_true, Bool.toNat_true] at hcount
    rw [(hi.sent_publish hpc hlast).1] at hcount
    omega
  · obtain ⟨s'', -, hi, -, hc', -⟩ := absent_at hr hk hcalm hgone he
    have hgrant := hi.recvGrant_lt (c := e.2.1) (i := j.toNat) (by rw [hj.1]; rfl)
    have hbound := (hi.sends.bounds (c := c) (by rw [hc']; exact hc)).1
    omega

/-- Somebody claimed index `i` for a pop, and takes no step any more. -/
theorem pops_stop (hr : Run (system n ι α) h s) (hk : Run ((system n ι α).startingAt s) k s')
    (hcalm : ∀ e ∈ h ++ k, Calm n e) (hgone : ∀ e ∈ k, e.2.1 ≠ c) {i : Nat}
    (hc : (s.callers c).recvTicket = some i) : PopsStop n i s k := by
  have hend : s'.recvd ≤ i ∧ s'.sent ≤ s'.recvd + n.toNat := by
    have hi := inv_of_run (hr.append hk) hcalm
    rw [← callers_of_absent hk hgone] at hc
    exact ⟨(hi.recvs.bounds hc).1, hi.sent_le⟩
  obtain ⟨hsent, hrecvd⟩ := counts_of_continuation hr hk hcalm
  have hrecvd_le : ∀ {e}, e ∈ k → Inv n e.1 ∧ e.1.recvd ≤ i := fun he => by
    obtain ⟨s'', -, hi, -, hc', -⟩ := absent_at hr hk hcalm hgone he
    exact ⟨hi, (hi.recvs.bounds (c := c) (by rw [hc']; exact hc)).1⟩
  refine ⟨fun e he j hj hreturns => ?_, fun e he j hj => ?_, by omega, by omega⟩
  · obtain ⟨hi, hbound⟩ := hrecvd_le he
    have hclear : sendClear n j e.1.control.lastRecvdIndex = true := by
      unfold returnsPush at hreturns
      rw [hj] at hreturns
      split at hreturns
      · next j' hj' _ => rwa [Caller.pushClaimed.inj hj']
      · cases hreturns
    have hlt := (hi.sendClear_iff (hcalm e (List.mem_append_right _ he)).2 hj).mp hclear
    omega
  · obtain ⟨hi, hbound⟩ := hrecvd_le he
    have hlt := hi.sendGrant_lt (c := e.2.1) (i := j.toNat) (by rw [hj.1]; rfl)
    omega

/--
A caller that never goes on.

From some point of a calm run on, `c` takes no step, and it has an index there: it died inside a
call, or with a guard it never drops. If the index is that of a push, no push with this or a later
index is ever over and no such item handed out. If it is that of a pop, the room of its slot and of
those after it is never given back. Either way only a fixed number of items still gets through,
however long the others go on.
-/
theorem abandoned (hr : Run (system n ι α) h s) (hk : Run ((system n ι α).startingAt s) k s')
    (hcalm : ∀ e ∈ h ++ k, Calm n e) (hgone : ∀ e ∈ k, e.2.1 ≠ c) :
    (∀ i, (s.callers c).sendTicket = some i → PushesStop i s k) ∧
      ∀ i, (s.callers c).recvTicket = some i → PopsStop n i s k :=
  ⟨fun _ hc => pushes_stop hr hk hcalm hgone hc, fun _ hc => pops_stop hr hk hcalm hgone hc⟩

end Continuation

/-- Producer 0 dies with its guard. Producer 1 cannot publish its item, and consumer 2 finds
nothing. -/
theorem abandoned_two : ∃ h s k s', Run (system twoSlots (Fin 3) Unit) h s ∧
    Run ((system twoSlots (Fin 3) Unit).startingAt s) k s' ∧ s.callers 0 = .pushGuard 0 ∧
    s'.callers 1 = .pushDropping 1 ∧ s'.callers 2 = .popEmpty 0 ∧ PushesStop 0 s k := by
  have hr : Run (system twoSlots (Fin 3) Unit) _ _ :=
    Run.of_replay [(0, .tryPush), (0, .load)] (fresh_fresh fun _ => ()) rfl
  have hk := hr.onward [(1, .tryPush), (1, .load), (1, .drop false), (1, .publish false),
    (2, .tryPop), (2, .load)] rfl
  exact ⟨_, _, _, _, hr, hk, by decide, by decide, by decide,
    (abandoned hr hk (by decide) (c := 0) (by decide)).1 0 (by decide)⟩

end SandboxIpc.Queue
