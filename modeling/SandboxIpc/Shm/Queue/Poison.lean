import SandboxIpc.Shm.Queue.Holes

/-!
# Poison of the queue

A guard that is dropped by a panicking thread sets the poison flag before it publishes its index.
`try_pop` reads the flag after it has found an item.

* `Protects` — what a guard from `Ok` says about the guards dropped by others
* `poison_iff` — the flag is set if and only if some guard has been dropped by a panicking thread
* `poison_protects` — all of it holds in every run
-/

namespace SandboxIpc.Queue

open Infra

variable {p : PointerWidth} {ι α : Type}

/-- A guard is dropped by a panicking thread. -/
def Panics (e : Entry p ι α) : Prop := e.2.2 = .drop true

section Statement

variable [DecidableEq ι] (n : ItemCount p) (j : Usize p) (e : Entry p ι α)
  (h : List (Entry p ι α))

/-- A `try_pop` call returns `Ok(Some(guard))`, and the guard has index `j`. -/
def ReturnsOk : Prop :=
  HandsOut j e ∧ ∃ s', step n e.1 e.2 = some s' ∧ s'.callers e.2.1 = .popGuard j false

/-- Those who are handed an item without an error are protected from those who panic. -/
structure Protects [Fintype ι] : Prop where
  /-- None of the guards whose drop has begun, of either kind, is dropped by a panicking thread. -/
  before : ∀ pre e post j, h = pre ++ e :: post → ReturnsOk n j e → ∀ e' ∈ pre, ¬ Panics e'
  /-- Once such a drop has begun, no `try_pop` returns `Ok(Some(_))`. -/
  after : ∀ pre e post, h = pre ++ e :: post → Panics e → ∀ e' ∈ post, ∀ j, ¬ ReturnsOk n j e'
  /-- While the checks are right, the push guards up to index `j` have all been dropped before, and
  no such guard is dropped by a panicking thread in what is to come. -/
  below : (∀ e ∈ h, Calm n e) → ∀ pre e post j, h = pre ++ e :: post → ReturnsOk n j e →
    ∀ i : Usize p, i.toNat ≤ j.toNat →
      (∃ e' ∈ pre, DropsPush i e') ∧ ∀ e' ∈ h, DropsPush i e' → ¬ Panics e'

end Statement

section Runs

variable [DecidableEq ι] {n : ItemCount p} {h pre post : List (Entry p ι α)} {s s' : State p ι α}
  {c : ι} {a : Act α} {e e' : Entry p ι α} {i j : Usize p}

/-- What is returned as `Ok` was loaded as not poisoned. -/
theorem poison_of_returnsOk (h : ReturnsOk n j e) : e.1.control.poison = false := by
  obtain ⟨s, c, a⟩ := e
  obtain ⟨⟨hpc, rfl⟩, s', hs, hc⟩ := h
  have hm : Move n s c .load s' := move_of_step hs
  cases hm with
  | handOut hpc' =>
    rw [setCaller_self] at hc
    exact (Caller.popGuard.inj hc).2
  | grantPush hpc' | refusePush hpc' | grantPop hpc' | refusePop hpc' => cases hpc.symm.trans hpc'

/-- The flag changes at the drop of a guard only, and is never cleared. -/
theorem poison_move (hm : Move n s c a s') :
    s'.control.poison = true ↔ s.control.poison = true ∨ Panics (s, c, a) := by
  unfold Panics
  cases hm with
  | dropPush | dropPop =>
    show (s.control.poison || _) = true ↔ _
    rw [Bool.or_eq_true, Act.drop.injEq]
  | _ => exact (or_iff_left nofun).symm

theorem poison_iff (hr : Run (system n ι α) h s) :
    s.control.poison = true ↔ ∃ e ∈ h, Panics e := by
  refine hr.ledger (fun h s => s.control.poison = true ↔ ∃ e ∈ h, Panics e) ?_ ?_
  · rintro s ⟨hctrl, -⟩
    rw [hctrl]
    exact ⟨nofun, fun ⟨_, he, _⟩ => nomatch he⟩
  · rintro h s ⟨c, a⟩ s' ih hs
    rw [poison_move (move_of_step hs), ih, exists_mem_snoc]

/-- What is in the history of a run when it gets to a later entry. -/
theorem run_to_later (hr : Run (system n ι α) (pre ++ e :: post) s) (he' : e' ∈ post) :
    ∃ mid, Run (system n ι α) (pre ++ e :: mid) e'.1 ∧ ∀ x ∈ mid, x ∈ post := by
  obtain ⟨mid, rest, rfl⟩ := List.append_of_mem he'
  rw [← List.cons_append, ← List.append_assoc] at hr
  exact ⟨mid, hr.split.1, fun x hx => List.mem_append_left _ hx⟩

/-- The index of a push guard that has been published is not that of a live one later on. -/
theorem not_dropsPush_of_sent [Fintype ι] (hr : Run (system n ι α) (pre ++ e :: post) s)
    (hcalm : ∀ x ∈ pre ++ e :: post, Calm n x) (hsent : i.toNat < e.1.sent) (he' : e' ∈ post) :
    ¬ DropsPush i e' := by
  rintro ⟨hpc, -⟩
  obtain ⟨mid, hmid, hsub⟩ := run_to_later hr he'
  have hcalm' : ∀ x ∈ e :: mid, Calm n x := fun x hx =>
    hcalm x (List.mem_append_right _ ((List.mem_cons.mp hx).elim (fun h => h ▸ .head _)
      fun h => .tail _ (hsub x h)))
  have hinv : Inv n e.1 := inv_of_run hmid.split.1 fun x hx => hcalm x (List.mem_append_left _ hx)
  obtain ⟨hi, hlater⟩ := hmid.carry (C := Calm n) (I := fun s => Inv n s ∧ i.toNat < s.sent)
    (fun s a s' hs hc hstep => by
      have hm : Move n s a.1 a.2 s' := move_of_step hstep
      have hsent' := (sent_move hs.1 hm).1
      exact ⟨hs.1.move hc.2 hc.1 hm, by omega⟩) hcalm' ⟨hinv, hsent⟩
  have hb := hi.sends.bounds (c := e'.2.1) (i := i.toNat) (by rw [hpc]; rfl)
  omega

/--
Poison protects consumers.

In every run, whoever drops guards while panicking, and whether the checks are right or not.
-/
theorem poison_protects [Fintype ι] (hr : Run (system n ι α) h s) : Protects n h where
  before := by
    rintro pre e post j rfl hok e' he' hpanics
    have hset := (poison_iff hr.split.1).mpr ⟨e', he', hpanics⟩
    rw [poison_of_returnsOk hok] at hset
    cases hset
  after := by
    rintro pre e post rfl hpanics e' he' j hok
    obtain ⟨mid, hmid, -⟩ := run_to_later hr he'
    have hset := (poison_iff hmid).mpr ⟨e, by simp, hpanics⟩
    rw [poison_of_returnsOk hok] at hset
    cases hset
  below := by
    rintro hcalm pre e post j rfl hok i hij
    have hpre : ∀ x ∈ pre, Calm n x := fun x hx => hcalm x (List.mem_append_left _ hx)
    have hlt := (inv_of_run hr.split.1 hpre).recvGrant_lt (c := e.2.1) (i := j.toNat)
      (by rw [hok.1.1]; rfl)
    have hsent : i.toNat < e.1.sent := Nat.lt_of_le_of_lt hij hlt
    refine ⟨((ledger_of_run hr.split.1 hpre).left i).mp (.inl hsent), fun e' he' hdrop hpanics => ?_⟩
    rcases List.mem_append.mp he' with he' | he'
    · have hset := (poison_iff hr.split.1).mpr ⟨e', he', hpanics⟩
      rw [poison_of_returnsOk hok] at hset
      cases hset
    · rcases List.mem_cons.mp he' with rfl | he'
      · exact absurd (hok.1.2.symm.trans hpanics) nofun
      · exact not_dropsPush_of_sent hr hcalm hsent he' hdrop

end Runs

/-- An item is handed out, and then its guard is dropped by a panicking thread. -/
theorem poison_protects_two : ∃ h s, Run (system twoSlots (Fin 2) Unit) h s ∧
    (∃ e ∈ h, ReturnsOk twoSlots 0 e) ∧ (∃ e ∈ h, Panics e) ∧ Protects twoSlots h := by
  have hr : Run (system twoSlots (Fin 2) Unit) _ _ :=
    Run.of_replay
      [(0, .tryPush), (0, .load), (0, .drop false), (0, .publish false), (1, .tryPop), (1, .load),
        (1, .load), (1, .drop true), (1, .publish false)]
      (fresh_fresh fun _ => ()) rfl
  refine ⟨_, _, hr, ⟨_, List.getElem_mem (n := 6) (by decide), ?_⟩,
    ⟨_, List.getElem_mem (n := 7) (by decide), rfl⟩, poison_protects hr⟩
  exact ⟨⟨by decide, by decide⟩, _, rfl, rfl⟩

end SandboxIpc.Queue
