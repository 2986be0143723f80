import SandboxIpc.Shm.Queue.Invariant
import Mathlib.Data.Nat.ModEq
import Mathlib.Data.Nat.Find

/-!
# No two guards share a slot

* `slots_distinct` — in an uncrowded run the slots of all live guards are pairwise distinct
* `crowded_slots_shared` — with more than half the number space of callers inside `try_push` at once
  the signed full check passes where it should not, and two guards get the same slot
-/

namespace SandboxIpc.Queue

open Infra

variable {p : PointerWidth} {ι α : Type}

/-- The index of a live guard: from the return of its `try_*` call until the compare-exchange of its
`drop` succeeds. -/
def Caller.guardIndex : Caller p → Option (Usize p)
  | .pushGuard i | .pushDropping i | .popGuard i _ | .popDropping i => some i
  | _ => none

/-- The slots of all live guards are pairwise distinct. -/
def SlotsDistinct (n : ItemCount p) (s : State p ι α) : Prop :=
  ∀ c c' i i', (s.callers c).guardIndex = some i → (s.callers c').guardIndex = some i' →
    c ≠ c' → slot n i ≠ slot n i'

/-! ## Guards lie in a window -/

/-- Two numbers of a window of `n` consecutive ones with the same remainder are equal. -/
theorem eq_of_mod_eq_of_window {n lo a b : Nat} (ha : lo ≤ a ∧ a < lo + n)
    (hb : lo ≤ b ∧ b < lo + n) (h : a % n = b % n) : a = b := by
  -- the difference is a multiple of `n` and smaller than `n`
  have hdvd := (Nat.modEq_iff_dvd.mp h : (n : Int) ∣ b - a)
  have hzero : (b : Int) - a = 0 := by
    refine Int.eq_zero_of_abs_lt_dvd hdvd ?_
    rw [abs_lt]
    omega
  omega

/-- A live guard belongs to a granted push or a granted pop. -/
theorem grant_of_guardIndex {x : Caller p} {i : Usize p} (h : x.guardIndex = some i) :
    x.sendGrant = some i.toNat ∨ x.recvGrant = some i.toNat := by
  cases x <;> simp_all [Caller.guardIndex, Caller.sendGrant, Caller.recvGrant]

namespace Inv

variable {n : ItemCount p} {s : State p ι α}

/-- Granted pushes lie at or above what has been sent. -/
theorem sendGrant_bounds (h : Inv n s) {c : ι} {i : Nat} (hi : (s.callers c).sendGrant = some i) :
    s.sent ≤ i ∧ i < s.recvd + n.toNat :=
  ⟨(h.sends.bounds (sendTicket_of_sendGrant hi)).1, h.sendGrant_lt hi⟩

/-- Granted pops lie between what has been received and what has been sent. -/
theorem recvGrant_bounds (h : Inv n s) {c : ι} {i : Nat} (hi : (s.callers c).recvGrant = some i) :
    s.recvd ≤ i ∧ i < s.sent :=
  ⟨(h.recvs.bounds (recvTicket_of_recvGrant hi)).1, h.recvGrant_lt hi⟩

/-- Two indices of the window with the same slot are equal. -/
theorem eq_of_slot_eq {i j : Usize p} (hi : s.recvd ≤ i.toNat ∧ i.toNat < s.recvd + n.toNat)
    (hj : s.recvd ≤ j.toNat ∧ j.toNat < s.recvd + n.toNat) (h : slot n i = slot n j) : i = j := by
  rw [slot_eq, slot_eq] at h
  exact BitVec.eq_of_toNat_eq (eq_of_mod_eq_of_window hi hj h)

theorem slotsDistinct (h : Inv n s) : SlotsDistinct n s := by
  intro c c' i i' hc hc' hne hslot
  have hle := h.recvd_le_sent
  have hcap := h.sent_le
  rcases grant_of_guardIndex hc with hg | hg <;> rcases grant_of_guardIndex hc' with hg' | hg'
  · -- two push guards with one index are one caller
    have hb := h.sendGrant_bounds hg
    have hb' := h.sendGrant_bounds hg'
    have heq : i = i' := eq_of_slot_eq (s := s) (by omega) (by omega) hslot
    rw [← heq] at hg'
    exact hne (h.sends.inj (sendTicket_of_sendGrant hg) (sendTicket_of_sendGrant hg'))
  · -- a push guard lies above everything sent, a pop guard below
    have hb := h.sendGrant_bounds hg
    have hb' := h.recvGrant_bounds hg'
    have heq : i = i' := eq_of_slot_eq (s := s) (by omega) (by omega) hslot
    rw [heq] at hb
    omega
  · have hb := h.recvGrant_bounds hg
    have hb' := h.sendGrant_bounds hg'
    have heq : i = i' := eq_of_slot_eq (s := s) (by omega) (by omega) hslot
    rw [heq] at hb
    omega
  · have hb := h.recvGrant_bounds hg
    have hb' := h.recvGrant_bounds hg'
    have heq : i = i' := eq_of_slot_eq (s := s) (by omega) (by omega) hslot
    rw [← heq] at hg'
    exact hne (h.recvs.inj (recvTicket_of_recvGrant hg) (recvTicket_of_recvGrant hg'))

end Inv

section Runs

variable [Fintype ι] [DecidableEq ι]

/--
Slot exclusivity.

In every state of a run that claims no index `usize::MAX` and is never crowded, the slots of all
live guards, push and pop together, are pairwise distinct.
-/
theorem slots_distinct {n : ItemCount p} {h : List (State p ι α × ι × Act α)} {s : State p ι α}
    (hr : Run (system n ι α) h s) (hcalm : ∀ e ∈ h, Calm n e) : SlotsDistinct n s :=
  (inv_of_run hr hcalm).slotsDistinct

end Runs

/-- A queue of two slots on a 64-bit machine. -/
def twoSlots : ItemCount .w64 := ⟨2, by decide, by decide⟩

/-- Two push guards are live at once, on the two slots. -/
theorem slots_distinct_two : ∃ h s, Run (system twoSlots (Fin 2) Unit) h s ∧
    s.callers 0 = .pushGuard 0 ∧ s.callers 1 = .pushGuard 1 ∧ SlotsDistinct twoSlots s := by
  have hr : Run (system twoSlots (Fin 2) Unit) _ _ :=
    Run.of_replay [(0, .tryPush), (0, .load), (1, .tryPush), (1, .load)]
      (fresh_fresh fun _ => ()) rfl
  exact ⟨_, _, hr, by decide, by decide, slots_distinct hr (by decide)⟩

/-! ## A crowd of producers

`2 ^ 31 + 1` callers on a 32-bit machine and a queue of one slot. Each claims an index and stops
there. The first then passes the full check, rightly. For the last the distance to
`last_recvd_index` is `2 ^ 31`, which is negative as an `isize`, so it passes as well.
-/

/-- A queue of one slot on a 32-bit machine. -/
def oneSlot : ItemCount .w32 := ⟨1, by decide, by decide⟩

abbrev Crowd := Fin (2 ^ 31 + 1)

/-- The callers below `k` have claimed one index each, in their order. -/
def crowd (m : Nat → α) (k : Nat) : State .w32 Crowd α where
  control := { (Ctrl.new : Ctrl .w32) with nextSendIndex := BitVec.ofNat _ k }
  slots := m
  callers := fun c => if c.val < k then .pushClaimed (BitVec.ofNat _ c.val) else .idle

theorem crowd_index_ne_max {k : Nat} (hk : k < 2 ^ 31 + 1) :
    (BitVec.ofNat _ k : Usize .w32) ≠ usizeMax .w32 := by
  intro he
  have htop := congrArg BitVec.toNat he
  rw [BitVec.toNat_ofNat, toNat_usizeMax, PointerWidth.bits] at htop
  omega

/-- One more caller joins the crowd. -/
theorem crowd_succ (m : Nat → α) {k : Nat} (hk : k < 2 ^ 31 + 1) :
    step oneSlot (crowd m k) (⟨k, hk⟩, .tryPush) = some (crowd m (k + 1)) := by
  have hidle : (crowd m k).callers ⟨k, hk⟩ = .idle := by simp [crowd]
  have hcallers : Function.update (crowd m k).callers ⟨k, hk⟩ (.pushClaimed (BitVec.ofNat _ k))
      = (crowd m (k + 1)).callers := by
    funext c
    by_cases hc : c = ⟨k, hk⟩
    · subst hc; simp [crowd]
    · have hck : c.val ≠ k := fun he => hc (Fin.ext he)
      have hiff : c.val < k ↔ c.val < k + 1 := by omega
      simp [crowd, hc, hiff]
  have hm := Move.claimSend (n := oneSlot) hidle (crowd_index_ne_max hk)
  have hnext : (BitVec.ofNat _ k : Usize .w32) + 1 = BitVec.ofNat _ (k + 1) :=
    (BitVec.ofNat_add k 1).symm
  rw [step_iff_move.mpr hm]
  exact congrArg some (State.ext (Ctrl.ext hnext rfl rfl rfl rfl) rfl hcallers)

theorem crowd_no_popReady (m : Nat → α) (k : Nat) (c : Crowd) (j : Usize .w32) :
    (crowd m k).callers c ≠ .popReady j := by
  unfold crowd
  dsimp only
  split <;> simp

/-- The whole crowd can gather, while nobody pops. -/
theorem run_crowd (m : Nat → α) {k : Nat} (hk : k ≤ 2 ^ 31 + 1) :
    ∃ h, Run (system oneSlot Crowd α) h (crowd m k) ∧
      ∀ e ∈ h, BelowMax e ∧ ∀ c j, e.1.callers c ≠ .popReady j := by
  induction k with
  | zero => exact ⟨[], .nil ⟨rfl, fun c => by simp [crowd]⟩, by simp⟩
  | succ k ih =>
    obtain ⟨h, hr, hmax⟩ := ih (by omega)
    refine ⟨_, hr.snoc (crowd_succ m (by omega)), fun e he => ?_⟩
    rcases List.mem_append.mp he with he | he
    · exact hmax e he
    · obtain rfl := List.mem_singleton.mp he
      exact ⟨crowd_index_ne_max (by omega), crowd_no_popReady m k⟩

/-- The first and the last of the crowd. -/
def first : Crowd := 0

def last : Crowd := Fin.last (2 ^ 31)

theorem last_ne_first : last ≠ first := by decide

/-- The first and the last of the crowd both get a guard. -/
def crowdGranted (m : Nat → α) : State .w32 Crowd α :=
  ((crowd m (2 ^ 31 + 1)).setCaller first (.pushGuard 0)).setCaller last
    (.pushGuard (BitVec.ofNat _ (2 ^ 31)))

theorem crowdGranted_first (m : Nat → α) : (crowdGranted m).callers first = .pushGuard 0 := by
  rw [crowdGranted, setCaller_callers, Function.update_of_ne last_ne_first.symm,
    setCaller_callers, Function.update_self]

theorem crowdGranted_last (m : Nat → α) :
    (crowdGranted m).callers last = .pushGuard (BitVec.ofNat _ (2 ^ 31)) := by
  rw [crowdGranted, setCaller_callers, Function.update_self]

theorem run_crowdGranted (m : Nat → α) : ∃ h, Run (system oneSlot Crowd α) h (crowdGranted m) ∧
    ∀ e ∈ h, BelowMax e ∧ ∀ c j, e.1.callers c ≠ .popReady j := by
  obtain ⟨h, hr, hmax⟩ := run_crowd m (Nat.le_refl _)
  have hclaimed : ∀ c, (crowd m (2 ^ 31 + 1)).callers c = .pushClaimed (BitVec.ofNat _ c.val) :=
    fun c => if_pos c.isLt
  have hlast : ((crowd m (2 ^ 31 + 1)).setCaller first (.pushGuard 0)).callers last
      = .pushClaimed (BitVec.ofNat _ (2 ^ 31)) := by
    rw [setCaller_callers, Function.update_of_ne last_ne_first]
    exact hclaimed last
  have hclear : sendClear oneSlot 0 (usizeMax .w32) = true ∧
      sendClear oneSlot (BitVec.ofNat _ (2 ^ 31)) (usizeMax .w32) = true := by decide
  -- nothing has been received, so both are compared with the initial `usize::MAX`
  have h1 := Move.grantPush (n := oneSlot) (hclaimed first) hclear.1
  have h2 := Move.grantPush (n := oneSlot) hlast hclear.2
  refine ⟨_, (hr.snoc (step_iff_move.mpr h1)).snoc (step_iff_move.mpr h2), ?_⟩
  intro e he
  rw [List.mem_append, List.mem_append, List.mem_singleton, List.mem_singleton] at he
  rcases he with (he | rfl) | rfl
  · exact hmax e he
  · exact ⟨trivial, crowd_no_popReady m _⟩
  · refine ⟨trivial, fun c j => ?_⟩
    rw [setCaller_callers]
    by_cases hc : c = first
    · subst hc; simp
    · rw [Function.update_of_ne hc]
      exact crowd_no_popReady m _ c j

/--
Without the bound on the calls in progress two guards can share a slot.

No index `usize::MAX` is claimed in this run.
-/
theorem crowded_slots_shared : ∃ h s, Run (system oneSlot Crowd Unit) h s ∧
    (∀ e ∈ h, BelowMax e) ∧ ¬ SlotsDistinct oneSlot s := by
  obtain ⟨h, hr, hmax⟩ := run_crowdGranted fun _ => ()
  refine ⟨h, _, hr, fun e he => (hmax e he).1, fun hd => ?_⟩
  exact hd first last 0 (BitVec.ofNat _ (2 ^ 31)) (by rw [crowdGranted_first]; rfl)
    (by rw [crowdGranted_last]; rfl) last_ne_first.symm (by decide)

end SandboxIpc.Queue
