import SandboxIpc.Infra.Census
import SandboxIpc.Infra.Run
import SandboxIpc.Machine

/-!
# The thin lock of `windows/sync.rs`

A counter in shared memory and a kernel semaphore. `lock` increments the counter and waits on the
semaphore unless the counter was zero; `MutexGuard::drop` decrements the counter and releases the
semaphore if somebody else was counted. The two operations of either are separate steps.

A *caller* is one `lock` call and the guard it returns, in whatever thread and process and through
whichever instance of the mutex.

* `Semaphore` — the kernel object; its count stays within its maximum
* `step`, `Move` — one atomic operation of one caller
* `Inv` — a guard, a unit of the semaphore and a releaser halfway through are one and the same token
* `one_guard` — mutual exclusion
-/

namespace SandboxIpc.ThinLock

open Infra

variable {p : PointerWidth} {ι : Type}

/-! ## The semaphore -/

/-- A semaphore object of the kernel. -/
structure Semaphore where
  count : Nat
  maximum : Nat
  count_le : count ≤ maximum

/-- `CreateSemaphoreW(_, 0, 1, _)`. -/
def Semaphore.create : Semaphore := ⟨0, 1, Nat.zero_le 1⟩

/-- `WaitForSingleObject` takes a unit; it blocks while there is none. -/
def Semaphore.wait (s : Semaphore) : Option Semaphore :=
  if 0 < s.count then some ⟨s.count - 1, s.maximum, Nat.le_trans (Nat.sub_le _ _) s.count_le⟩
  else none

/-- `ReleaseSemaphore(_, 1, _)` adds a unit; it fails at the maximum. -/
def Semaphore.release (s : Semaphore) : Option Semaphore :=
  if h : s.count < s.maximum then some ⟨s.count + 1, s.maximum, h⟩ else none

theorem Semaphore.count_wait {s s' : Semaphore} (h : s.wait = some s') :
    s'.count + 1 = s.count := by
  unfold wait at h
  split at h
  · next hpos =>
    obtain rfl := Option.some.inj h
    exact Nat.sub_add_cancel hpos
  · cases h

theorem Semaphore.count_release {s s' : Semaphore} (h : s.release = some s') :
    s'.count = s.count + 1 := by
  unfold release at h
  split at h
  · obtain rfl := Option.some.inj h
    rfl
  · cases h

/-! ## The lock -/

/-- Where a caller stands. -/
inductive Caller
  | idle
  /-- In `lock`, found the mutex contested, in `WaitForSingleObject`. -/
  | waiting
  /-- Owns a `MutexGuard`. -/
  | guard
  /-- In `MutexGuard::drop`, found contention, about to call `ReleaseSemaphore`. -/
  | releasing (panicking : Bool)
  /-- Panicked in `lock` because the wait failed; its increment of the counter stays. -/
  | waitPanicked
  /-- Panicked in `MutexGuard::drop`. -/
  | dropPanicked
  deriving DecidableEq

/-- The word in shared memory, the semaphore, and every caller. -/
structure State (p : PointerWidth) (ι : Type) where
  atomic : Usize p
  semaphore : Semaphore
  callers : ι → Caller

/-- What a caller does in one step. -/
inductive Act
  /-- `fetch_add` at the head of `lock`. -/
  | lock
  /-- `WaitForSingleObject` returns `WAIT_OBJECT_0`. -/
  | wait
  /-- `WaitForSingleObject` returns anything else. -/
  | waitFails
  /-- `fetch_sub` in `drop`; `panicking` is `thread::panicking()`. -/
  | drop (panicking : Bool)
  /-- `ReleaseSemaphore`. It fails by itself when the count is at its maximum. -/
  | release
  /-- `ReleaseSemaphore` fails for another reason. -/
  | releaseFails
  deriving DecidableEq

/-- An error in `drop` panics, or is only logged if the thread is panicking already. -/
def dropError (panicking : Bool) : Caller := if panicking then .idle else .dropPanicked

variable [DecidableEq ι]

def State.setCaller (s : State p ι) (c : ι) (x : Caller) : State p ι :=
  { s with callers := Function.update s.callers c x }

/-- One step of caller `c`. -/
def step (s : State p ι) (e : ι × Act) : Option (State p ι) :=
  let c := e.1
  match s.callers c, e.2 with
  | .idle, .lock =>
    some <| { s with atomic := s.atomic + 1 }.setCaller c (if s.atomic = 0 then .guard else .waiting)
  | .waiting, .wait =>
    s.semaphore.wait.map fun semaphore => { s with semaphore }.setCaller c .guard
  | .waiting, .waitFails => some <| s.setCaller c .waitPanicked
  | .guard, .drop panicking =>
    -- the value before the subtraction: zero is an invalid state, one means nobody waits
    some <| { s with atomic := s.atomic - 1 }.setCaller c
      (if s.atomic = 0 then dropError panicking
        else if s.atomic = 1 then .idle
        else .releasing panicking)
  | .releasing panicking, .release =>
    match s.semaphore.release with
    | some semaphore => some <| { s with semaphore }.setCaller c .idle
    | none => some <| s.setCaller c (dropError panicking)
  | .releasing panicking, .releaseFails => some <| s.setCaller c (dropError panicking)
  | _, _ => none

/-- The mutex `new_with_memory` makes. -/
def fresh (p : PointerWidth) (ι : Type) : State p ι :=
  { atomic := 0, semaphore := .create, callers := fun _ => .idle }

/-- The mutex as a transition system. -/
def system (p : PointerWidth) (ι : Type) [DecidableEq ι] : System (State p ι) (ι × Act) where
  init s := s = fresh p ι
  step := step

/-! ## What a step can do -/

/-- `Move s c a s'`: by action `a`, caller `c` takes `s` to `s'`. -/
inductive Move (s : State p ι) (c : ι) : Act → State p ι → Prop
  | take : s.callers c = .idle → s.atomic = 0 →
      Move s c .lock ({ s with atomic := s.atomic + 1 }.setCaller c .guard)
  | queue : s.callers c = .idle → s.atomic ≠ 0 →
      Move s c .lock ({ s with atomic := s.atomic + 1 }.setCaller c .waiting)
  | wake {semaphore} : s.callers c = .waiting → s.semaphore.wait = some semaphore →
      Move s c .wait ({ s with semaphore }.setCaller c .guard)
  | waitFails : s.callers c = .waiting → Move s c .waitFails (s.setCaller c .waitPanicked)
  | invalid {panicking} : s.callers c = .guard → s.atomic = 0 →
      Move s c (.drop panicking)
        ({ s with atomic := s.atomic - 1 }.setCaller c (dropError panicking))
  | free {panicking} : s.callers c = .guard → s.atomic = 1 → s.atomic ≠ 0 →
      Move s c (.drop panicking) ({ s with atomic := s.atomic - 1 }.setCaller c .idle)
  | handOver {panicking} : s.callers c = .guard → s.atomic ≠ 0 → s.atomic ≠ 1 →
      Move s c (.drop panicking)
        ({ s with atomic := s.atomic - 1 }.setCaller c (.releasing panicking))
  | release {panicking semaphore} : s.callers c = .releasing panicking →
      s.semaphore.release = some semaphore →
      Move s c .release ({ s with semaphore }.setCaller c .idle)
  | full {panicking} : s.callers c = .releasing panicking → s.semaphore.release = none →
      Move s c .release (s.setCaller c (dropError panicking))
  | releaseFails {panicking} : s.callers c = .releasing panicking →
      Move s c .releaseFails (s.setCaller c (dropError panicking))

theorem move_of_step {s s' : State p ι} {c : ι} {a : Act} (h : step s (c, a) = some s') :
    Move s c a s' := by
  unfold step at h
  dsimp only at h
  split at h
  · next hpc =>
    obtain rfl := Option.some.inj h
    split
    · next hzero => exact .take hpc hzero
    · next hzero => exact .queue hpc hzero
  · next hpc =>
    obtain ⟨semaphore, hsem, rfl⟩ := Option.map_eq_some_iff.mp h
    exact .wake hpc hsem
  · next hpc => obtain rfl := Option.some.inj h; exact .waitFails hpc
  · next hpc =>
    obtain rfl := Option.some.inj h
    split
    · next hzero => exact .invalid hpc hzero
    · next hzero =>
      split
      · next hone => exact .free hpc hone hzero
      · next hone => exact .handOver hpc hzero hone
  · next hpc =>
    split at h <;> obtain rfl := Option.some.inj h
    · next hsem => exact .release hpc hsem
    · next hsem => exact .full hpc hsem
  · next hpc => obtain rfl := Option.some.inj h; exact .releaseFails hpc
  · cases h

/-! ## The invariant -/

/-- The counter was incremented by this caller and not decremented. -/
def Caller.counted : Caller → Bool
  | .waiting | .guard | .waitPanicked => true
  | _ => false

/-- The guard of this caller exists: its `drop` has not begun, or is about to release the
semaphore. -/
def Caller.owns : Caller → Bool
  | .guard | .releasing _ => true
  | _ => false

section Counts

variable [Fintype ι]

/-- How many callers contend for the lock. -/
def State.contending (s : State p ι) : Nat := census Caller.counted s.callers

/-- How many callers have the lock in their hands. -/
def State.owners (s : State p ι) : Nat := census Caller.owns s.callers

/-- The counter counts the contenders, and there is one token at most while they contend: a guard, a
unit of the semaphore, or a releaser between `fetch_sub` and `ReleaseSemaphore`. -/
structure Inv (s : State p ι) : Prop where
  atomic_eq : s.atomic.toNat = s.contending
  token_le : s.owners + s.semaphore.count ≤ 1
  /-- A free mutex has no token, so that the caller that finds it free may make one. -/
  no_token : s.contending = 0 → s.owners + s.semaphore.count = 0

omit [DecidableEq ι] in
theorem inv_fresh : Inv (fresh p ι) := by
  have hcontending : (fresh p ι).contending = 0 := census_const rfl
  have howners : (fresh p ι).owners = 0 := census_const rfl
  have hcount : (fresh p ι).semaphore.count = 0 := rfl
  constructor
  · rw [hcontending]
    exact toNat_zero
  · omega
  · omega

/-- How the two counts change when a caller moves. -/
theorem contending_update {s s' : State p ι} {c : ι} {x : Caller}
    (h : s'.callers = Function.update s.callers c x) :
    s'.contending + (s.callers c).counted.toNat = s.contending + x.counted.toNat := by
  unfold State.contending
  rw [h]
  exact census_update Caller.counted s.callers c x

theorem owners_update {s s' : State p ι} {c : ι} {x : Caller}
    (h : s'.callers = Function.update s.callers c x) :
    s'.owners + (s.callers c).owns.toNat = s.owners + x.owns.toNat := by
  unfold State.owners
  rw [h]
  exact census_update Caller.owns s.callers c x

omit [DecidableEq ι] in
/-- A caller that is counted keeps the counter positive. -/
theorem Inv.atomic_ne_zero {s : State p ι} (h : Inv s) {c : ι}
    (hc : (s.callers c).counted = true) : s.atomic ≠ 0 := by
  intro hzero
  have hpos : 0 < s.contending := census_pos hc
  rw [← h.atomic_eq, hzero, toNat_zero] at hpos
  exact Nat.lt_irrefl 0 hpos

theorem dropError_free (panicking : Bool) :
    (dropError panicking).counted = false ∧ (dropError panicking).owns = false := by
  cases panicking <;> exact ⟨rfl, rfl⟩

namespace Inv

variable {s s' : State p ι} {c : ι} {a : Act}

/-- A step that leaves the counter alone and makes no token. -/
theorem pass_token (h : Inv s) {x : Caller} (hatomic : s'.atomic = s.atomic)
    (hcallers : s'.callers = Function.update s.callers c x)
    (hx : x.counted = (s.callers c).counted)
    (htoken : x.owns.toNat + s'.semaphore.count
      ≤ (s.callers c).owns.toNat + s.semaphore.count) : Inv s' := by
  have hcontending := contending_update hcallers
  have howners := owners_update hcallers
  have hle := h.token_le
  rw [hx] at hcontending
  refine ⟨by rw [hatomic, h.atomic_eq]; omega, by omega, fun hzero => ?_⟩
  have := h.no_token (by omega)
  omega

/-- `fetch_add`. The caller that finds the counter at zero makes the token. -/
theorem enter (h : Inv s) (hfew : s.contending < (usizeMax p).toNat) {x : Caller}
    (hpc : s.callers c = .idle) (hatomic : s'.atomic = s.atomic + 1)
    (hsem : s'.semaphore = s.semaphore) (hcallers : s'.callers = Function.update s.callers c x)
    (hx : x.counted = true) (howns : s.atomic ≠ 0 → x.owns = false) : Inv s' := by
  have hadd : (s.atomic + 1).toNat = s.contending + 1 := by
    rw [← h.atomic_eq] at hfew ⊢
    exact toNat_add_one fun he => absurd hfew (by rw [he]; exact Nat.lt_irrefl _)
  have hcontending := contending_update hcallers
  have howners := owners_update hcallers
  rw [hpc, hx, show Caller.idle.counted.toNat = 0 from rfl, Bool.toNat_true] at hcontending
  rw [hpc, show Caller.idle.owns.toNat = 0 from rfl] at howners
  refine ⟨by rw [hatomic]; omega, ?_, fun hzero => absurd hzero (by omega)⟩
  rw [hsem]
  by_cases hfree : s.atomic = 0
  · -- nobody contends, so there is no token yet
    have hnone := h.no_token (by rw [← h.atomic_eq, hfree]; exact toNat_zero)
    have hxle := Bool.toNat_le x.owns
    omega
  · have hle := h.token_le
    rw [howns hfree, Bool.toNat_false] at howners
    omega

/-- `fetch_sub` by the owner of the guard. The token stays with it if others contend. -/
theorem drop_guard (h : Inv s) {x : Caller} (hpc : s.callers c = .guard)
    (hatomic : s'.atomic = s.atomic - 1) (hsem : s'.semaphore = s.semaphore)
    (hcallers : s'.callers = Function.update s.callers c x) (hx : x.counted = false)
    (howns : s.atomic.toNat = 1 → x.owns = false) : Inv s' := by
  have hsub := toNat_sub_one (h.atomic_ne_zero (c := c) (by rw [hpc]; rfl))
  have hcontending := contending_update hcallers
  have howners := owners_update hcallers
  have hle := h.token_le
  have heq := h.atomic_eq
  have hxle := Bool.toNat_le x.owns
  rw [hpc, hx, show Caller.guard.counted.toNat = 1 from rfl, Bool.toNat_false] at hcontending
  rw [hpc, show Caller.guard.owns.toNat = 1 from rfl] at howners
  refine ⟨by rw [hatomic]; omega, by rw [hsem]; omega, fun hzero => ?_⟩
  rw [howns (by omega), Bool.toNat_false] at howners
  rw [hsem]
  omega

/-- Every step preserves the invariant, as long as the counter does not wrap. -/
theorem move (h : Inv s) (hfew : a = .lock → s.contending < (usizeMax p).toNat)
    (hm : Move s c a s') : Inv s' := by
  cases hm with
  | take hpc hzero => exact h.enter (hfew rfl) hpc rfl rfl rfl rfl (absurd hzero)
  | queue hpc hzero => exact h.enter (hfew rfl) hpc rfl rfl rfl rfl (fun _ => rfl)
  | wake hpc hsem =>
    -- the unit of the semaphore becomes the guard
    have hcount := Semaphore.count_wait hsem
    refine h.pass_token (c := c) rfl rfl (by rw [hpc]; rfl) ?_
    rw [hpc]
    show 1 + _ ≤ 0 + _
    dsimp only [State.setCaller]
    omega
  | waitFails hpc => exact h.pass_token rfl rfl (by rw [hpc]; rfl) (by rw [hpc]; exact Nat.le_refl _)
  | invalid hpc hzero =>
    exact h.drop_guard hpc rfl rfl rfl (dropError_free _).1 (fun _ => (dropError_free _).2)
  | free hpc hone hzero => exact h.drop_guard hpc rfl rfl rfl rfl (fun _ => rfl)
  | handOver hpc hzero hone =>
    refine h.drop_guard hpc rfl rfl rfl rfl (fun htwo => absurd ?_ hone)
    exact BitVec.eq_of_toNat_eq (htwo.trans toNat_one.symm)
  | release hpc hsem =>
    -- the releaser puts the token into the semaphore
    have hcount := Semaphore.count_release hsem
    refine h.pass_token (c := c) rfl rfl (by rw [hpc]; rfl) ?_
    rw [hpc]
    show 0 + _ ≤ 1 + _
    dsimp only [State.setCaller]
    omega
  | full hpc hsem | releaseFails hpc =>
    refine h.pass_token (c := c) rfl rfl (by rw [hpc]; exact (dropError_free _).1) ?_
    rw [hpc, (dropError_free _).2]
    exact Nat.add_le_add_right (Nat.zero_le _) _

end Inv

/-! ## Mutual exclusion -/

/-- Fewer than `usize::MAX` callers contend. -/
def FewContend (e : State p ι × ι × Act) : Prop := e.1.contending < (usizeMax p).toNat

instance (e : State p ι × ι × Act) : Decidable (FewContend e) :=
  inferInstanceAs (Decidable (_ < _))

theorem inv_of_run {h : List (State p ι × ι × Act)} {s : State p ι} (hr : Run (system p ι) h s)
    (hfew : ∀ e ∈ h, FewContend e) : Inv s := by
  refine hr.invariant_of FewContend Inv ?_ ?_ hfew
  · rintro s rfl
    exact inv_fresh
  · intro s e s' hi hfew hs
    exact hi.move (fun _ => hfew) (move_of_step hs)

/-- At most one `MutexGuard` exists, one that is halfway through its `drop` included. -/
theorem one_guard {h : List (State p ι × ι × Act)} {s : State p ι} (hr : Run (system p ι) h s)
    (hfew : ∀ e ∈ h, FewContend e) {c c' : ι} (hc : (s.callers c).owns = true)
    (hc' : (s.callers c').owns = true) : c = c' := by
  have hle : s.owners ≤ 1 := Nat.le_trans (Nat.le_add_right _ _) (inv_of_run hr hfew).token_le
  exact eq_of_census_le_one hle hc hc'

end Counts

/-- The lock is handed to a waiter; somebody else arrives between the two steps of the releaser. -/
theorem one_guard_handed_over : ∃ h s, Run (system .w64 (Fin 3)) h s ∧ s.callers 1 = .guard ∧
    s.callers 2 = .waiting ∧ ∀ c, (s.callers c).owns = true → c = 1 := by
  have hr : Run (system .w64 (Fin 3)) _ _ :=
    Run.of_replay [(0, .lock), (1, .lock), (0, .drop false), (2, .lock), (0, .release), (1, .wait)]
      rfl rfl
  exact ⟨_, _, hr, by decide, by decide, fun c hc => one_guard hr (by decide) hc (by decide)⟩

end SandboxIpc.ThinLock
