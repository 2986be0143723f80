import SandboxIpc.Infra.Run
import Mathlib.Logic.Function.Basic

/-!
# The poison flag of a mutex, `sync.rs`

The flag lies in shared memory next to the platform mutex. `MutexGuard::drop` sets it when the
thread is panicking, before the platform guard unlocks; `lock` reads it after the platform mutex is
locked; `with_inner`, which both `new_with_memory` and `from_handle` go through, clears it.

The platform mutex is taken by its contract here: it is held by one caller at a time.

* `step` — one access to the flag or to the platform mutex
* `Exact` — poison is permanent, and `lock` reports it exactly
* `poison_exact` — it does so as long as no instance is attached to a poisoned mutex
* `attach_unpoisons` — and attaching one clears the flag for everybody
-/

namespace SandboxIpc.Poison

open Infra

variable {ι : Type}

/-- Where a `lock` call and the guard it returns stand. -/
inductive Caller
  | idle
  /-- In `lock`, past the platform mutex, about to load the flag. -/
  | acquired
  /-- Owns a `MutexGuard`, inside a `PoisonError` if `poisoned`. -/
  | guard (poisoned : Bool)
  /-- In the drop of a `MutexGuard`, about to drop the platform guard. -/
  | unlocking
  deriving DecidableEq

/-- The flag, whether the platform mutex is locked, and every caller. -/
structure State (ι : Type) where
  poison : Bool
  locked : Bool
  callers : ι → Caller

inductive Act (ι : Type)
  /-- A `from_handle` that passes the checks of `with_inner` stores to the flag. -/
  | fromHandle
  /-- The platform mutex is locked. -/
  | lock (c : ι)
  /-- `lock` loads the flag and returns. -/
  | load (c : ι)
  /-- `MutexGuard::drop`; `panicking` is `thread::panicking()`. -/
  | drop (c : ι) (panicking : Bool)
  /-- The platform mutex is unlocked. -/
  | unlock (c : ι)
  deriving DecidableEq

variable [DecidableEq ι]

def State.setCaller (s : State ι) (c : ι) (x : Caller) : State ι :=
  { s with callers := Function.update s.callers c x }

def step (s : State ι) : Act ι → Option (State ι)
  | .fromHandle => some { s with poison := false }
  | .lock c =>
    if s.callers c = .idle ∧ s.locked = false then
      some <| { s with locked := true }.setCaller c .acquired
    else none
  | .load c => if s.callers c = .acquired then some <| s.setCaller c (.guard s.poison) else none
  | .drop c panicking =>
    match s.callers c with
    | .guard _ => some <| { s with poison := panicking || s.poison }.setCaller c .unlocking
    | _ => none
  | .unlock c =>
    if s.callers c = .unlocking then some <| { s with locked := false }.setCaller c .idle else none

/-- The mutex `new_with_memory` makes. -/
def fresh (ι : Type) : State ι := { poison := false, locked := false, callers := fun _ => .idle }

def system (ι : Type) [DecidableEq ι] : System (State ι) (Act ι) where
  init s := s = fresh ι
  step := step

/-! ## What a step does to the flag -/

/-- A guard is dropped by a panicking thread. -/
def PanickingDrop (e : State ι × Act ι) : Prop := ∃ c, e.2 = .drop c true

/-- A `from_handle` that gets as far as the store finds the flag clear. -/
def AttachesClear (e : State ι × Act ι) : Prop := e.2 = .fromHandle → e.1.poison = false

instance (e : State ι × Act ι) : Decidable (AttachesClear e) :=
  inferInstanceAs (Decidable (_ → _))

/-- Apart from `from_handle`, the flag changes at the drop of a guard only. -/
theorem poison_step {s s' : State ι} {a : Act ι} (hs : step s a = some s')
    (hclear : AttachesClear (s, a)) :
    s'.poison = true ↔ s.poison = true ∨ PanickingDrop (s, a) := by
  unfold PanickingDrop
  cases a with
  | fromHandle =>
    -- the store changes nothing where the flag is clear already
    obtain rfl := Option.some.inj hs
    simpa using hclear rfl
  | lock c | load c | unlock c =>
    obtain ⟨-, heq⟩ := Option.ite_none_right_eq_some.mp hs
    obtain rfl := Option.some.inj heq
    simp [State.setCaller]
  | drop c panicking =>
    dsimp only [step] at hs
    split at hs
    · obtain rfl := Option.some.inj hs
      simp [State.setCaller, or_comm]
    · cases hs

/-- `lock` returns what it loads. -/
theorem load_returns {s s' : State ι} {c : ι} {poisoned : Bool} (hs : step s (.load c) = some s')
    (hc : s'.callers c = .guard poisoned) : poisoned = s.poison := by
  obtain ⟨-, heq⟩ := Option.ite_none_right_eq_some.mp hs
  obtain rfl := Option.some.inj heq
  have hc : Function.update s.callers c (.guard s.poison) c = .guard poisoned := hc
  rw [Function.update_self] at hc
  exact (Caller.guard.inj hc).symm

/-! ## Whole runs -/

/-- Poison is permanent and exact. -/
structure Exact (h : List (State ι × Act ι)) (s : State ι) : Prop where
  /-- `lock` returns `Err` if and only if an earlier guard was dropped by a panicking thread. -/
  exact : ∀ h₁ e h₂ c s' poisoned, h = h₁ ++ e :: h₂ → e.2 = .load c → step e.1 e.2 = some s' →
    s'.callers c = .guard poisoned → (poisoned = true ↔ ∃ e' ∈ h₁, PanickingDrop e')
  /-- Nothing clears the flag. -/
  permanent : (∃ e ∈ h, PanickingDrop e) → s.poison = true

theorem poison_iff {h : List (State ι × Act ι)} {s : State ι} (hr : Run (system ι) h s)
    (hclear : ∀ e ∈ h, AttachesClear e) : s.poison = true ↔ ∃ e ∈ h, PanickingDrop e := by
  refine hr.history AttachesClear (fun h s => s.poison = true ↔ ∃ e ∈ h, PanickingDrop e)
    ?_ ?_ hclear
  · rintro s rfl
    simp [fresh]
  · intro h s a s' _ _ ih hc hs
    rw [poison_step hs hc, ih, exists_mem_snoc]

/--
Poison is permanent and exact in every run in which no instance is attached while the flag is set.
-/
theorem poison_exact {h : List (State ι × Act ι)} {s : State ι} (hr : Run (system ι) h s)
    (hclear : ∀ e ∈ h, AttachesClear e) : Exact h s where
  exact := by
    rintro h₁ ⟨s₁, a⟩ h₂ c s' poisoned rfl rfl hs hc
    rw [load_returns hs hc]
    exact poison_iff hr.split.1 fun e he => hclear e (List.mem_append_left _ he)
  permanent := (poison_iff hr hclear).mpr

/-- A panicking drop poisons the mutex for the next caller. -/
theorem poison_exact_two : ∃ h s, Run (system (Fin 2)) h s ∧ s.callers 1 = .guard true ∧
    Exact h s := by
  have hr : Run (system (Fin 2)) _ _ :=
    Run.of_replay
      [.fromHandle, .lock 0, .load 0, .drop 0 true, .unlock 0, .lock 1, .load 1] rfl rfl
  exact ⟨_, _, hr, by decide, poison_exact hr (by decide)⟩

/-- Attaching an instance clears the flag: the next `lock` returns `Ok`. -/
theorem attach_unpoisons : ∃ h s, Run (system (Fin 2)) h s ∧ s.callers 1 = .guard false ∧
    ¬ Exact h s := by
  have hr : Run (system (Fin 2)) _ _ :=
    Run.of_replay
      [.lock 0, .load 0, .drop 0 true, .unlock 0, .fromHandle, .lock 1, .load 1] rfl rfl
  refine ⟨_, _, hr, by decide, fun hexact => ?_⟩
  exact absurd (hexact.permanent ⟨_, .tail _ (.tail _ (.head _)), 0, rfl⟩) (by decide)

end SandboxIpc.Poison
