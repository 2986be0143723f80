import SandboxIpc.Infra.Monitor
import SandboxIpc.Sync.Poison
import SandboxIpc.Windows.ThinLock

/-!
# The mutex of `sync.rs` on Windows

`Poison` takes the platform mutex by its contract: it is held by one caller at a time. Here it is
the thin lock, with the flag of `sync.rs` around it: `lock` locks the platform mutex and then loads
the flag; `MutexGuard::drop` stores to the flag if the thread is panicking, and then the platform
guard is dropped. What the mutex protects is a value that only the owner of a guard works on.

* `step` — one atomic operation of one caller
* `run_lock`, `run_contract` — the thin lock does what it does by itself, and it meets the contract
* `serial_of_run` — what the owners of the guards do is one critical section after the other
* `protects` — all of this for every run
-/

namespace SandboxIpc.OnThinLock

open Infra

variable {p : PointerWidth} {ι α : Type}

/-- Where a caller stands in `sync.rs`. -/
inductive Caller
  /-- Outside, or in the lock or drop of the platform mutex without holding it. -/
  | idle
  /-- In `lock`, past the platform mutex, about to load the flag. -/
  | acquired
  /-- Owns a `MutexGuard`, inside a `PoisonError` if `poisoned`. -/
  | guard (poisoned : Bool)
  /-- In the drop of a `MutexGuard`, about to drop the platform guard. -/
  | unlocking (panicking : Bool)
  deriving DecidableEq

/-- The thin lock, the flag, every caller, and the value that the mutex protects. -/
structure State (p : PointerWidth) (ι α : Type) where
  lock : ThinLock.State p ι
  poison : Bool
  callers : ι → Caller
  value : α

/-- What a caller does in one step. -/
inductive Act (α : Type)
  /-- A `from_handle` that passes the checks of `with_inner` stores to the flag. -/
  | fromHandle
  /-- A step of the platform mutex. -/
  | platform (a : ThinLock.Act)
  /-- `lock` loads the flag and returns. -/
  | load
  /-- The owner of a guard uses what the mutex protects. -/
  | modify (f : α → α)
  /-- `MutexGuard::drop`; `panicking` is `thread::panicking()`. -/
  | drop (panicking : Bool)

variable [DecidableEq ι]

def State.setCaller (s : State p ι α) (c : ι) (x : Caller) : State p ι α :=
  { s with callers := Function.update s.callers c x }

/-- One step of caller `e.1`. -/
def step (s : State p ι α) (e : ι × Act α) : Option (State p ι α) :=
  let c := e.1
  match s.callers c, e.2 with
  | _, .fromHandle => some { s with poison := false }
  -- the platform guard is dropped once and for all in the drop of its owner, see below
  | .idle, .platform (.drop _) => none
  | .idle, .platform a =>
    (ThinLock.step s.lock (c, a)).map fun (lock : ThinLock.State p ι) =>
      { s with lock }.setCaller c
        (if lock.callers c = ThinLock.Caller.guard then .acquired else .idle)
  | .acquired, .load => some <| s.setCaller c (.guard s.poison)
  | .guard _, .modify f => some { s with value := f s.value }
  | .guard _, .drop panicking =>
    some <| { s with poison := panicking || s.poison }.setCaller c (.unlocking panicking)
  | .unlocking panicking, .platform (.drop panicking') =>
    if panicking' = panicking then
      (ThinLock.step s.lock (c, .drop panicking)).map fun (lock : ThinLock.State p ι) =>
        { s with lock }.setCaller c .idle
    else none
  | _, _ => none

/-- A new mutex around the value `v`. -/
def fresh (p : PointerWidth) (ι : Type) (v : α) : State p ι α where
  lock := ThinLock.fresh p ι
  poison := false
  callers := fun _ => .idle
  value := v

def system (p : PointerWidth) (ι : Type) [DecidableEq ι] (v : α) :
    System (State p ι α) (ι × Act α) where
  init s := s = fresh p ι v
  step := step

/-! ## What a step can do -/

/-- `Move s c a s'`: by action `a`, caller `c` takes `s` to `s'`. -/
inductive Move (s : State p ι α) (c : ι) : Act α → State p ι α → Prop
  | fromHandle : Move s c .fromHandle { s with poison := false }
  /-- The platform mutex is locked. -/
  | locked {a : ThinLock.Act} {lock : ThinLock.State p ι} : s.callers c = .idle →
      (∀ panicking, a ≠ .drop panicking) → ThinLock.step s.lock (c, a) = some lock →
      lock.callers c = .guard →
      Move s c (.platform a) ({ s with lock }.setCaller c .acquired)
  /-- A step of the platform mutex on the way there, or after its guard is gone. -/
  | platform {a : ThinLock.Act} {lock : ThinLock.State p ι} : s.callers c = .idle →
      (∀ panicking, a ≠ .drop panicking) → ThinLock.step s.lock (c, a) = some lock →
      lock.callers c ≠ .guard → Move s c (.platform a) { s with lock }
  | load : s.callers c = .acquired → Move s c .load (s.setCaller c (.guard s.poison))
  | modify {poisoned : Bool} {f : α → α} : s.callers c = .guard poisoned →
      Move s c (.modify f) { s with value := f s.value }
  | drop {poisoned panicking : Bool} : s.callers c = .guard poisoned →
      Move s c (.drop panicking)
        ({ s with poison := panicking || s.poison }.setCaller c (.unlocking panicking))
  | unlocked {panicking : Bool} {lock : ThinLock.State p ι} : s.callers c = .unlocking panicking →
      ThinLock.step s.lock (c, .drop panicking) = some lock →
      Move s c (.platform (.drop panicking)) ({ s with lock }.setCaller c .idle)

theorem move_of_step {s s' : State p ι α} {c : ι} {a : Act α} (h : step s (c, a) = some s') :
    Move s c a s' := by
  unfold step at h
  dsimp only at h
  split at h
  · obtain rfl := Option.some.inj h; exact .fromHandle
  · cases h
  · next a hno hpc =>
    obtain ⟨lock, hlock, rfl⟩ := Option.map_eq_some_iff.mp h
    have hdrop : ∀ panicking, a ≠ .drop panicking := by
      rintro panicking rfl
      exact hno _ rfl
    split
    · next hguard => exact .locked hpc hdrop hlock hguard
    · next hguard =>
      have hsame : { s with lock }.setCaller c .idle = { s with lock } := by
        unfold State.setCaller
        rw [← hpc, Function.update_eq_self]
      rw [hsame]
      exact .platform hpc hdrop hlock hguard
  · next hpc => obtain rfl := Option.some.inj h; exact .load hpc
  · next hpc => obtain rfl := Option.some.inj h; exact .modify hpc
  · next hpc => obtain rfl := Option.some.inj h; exact .drop hpc
  · next hpc =>
    split at h
    · next heq =>
      obtain ⟨lock, hlock, rfl⟩ := Option.map_eq_some_iff.mp h
      subst heq
      exact .unlocked hpc hlock
    · cases h
  · cases h

section Fields

variable (s : State p ι α) (c : ι) (x : Caller)

@[simp] theorem setCaller_lock : (s.setCaller c x).lock = s.lock := rfl

@[simp] theorem setCaller_poison : (s.setCaller c x).poison = s.poison := rfl

@[simp] theorem setCaller_value : (s.setCaller c x).value = s.value := rfl

@[simp] theorem setCaller_callers :
    (s.setCaller c x).callers = Function.update s.callers c x := rfl

end Fields

/-! ## The thin lock -/

section ThinLock

variable {l l' : ThinLock.State p ι} {c d : ι} {a : ThinLock.Act}

theorem callers_of_step (hs : ThinLock.step l (c, a) = some l') (hd : d ≠ c) :
    l'.callers d = l.callers d := by
  cases ThinLock.move_of_step hs <;> exact Function.update_of_ne hd ..

/-- A guard is given up in its drop only. -/
theorem guard_of_drop {panicking : Bool} (hs : ThinLock.step l (c, .drop panicking) = some l') :
    l'.callers c ≠ .guard := by
  cases ThinLock.move_of_step hs with
  | invalid => cases panicking <;> simp [ThinLock.State.setCaller, ThinLock.dropError]
  | free | handOver => simp [ThinLock.State.setCaller]

/-- Who gets the guard finds that nobody has it. -/
theorem free_of_guard [Fintype ι] (hi : ThinLock.Inv l)
    (hs : ThinLock.step l (c, a) = some l') (hguard : l'.callers c = .guard)
    (ha : ∀ panicking, a ≠ .drop panicking) : l.callers d ≠ .guard := by
  intro hd
  have howns : 0 < l.owners := census_pos (c := d) (by rw [hd]; rfl)
  cases ThinLock.move_of_step hs with
  | take hpc hzero =>
    exact hi.atomic_ne_zero (c := d) (by rw [hd]; rfl) hzero
  | wake hpc hwait =>
    have := ThinLock.Semaphore.count_wait hwait
    have := hi.token_le
    omega
  | full hpc | releaseFails hpc =>
    simp [ThinLock.State.setCaller, ThinLock.dropError] at hguard
    split at hguard <;> cases hguard
  | queue | waitFails | release => simp [ThinLock.State.setCaller] at hguard
  | invalid | free | handOver => exact ha _ rfl

end ThinLock

/-- Fewer than `usize::MAX` callers contend. -/
def FewContend [Fintype ι] (e : State p ι α × ι × Act α) : Prop :=
  e.1.lock.contending < (usizeMax p).toNat

instance [Fintype ι] (e : State p ι α × ι × Act α) : Decidable (FewContend e) :=
  inferInstanceAs (Decidable (_ < _))

/-- The step of the platform mutex that this step is. -/
def platformStep (e : State p ι α × ι × Act α) : Option (ι × ThinLock.Act) :=
  match e.2.2 with
  | .platform a => some (e.2.1, a)
  | _ => none

/-- Who is past the lock of the platform mutex has its guard. -/
def Linked (s : State p ι α) : Prop := ∀ c, s.lock.callers c = .guard ↔ s.callers c ≠ .idle

section Runs

variable {v : α} {h : List (State p ι α × ι × Act α)} {s s' : State p ι α} {c : ι}

theorem Linked.move (hl : Linked s) {a : Act α} (hm : Move s c a s') : Linked s' := by
  intro d
  cases hm with
  | fromHandle | modify => exact hl d
  | locked hpc _ hs hguard =>
    by_cases hd : d = c
    · subst hd
      simp [hguard]
    · simpa [hd, callers_of_step hs hd] using hl d
  | platform hpc _ hs hguard =>
    by_cases hd : d = c
    · subst hd
      simp [hguard, hpc]
    · simpa [callers_of_step hs hd] using hl d
  | load hpc | drop hpc =>
    by_cases hd : d = c
    · subst hd
      simp [hl d, hpc]
    · simpa [hd] using hl d
  | unlocked hpc hs =>
    by_cases hd : d = c
    · subst hd
      simp [guard_of_drop hs]
    · simpa [hd, callers_of_step hs hd] using hl d

theorem linked_of_run (hr : Run (system p ι v) h s) : Linked s := by
  refine hr.ledger (fun _ s => Linked s) ?_ fun _ _ _ _ hl hs => hl.move (move_of_step hs)
  rintro s rfl c
  simp [fresh, ThinLock.fresh]

/-- The platform mutex takes the steps of the thin lock. -/
theorem run_lock (hr : Run (system p ι v) h s) :
    Run (ThinLock.system p ι) (image State.lock platformStep h) s.lock := by
  refine hr.mapped _ _ _ ?_ ?_
  · rintro s rfl
    rfl
  · rintro h s ⟨c, a⟩ s' hr hs
    cases move_of_step hs with
    | locked hpc ha hlock | platform hpc ha hlock | unlocked hpc hlock =>
      refine ⟨?_, nofun⟩
      rintro e he
      obtain rfl := Option.some.inj he
      exact hlock
    | _ => exact ⟨nofun, fun _ => rfl⟩

variable [Fintype ι]

theorem inv_of_run (hr : Run (system p ι v) h s) (hfew : ∀ e ∈ h, FewContend e) :
    ThinLock.Inv s.lock := by
  refine ThinLock.inv_of_run (run_lock hr) fun x hx => ?_
  obtain ⟨e, he, hlock, -⟩ := exists_of_mem_image hx
  have hlt := hfew e he
  unfold FewContend at hlt
  rw [hlock] at hlt
  exact hlt

end Runs

/-! ## The contract -/

/-- Where the caller stands, if the platform mutex is taken by its contract. -/
def Caller.contract : Caller → Poison.Caller
  | .idle => .idle
  | .acquired => .acquired
  | .guard poisoned => .guard poisoned
  | .unlocking _ => .unlocking

/-- The platform mutex by its contract: locked or not. -/
def State.contract [Fintype ι] (s : State p ι α) : Poison.State ι where
  poison := s.poison
  locked := decide (∃ c, s.callers c ≠ .idle)
  callers := fun c => (s.callers c).contract

/-- The caller gets the guard of the platform mutex in this step. -/
def locks (s : State p ι α) (c : ι) (a : ThinLock.Act) : Bool :=
  ((ThinLock.step s.lock (c, a)).map fun (lock : ThinLock.State p ι) =>
    decide (lock.callers c = ThinLock.Caller.guard)).getD false

/-- What the step is, if the platform mutex is taken by its contract. -/
def contractStep (e : State p ι α × ι × Act α) : Option (Poison.Act ι) :=
  match e.1.callers e.2.1, e.2.2 with
  | _, .fromHandle => some .fromHandle
  | .idle, .platform a => if locks e.1 e.2.1 a then some (.lock e.2.1) else none
  | .unlocking _, .platform _ => some (.unlock e.2.1)
  | _, .load => some (.load e.2.1)
  | _, .drop panicking => some (.drop e.2.1 panicking)
  | _, _ => none

/-- What the step is for the value: a critical section begins or ends, or the value is used. -/
def sectionStep (e : State p ι α × ι × Act α) : Option (ι × Monitor.Op α) :=
  match e.1.callers e.2.1, e.2.2 with
  | .idle, .platform a => if locks e.1 e.2.1 a then some (e.2.1, .enter) else none
  | .unlocking _, .platform _ => some (e.2.1, .leave)
  | _, .modify f => some (e.2.1, .modify f)
  | _, _ => none

section Runs

variable [Fintype ι] {v : α} {h : List (State p ι α × ι × Act α)} {s s' : State p ι α} {c d : ι}

omit [Fintype ι] in
theorem locks_eq {a : ThinLock.Act} {lock : ThinLock.State p ι}
    (hs : ThinLock.step s.lock (c, a) = some lock) :
    locks s c a = decide (lock.callers c = .guard) := by
  simp [locks, hs]

omit [DecidableEq ι] in
/-- At most one caller is past the lock of the platform mutex. -/
theorem eq_of_not_idle (hl : Linked s) (hi : ThinLock.Inv s.lock) (hc : s.callers c ≠ .idle)
    (hd : s.callers d ≠ .idle) : d = c := by
  have hle : s.lock.owners ≤ 1 := Nat.le_trans (Nat.le_add_right _ _) hi.token_le
  exact eq_of_census_le_one hle (by rw [(hl d).mpr hd]; rfl) (by rw [(hl c).mpr hc]; rfl)

/-- Who gets the platform mutex finds that everybody else is outside. -/
theorem idle_of_locked (hl : Linked s) (hi : ThinLock.Inv s.lock) {a : ThinLock.Act}
    {lock : ThinLock.State p ι} (ha : ∀ panicking, a ≠ .drop panicking)
    (hs : ThinLock.step s.lock (c, a) = some lock) (hguard : lock.callers c = .guard) (d : ι) :
    s.callers d = .idle := by
  by_contra hd
  exact free_of_guard hi hs hguard ha ((hl d).mpr hd)

/-- Once the owner has left, everybody is outside. -/
theorem idle_of_unlocked (hl : Linked s) (hi : ThinLock.Inv s.lock) (hc : s.callers c ≠ .idle)
    (d : ι) : (Function.update s.callers c .idle) d = .idle := by
  by_cases hd : d = c
  · rw [hd, Function.update_self]
  · rw [Function.update_of_ne hd]
    by_contra hne
    exact hd (eq_of_not_idle hl hi hc hne)

omit [Fintype ι] in
/-- Callers move in the contract as they move here. -/
theorem contract_setCaller (s : State p ι α) (c : ι) (x : Caller) :
    (fun d => ((s.setCaller c x).callers d).contract)
      = Function.update (fun d => (s.callers d).contract) c x.contract := by
  funext d
  by_cases hd : d = c
  · subst hd; simp
  · simp [hd]

omit [DecidableEq ι] in
theorem eq_contract {t : Poison.State ι} (hpoison : t.poison = s.poison)
    (hlocked : t.locked = decide (∃ c, s.callers c ≠ .idle))
    (hcallers : t.callers = fun c => (s.callers c).contract) : t = s.contract := by
  cases t
  simp_all [State.contract]

/-- A step of the contract, or none. -/
theorem Move.contract (hl : Linked s) (hi : ThinLock.Inv s.lock) {a : Act α} (hm : Move s c a s') :
    (∀ b, contractStep (s, c, a) = some b → Poison.step s.contract b = some s'.contract) ∧
      (contractStep (s, c, a) = none → s'.contract = s.contract) := by
  cases hm with
  | fromHandle =>
    refine ⟨?_, nofun⟩
    intro b hb
    obtain rfl := Option.some.inj hb
    rfl
  | modify hpc => simp [contractStep, State.contract]
  | @platform a lock hpc ha hs hguard =>
    simp [contractStep, hpc, locks_eq hs, hguard, State.contract]
  | @locked a lock hpc ha hs hguard =>
    have hstep : contractStep (s, c, .platform a) = some (.lock c) := by
      simp [contractStep, hpc, locks_eq hs, hguard]
    have hidle := idle_of_locked hl hi ha hs hguard
    rw [hstep]
    refine ⟨?_, nofun⟩
    intro b hb
    obtain rfl := Option.some.inj hb
    have hfree : s.contract.callers c = .idle ∧ s.contract.locked = false := by
      simp [State.contract, hidle, Caller.contract]
    dsimp only [Poison.step]
    rw [if_pos hfree]
    refine congrArg some (eq_contract rfl ?_ (contract_setCaller _ c .acquired).symm)
    exact (decide_eq_true ⟨c, by simp⟩).symm
  | load hpc =>
    have hstep : contractStep (s, c, .load) = some (.load c) := by simp [contractStep]
    rw [hstep]
    refine ⟨?_, nofun⟩
    intro b hb
    obtain rfl := Option.some.inj hb
    have hacquired : s.contract.callers c = .acquired := by
      simp [State.contract, hpc, Caller.contract]
    dsimp only [Poison.step]
    rw [if_pos hacquired]
    refine congrArg some (eq_contract rfl ?_ (contract_setCaller _ c (.guard s.poison)).symm)
    exact (decide_eq_true ⟨c, by simp [hpc]⟩).trans (decide_eq_true ⟨c, by simp⟩).symm
  | @drop poisoned panicking hpc =>
    have hstep : contractStep (s, c, .drop panicking) = some (.drop c panicking) := by
      simp [contractStep]
    rw [hstep]
    refine ⟨?_, nofun⟩
    intro b hb
    obtain rfl := Option.some.inj hb
    have hguard : s.contract.callers c = .guard poisoned := by
      simp [State.contract, hpc, Caller.contract]
    dsimp only [Poison.step]
    rw [hguard]
    refine congrArg some (eq_contract rfl ?_ (contract_setCaller _ c (.unlocking panicking)).symm)
    exact (decide_eq_true ⟨c, by simp [hpc]⟩).trans (decide_eq_true ⟨c, by simp⟩).symm
  | @unlocked panicking lock hpc hs =>
    have hstep : contractStep (s, c, .platform (.drop panicking)) = some (.unlock c) := by
      simp [contractStep, hpc]
    have hidle := idle_of_unlocked hl hi (c := c) (by simp [hpc])
    rw [hstep]
    refine ⟨?_, nofun⟩
    intro b hb
    obtain rfl := Option.some.inj hb
    have hunlocking : s.contract.callers c = .unlocking := by
      simp [State.contract, hpc, Caller.contract]
    dsimp only [Poison.step]
    rw [if_pos hunlocking]
    refine congrArg some (eq_contract rfl ?_ (contract_setCaller _ c .idle).symm)
    exact (decide_eq_false fun ⟨d, hd⟩ => hd (hidle d)).symm

/-- The thin lock meets the contract. -/
theorem run_contract (hr : Run (system p ι v) h s) (hfew : ∀ e ∈ h, FewContend e) :
    Run (Poison.system ι) (image State.contract contractStep h) s.contract := by
  refine hr.mapped_of _ _ _ FewContend ?_ ?_ hfew
  · rintro s rfl
    simp [Poison.system, State.contract, fresh, Poison.fresh, Caller.contract]
  · rintro h s ⟨c, a⟩ s' hr hpre - hs
    exact (move_of_step hs).contract (linked_of_run hr) (inv_of_run hr hpre)

/-! ## The critical sections -/

/-- The monitor is in this state: its owner is the one caller past the platform mutex. -/
def Shown (s : State p ι α) (t : Monitor ι α) : Prop :=
  (∀ c, t.owner = some c ↔ s.callers c ≠ .idle) ∧ t.value = s.value

/-- A step of the monitor, or none. -/
theorem Move.shown (hl : Linked s) (hi : ThinLock.Inv s.lock) {t : Monitor ι α} (ht : Shown s t)
    {a : Act α} (hm : Move s c a s') :
    ∃ t', (Monitor.system v).Goes (fun e => some e.2) t (sectionStep (s, c, a)).toList t' ∧
      Shown s' t' := by
  obtain ⟨howner, hvalue⟩ := ht
  -- a caller that is past the platform mutex and stays there
  have hstays : ∀ {x : Caller}, s.callers c ≠ .idle → x ≠ .idle →
      ∀ d, t.owner = some d ↔ (Function.update s.callers c x) d ≠ .idle := by
    intro x hc hx d
    rw [howner]
    by_cases hd : d = c
    · subst hd; simp [hc, hx]
    · simp [hd]
  cases hm with
  | fromHandle => exact ⟨t, by simpa [sectionStep] using .refl t, howner, hvalue⟩
  | @platform a lock hpc ha hs hguard =>
    refine ⟨t, ?_, howner, hvalue⟩
    simpa [sectionStep, hpc, locks_eq hs, hguard] using .refl t
  | load hpc =>
    refine ⟨t, ?_, hstays (by simp [hpc]) nofun, hvalue⟩
    simpa [sectionStep, hpc] using .refl t
  | drop hpc =>
    refine ⟨t, ?_, hstays (by simp [hpc]) nofun, hvalue⟩
    simpa [sectionStep, hpc] using .refl t
  | @locked a lock hpc ha hs hguard =>
    have hidle := idle_of_locked hl hi ha hs hguard
    have hfree : t.owner = none := by
      rw [Option.eq_none_iff_forall_ne_some]
      intro d hd
      exact (howner d).mp hd (hidle d)
    refine ⟨{ t with owner := some c }, ?_, fun d => ?_, hvalue⟩
    · rw [show sectionStep (s, c, .platform a) = some (c, .enter) by
        simp [sectionStep, hpc, locks_eq hs, hguard]]
      exact .step (if_pos hfree)
    · by_cases hd : d = c
      · subst hd; simp
      · simp [hd, Ne.symm hd, hidle d]
  | @modify poisoned f hpc =>
    refine ⟨{ t with value := f t.value }, ?_, howner, congrArg f hvalue⟩
    rw [show sectionStep (s, c, .modify f) = some (c, .modify f) by simp [sectionStep, hpc]]
    exact .step (if_pos ((howner c).mpr (by simp [hpc])))
  | @unlocked panicking lock hpc hs =>
    have hidle := idle_of_unlocked hl hi (c := c) (by simp [hpc])
    refine ⟨{ t with owner := none }, ?_, fun d => ?_, hvalue⟩
    · rw [show sectionStep (s, c, .platform (.drop panicking)) = some (c, .leave) by
        simp [sectionStep, hpc]]
      exact .step (if_pos ((howner c).mpr (by simp [hpc])))
    · simp [hidle d]

/-- What the owners of the guards do is one critical section after the other. -/
theorem serial_of_run (hr : Run (system p ι v) h s) (hfew : ∀ e ∈ h, FewContend e) :
    ∃ t done current, Monitor.Serial v (trace sectionStep h) t done current ∧ Shown s t := by
  obtain ⟨k, t, hk, hshown, htrace⟩ := hr.simulated (Monitor.system v) sectionStep
    (fun e => some e.2) FewContend Shown
    (by
      rintro s rfl
      exact ⟨_, rfl, by simp [fresh], rfl⟩)
    (by
      rintro h s ⟨c, a⟩ s' t hr hpre ht - hs
      exact (move_of_step hs).shown (linked_of_run hr) (inv_of_run hr hpre) ht)
    hfew
  obtain ⟨done, current, hserial⟩ := Monitor.serial_of_run hk
  rw [trace_all] at htrace
  rw [htrace] at hserial
  exact ⟨t, done, current, hserial, hshown⟩

/-! ## Poison -/

/-- A guard is dropped by a panicking thread. -/
def PanickingDrop (e : State p ι α × ι × Act α) : Prop := e.2.2 = .drop true

/-- A `from_handle` that gets as far as the store finds the flag clear. -/
def AttachesClear (e : State p ι α × ι × Act α) : Prop :=
  match e.2.2 with
  | .fromHandle => e.1.poison = false
  | _ => True

instance : (e : State p ι α × ι × Act α) → Decidable (AttachesClear e)
  | (s, _, .fromHandle) => inferInstanceAs (Decidable (s.poison = false))
  | (_, _, .platform _) | (_, _, .load) | (_, _, .modify _) | (_, _, .drop _) => isTrue trivial

omit [Fintype ι] in
theorem attachesClear_contract {e : State p ι α × ι × Act α} (hclear : AttachesClear e)
    (hstep : contractStep e = some .fromHandle) : e.1.poison = false := by
  obtain ⟨s, c, a⟩ := e
  cases a with
  | fromHandle => exact hclear
  | platform a =>
    unfold contractStep at hstep
    split at hstep <;> simp_all
  | load | modify | drop => simp [contractStep] at hstep

omit [Fintype ι] in
theorem panickingDrop_contract {e : State p ι α × ι × Act α} :
    (∃ c, contractStep e = some (.drop c true)) ↔ PanickingDrop e := by
  obtain ⟨s, c, a⟩ := e
  cases a with
  | platform a =>
    unfold contractStep PanickingDrop
    split <;> simp_all
  | fromHandle | load | modify | drop => simp [contractStep, PanickingDrop]

/-- The flag is set by panicking drops and by nothing else, and nothing clears it. -/
theorem poison_iff (hr : Run (system p ι v) h s) (hfew : ∀ e ∈ h, FewContend e)
    (hclear : ∀ e ∈ h, AttachesClear e) : s.poison = true ↔ ∃ e ∈ h, PanickingDrop e := by
  have hexact := Poison.poison_iff (run_contract hr hfew) fun x hx => by
    obtain ⟨e, he, hstate, hstep⟩ := exists_of_mem_image hx
    intro hfrom
    rw [← hstate]
    exact attachesClear_contract (hclear e he) (hstep.trans (congrArg some hfrom))
  refine hexact.trans ?_
  constructor
  · rintro ⟨x, hx, c, hdrop⟩
    obtain ⟨e, he, -, hstep⟩ := exists_of_mem_image hx
    exact ⟨e, he, panickingDrop_contract.mp ⟨c, hstep.trans (congrArg some hdrop)⟩⟩
  · rintro ⟨e, he, hdrop⟩
    obtain ⟨c, hstep⟩ := panickingDrop_contract.mpr hdrop
    exact ⟨_, mem_image he hstep, c, rfl⟩

/-- While a guard lives, what `lock` has returned with it is what the flag says. -/
theorem reported_of_run (hr : Run (system p ι v) h s) (hfew : ∀ e ∈ h, FewContend e)
    (hclear : ∀ e ∈ h, AttachesClear e) :
    ∀ c poisoned, s.callers c = .guard poisoned → poisoned = s.poison := by
  refine hr.history (fun e => FewContend e ∧ AttachesClear e)
    (fun _ s => ∀ c poisoned, s.callers c = .guard poisoned → poisoned = s.poison) ?_ ?_
    fun e he => ⟨hfew e he, hclear e he⟩
  · rintro s rfl c poisoned hc
    simp [fresh] at hc
  · rintro h s ⟨c, a⟩ s' hr hpre ih ⟨-, hclear⟩ hs d poisoned hd
    have hl := linked_of_run hr
    have hi := inv_of_run hr fun e he => (hpre e he).1
    cases move_of_step hs with
    | fromHandle => exact (ih d poisoned hd).trans hclear
    | platform | modify => exact ih d poisoned hd
    | locked hpc ha hlock hguard =>
      have hidle := idle_of_locked hl hi ha hlock hguard
      by_cases hdc : d = c
      · subst hdc; simp at hd
      · simp [hdc, hidle d] at hd
    | load hpc =>
      by_cases hdc : d = c
      · subst hdc
        simpa using hd.symm
      · exact ih d poisoned (by simpa [hdc] using hd)
    | drop hpc =>
      -- nobody else has a guard
      by_cases hdc : d = c
      · subst hdc; simp at hd
      · have hd : s.callers d = .guard poisoned := by simpa [hdc] using hd
        exact absurd (eq_of_not_idle hl hi (c := c) (by simp [hpc]) (by simp [hd])) hdc
    | unlocked hpc =>
      by_cases hdc : d = c
      · subst hdc; simp at hd
      · exact ih d poisoned (by simpa [hdc] using hd)

/-- What the mutex does for the value it protects. -/
structure Protects (v : α) (h : List (State p ι α × ι × Act α)) (s : State p ι α) : Prop where
  /-- The thin lock is as good as the platform mutex that `sync.rs` relies on. -/
  contract : Run (Poison.system ι) (image State.contract contractStep h) s.contract
  /-- The owners of the guards use the value one after the other, in the order in which they have
  got them, and nobody else does. -/
  serial : ∃ t done current, Monitor.Serial v (trace sectionStep h) t done current ∧ Shown s t
  /-- A guard comes with an error if and only if one was dropped by a panicking thread. -/
  poisoned : (∀ e ∈ h, AttachesClear e) → ∀ {c poisoned}, s.callers c = .guard poisoned →
    (poisoned = true ↔ ∃ e ∈ h, PanickingDrop e)

/--
Critical sections on Windows.

Any number of callers in any number of processes lock, use the value, and drop their guards,
panicking or not; waiting for the semaphore and releasing it may fail. Fewer than `usize::MAX`
contend.
-/
theorem protects (hr : Run (system p ι v) h s) (hfew : ∀ e ∈ h, FewContend e) :
    Protects v h s where
  contract := run_contract hr hfew
  serial := serial_of_run hr hfew
  poisoned hclear {c poisoned} hc := by
    rw [reported_of_run hr hfew hclear c poisoned hc]
    exact poison_iff hr hfew hclear

end Runs

/-- Two callers add to a counter. The second waits for the first, which panics. -/
def twoSections : List (Bool × Act Nat) :=
  [(true, .platform .lock), (true, .load), (false, .platform .lock), (true, .modify (· + 1)),
    (true, .modify (· * 2)), (true, .drop true), (true, .platform (.drop true)),
    (true, .platform .release), (false, .platform .wait), (false, .load), (false, .modify (· + 3))]

/-- The history of `twoSections` and the state it ends in. -/
def twoSectionsRun : List (State .w64 Bool Nat × Bool × Act Nat) × State .w64 Bool Nat :=
  ((system .w64 Bool 5).replay (fresh _ _ 5) twoSections).getD ([], fresh _ _ 5)

theorem run_twoSections : Run (system .w64 Bool 5) twoSectionsRun.1 twoSectionsRun.2 :=
  Run.of_replay twoSections rfl rfl

theorem protects_two : ∃ h s, Run (system .w64 Bool 5) h s ∧ s.callers false = .guard true ∧
    s.value = 15 ∧ Protects 5 h s :=
  ⟨_, _, run_twoSections, by decide, by decide, protects run_twoSections (by decide)⟩

end SandboxIpc.OnThinLock
