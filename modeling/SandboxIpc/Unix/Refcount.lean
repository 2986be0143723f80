import SandboxIpc.Infra.Census
import SandboxIpc.Infra.Run
import SandboxIpc.Machine

/-!
# The reference count of the pthread mutex, `unix/sync.rs`

The first word of the shared memory of a mutex counts its instances. `from_handle` increments it,
`Mutex::drop` decrements it, and the one that takes it from one to zero destroys the pthread mutex
in a separate step. Handles that nobody has turned into an instance yet are not counted.

* `step`, `Move` — one operation on the shared memory by one instance, or one operation on handles
* `Lifetime` — what the count is for
* `lifetime` — it is kept in runs where `from_handle` never finds the count at zero
* `attached_too_late` — and broken where the last instance is dropped while a handle is in transit
-/

namespace SandboxIpc.Refcount

open Infra

variable {p : PointerWidth} {κ : Type}

/-- A `Mutex` value, or the place for one. -/
inductive Instance
  | absent
  /-- Exists; so many threads are in `pthread_mutex_lock` through it, so many guards borrow it. -/
  | live (waiting guards : Nat)
  /-- In `Mutex::drop`, took the count from one to zero, about to destroy the pthread mutex. -/
  | dropping
  deriving DecidableEq

/-- The shared memory, the handles that exist anywhere, and the instances in all processes. -/
structure State (p : PointerWidth) (κ : Type) where
  refcount : Usize p
  /-- The pthread mutex is locked. -/
  locked : Bool
  /-- How often `pthread_mutex_destroy` was called. -/
  destroyed : Nat
  /-- `MutexHandle` values, in a process or in a message. -/
  handles : Nat
  instances : κ → Instance

inductive Act (κ : Type)
  /-- `Mutex::handle`. -/
  | handle (i : κ)
  /-- A handle is serialized, and deserialized in some process. -/
  | transmit
  /-- A handle is dropped, or used up by a `from_handle` that fails. -/
  | discard
  /-- `fetch_add` in `from_handle`, which then returns the instance `i`. -/
  | fromHandle (i : κ)
  /-- `lock` calls `pthread_mutex_lock`. -/
  | lock (i : κ)
  /-- `pthread_mutex_lock` returns; if it `fails` the thread panics. -/
  | lockReturns (i : κ) (fails : Bool)
  /-- `MutexGuard::drop` calls `pthread_mutex_unlock`. -/
  | unlock (i : κ) (fails : Bool)
  /-- `fetch_sub` in `Mutex::drop`. No guard and no call borrows the instance then. -/
  | drop (i : κ)
  /-- `pthread_mutex_destroy` in `Mutex::drop`. -/
  | destroy (i : κ)
  deriving DecidableEq

/-- The step only concerns handles. -/
def Act.onHandles : Act κ → Bool
  | .handle _ | .transmit | .discard => true
  | _ => false

/-- The step calls or returns from a function of the pthread mutex that locks or unlocks it. -/
def Act.onLock : Act κ → Bool
  | .lock _ | .lockReturns _ _ | .unlock _ _ => true
  | _ => false

theorem onHandles_of_onLock {a : Act κ} (h : a.onLock = true) : a.onHandles = false := by
  cases a with
  | lock | lockReturns | unlock => rfl
  | handle | transmit | discard | fromHandle | drop | destroy => cases h

variable [DecidableEq κ]

def State.setInstance (s : State p κ) (i : κ) (x : Instance) : State p κ :=
  { s with instances := Function.update s.instances i x }

def step (s : State p κ) : Act κ → Option (State p κ)
  | .handle i =>
    match s.instances i with
    | .live _ _ => some { s with handles := s.handles + 1 }
    | _ => none
  | .transmit => if 0 < s.handles then some { s with handles := s.handles + 1 } else none
  | .discard => if 0 < s.handles then some { s with handles := s.handles - 1 } else none
  | .fromHandle i =>
    if s.instances i = .absent ∧ 0 < s.handles then
      some <| { s with
        handles := s.handles - 1
        refcount := s.refcount + 1 }.setInstance i (.live 0 0)
    else none
  | .lock i =>
    match s.instances i with
    | .live waiting guards => some <| s.setInstance i (.live (waiting + 1) guards)
    | _ => none
  | .lockReturns i fails =>
    match s.instances i, fails, s.locked with
    | .live (waiting + 1) guards, false, false =>
      some <| { s with locked := true }.setInstance i (.live waiting (guards + 1))
    | .live (waiting + 1) guards, true, _ => some <| s.setInstance i (.live waiting guards)
    | _, _, _ => none
  | .unlock i fails =>
    match s.instances i with
    | .live waiting (guards + 1) =>
      some <| { s with locked := s.locked && fails }.setInstance i (.live waiting guards)
    | _ => none
  | .drop i =>
    if s.instances i = .live 0 0 then
      -- what `fetch_sub` returns decides who destroys, in a later step
      some <| { s with refcount := s.refcount - 1 }.setInstance i
        (if s.refcount = 1 then .dropping else .absent)
    else none
  | .destroy i =>
    if s.instances i = .dropping then
      some <| { s with destroyed := s.destroyed + 1 }.setInstance i .absent
    else none

/-- The mutex and the one instance `new_with_memory` makes. -/
def fresh (p : PointerWidth) (i : κ) : State p κ where
  refcount := 1
  locked := false
  destroyed := 0
  handles := 0
  instances := Function.update (fun _ => .absent) i (.live 0 0)

def system (p : PointerWidth) (κ : Type) [DecidableEq κ] : System (State p κ) (Act κ) where
  init s := ∃ i, s = fresh p i
  step := step

/-! ## What a step can do -/

/-- What a step means for the count: an instance comes, goes, goes last, destroys, or the step only
concerns the handles and the borrows of an instance that stays. -/
inductive Move (s : State p κ) : Act κ → State p κ → Prop
  | attach {i s'} : s.instances i = .absent → s'.refcount = s.refcount + 1 →
      s'.destroyed = s.destroyed →
      s'.instances = Function.update s.instances i (.live 0 0) → Move s (.fromHandle i) s'
  | leave {i s'} : s.instances i = .live 0 0 → s.refcount ≠ 1 → s'.refcount = s.refcount - 1 →
      s'.destroyed = s.destroyed →
      s'.instances = Function.update s.instances i .absent → Move s (.drop i) s'
  | leaveLast {i s'} : s.instances i = .live 0 0 → s.refcount = 1 →
      s'.refcount = s.refcount - 1 → s'.destroyed = s.destroyed →
      s'.instances = Function.update s.instances i .dropping → Move s (.drop i) s'
  | destroy {i s'} : s.instances i = .dropping → s'.refcount = s.refcount →
      s'.destroyed = s.destroyed + 1 →
      s'.instances = Function.update s.instances i .absent → Move s (.destroy i) s'
  | borrow {a i w g w' g' s'} : a.onLock = true → s.instances i = .live w g →
      s'.refcount = s.refcount → s'.destroyed = s.destroyed →
      s'.instances = Function.update s.instances i (.live w' g') → Move s a s'
  | handles {a k} : a.onHandles = true → Move s a { s with handles := k }

theorem move_of_step {s s' : State p κ} {a : Act κ} (h : step s a = some s') : Move s a s' := by
  cases a with
  | handle i =>
    dsimp only [step] at h
    split at h
    · obtain rfl := Option.some.inj h
      exact .handles rfl
    · cases h
  | transmit | discard =>
    obtain ⟨-, heq⟩ := Option.ite_none_right_eq_some.mp h
    obtain rfl := Option.some.inj heq
    exact .handles rfl
  | fromHandle i =>
    obtain ⟨⟨habsent, -⟩, heq⟩ := Option.ite_none_right_eq_some.mp h
    obtain rfl := Option.some.inj heq
    exact .attach habsent rfl rfl rfl
  | lock i =>
    dsimp only [step] at h
    split at h
    · next hlive =>
      obtain rfl := Option.some.inj h
      exact .borrow rfl hlive rfl rfl rfl
    · cases h
  | lockReturns i fails =>
    dsimp only [step] at h
    split at h
    · next hlive _ =>
      obtain rfl := Option.some.inj h
      exact .borrow rfl hlive rfl rfl rfl
    · next hlive =>
      obtain rfl := Option.some.inj h
      exact .borrow rfl hlive rfl rfl rfl
    · cases h
  | unlock i fails =>
    dsimp only [step] at h
    split at h
    · next hlive =>
      obtain rfl := Option.some.inj h
      exact .borrow rfl hlive rfl rfl rfl
    · cases h
  | drop i =>
    obtain ⟨hlive, heq⟩ := Option.ite_none_right_eq_some.mp h
    obtain rfl := Option.some.inj heq
    by_cases hlast : s.refcount = 1
    · exact .leaveLast hlive hlast rfl rfl (by rw [if_pos hlast]; rfl)
    · exact .leave hlive hlast rfl rfl (by rw [if_neg hlast]; rfl)
  | destroy i =>
    obtain ⟨hdropping, heq⟩ := Option.ite_none_right_eq_some.mp h
    obtain rfl := Option.some.inj heq
    exact .destroy hdropping rfl rfl rfl

/-! ## The invariant -/

def Instance.isLive : Instance → Bool
  | .live _ _ => true
  | _ => false

def Instance.isDropping : Instance → Bool
  | .dropping => true
  | _ => false

section Counts

variable [Fintype κ]

/-- How many instances exist. -/
def State.live (s : State p κ) : Nat := census Instance.isLive s.instances

/-- How many instances are about to destroy the pthread mutex. -/
def State.destroyers (s : State p κ) : Nat := census Instance.isDropping s.instances

/-- The count counts the instances, and the pthread mutex outlives them. -/
structure Inv (s : State p κ) : Prop where
  /-- With as many instances as a word has values the count is at zero again. -/
  refcount_eq : s.refcount.toNat = s.live ∨ s.refcount.toNat = 0 ∧ s.live = 2 ^ p.bits
  once : s.destroyed + s.destroyers ≤ 1
  outlives : 0 < s.live → s.destroyed + s.destroyers = 0

theorem live_update {s s' : State p κ} {i : κ} {x : Instance}
    (h : s'.instances = Function.update s.instances i x) :
    s'.live + (s.instances i).isLive.toNat = s.live + x.isLive.toNat := by
  unfold State.live
  rw [h]
  exact census_update Instance.isLive s.instances i x

theorem destroyers_update {s s' : State p κ} {i : κ} {x : Instance}
    (h : s'.instances = Function.update s.instances i x) :
    s'.destroyers + (s.instances i).isDropping.toNat = s.destroyers + x.isDropping.toNat := by
  unfold State.destroyers
  rw [h]
  exact census_update Instance.isDropping s.instances i x

/-- `from_handle` finds a reference count other than zero. -/
def AttachesCounted (e : State p κ × Act κ) : Prop :=
  ∀ i, e.2 = .fromHandle i → e.1.refcount ≠ 0

instance (e : State p κ × Act κ) : Decidable (AttachesCounted e) :=
  inferInstanceAs (Decidable (∀ i, e.2 = .fromHandle i → e.1.refcount ≠ 0))

theorem inv_fresh (i : κ) : Inv (fresh p i) := by
  have hlive := census_update Instance.isLive (fun _ : κ => Instance.absent) i (.live 0 0)
  have hdropping := census_update Instance.isDropping (fun _ : κ => Instance.absent) i (.live 0 0)
  rw [census_const rfl] at hlive hdropping
  have hone : (fresh p i).live = 1 := hlive
  have hnone : (fresh p i).destroyers = 0 := hdropping
  have hdestroyed : (fresh p i).destroyed = 0 := rfl
  exact ⟨.inl (by rw [hone]; exact toNat_one), by omega, by omega⟩

namespace Inv

variable {s s' : State p κ} {a : Act κ} {i : κ}

omit [DecidableEq κ] in
theorem live_pos (hi : (s.instances i).isLive = true) : 0 < s.live := census_pos hi

/-- An instance is attached while the count is not zero: another one exists then. -/
theorem attach (h : Inv s) (hcounted : s.refcount ≠ 0) (hi : s.instances i = .absent)
    (hrefcount : s'.refcount = s.refcount + 1) (hdestroyed : s'.destroyed = s.destroyed)
    (hinstances : s'.instances = Function.update s.instances i (.live 0 0)) : Inv s' := by
  have hlive := live_update hinstances
  have hdestroyers := destroyers_update hinstances
  rw [hi] at hlive hdestroyers
  have hlive : s'.live = s.live + 1 := hlive
  have hdestroyers : s'.destroyers = s.destroyers := hdestroyers
  have hpos : 0 < s.refcount.toNat :=
    Nat.pos_of_ne_zero fun he => hcounted (eq_zero_iff.mpr he)
  have hcount : s.refcount.toNat = s.live := by
    rcases h.refcount_eq with hc | ⟨hz, -⟩
    · exact hc
    · omega
  have hnone := h.outlives (by omega)
  refine ⟨?_, by omega, by omega⟩
  by_cases hmax : s.refcount = usizeMax p
  · -- the count wraps to zero
    have htop := toNat_usizeMax (p := p)
    have hbits := p.two_pow_bits
    have hhalf := p.half_pos
    rw [hmax] at hcount
    rw [hrefcount, hmax, toNat_usizeMax_add_one]
    exact .inr ⟨rfl, by omega⟩
  · rw [hrefcount, toNat_add_one hmax]
    exact .inl (by omega)

/-- What an instance that goes leaves behind. -/
theorem leave (h : Inv s) {x : Instance} (hi : s.instances i = .live 0 0)
    (hx : x.isLive = false) (hlast : x.isDropping = true ↔ s.refcount = 1)
    (hrefcount : s'.refcount = s.refcount - 1) (hdestroyed : s'.destroyed = s.destroyed)
    (hinstances : s'.instances = Function.update s.instances i x) : Inv s' := by
  have hpos : 0 < s.live := live_pos (i := i) (by rw [hi]; rfl)
  have hnone := h.outlives hpos
  have hlive := live_update hinstances
  have hdestroyers := destroyers_update hinstances
  rw [hi, hx] at hlive
  rw [hi] at hdestroyers
  have hlive : s'.live + 1 = s.live := hlive
  have hdestroyers : s'.destroyers = s.destroyers + x.isDropping.toNat := hdestroyers
  have hxle := Bool.toNat_le x.isDropping
  have hcount : s'.refcount.toNat = s'.live := by
    rw [hrefcount]
    rcases h.refcount_eq with hc | ⟨hz, hfull⟩
    · have hne : s.refcount ≠ 0 := by
        intro hz
        rw [hz, toNat_zero] at hc
        omega
      have := toNat_sub_one hne
      omega
    · rw [eq_zero_iff.mpr hz, zero_sub_one, toNat_usizeMax]
      omega
  refine ⟨.inl hcount, by omega, fun hstill => ?_⟩
  -- somebody else exists, so the count was not one
  have hnot : x.isDropping = false := by
    rw [← Bool.not_eq_true, hlast]
    intro hone
    rw [hrefcount, hone, BitVec.sub_self] at hcount
    have hgone : s'.live = 0 := hcount.symm.trans toNat_zero
    omega
  rw [hnot, Bool.toNat_false] at hdestroyers
  omega

theorem destroy (h : Inv s) (hi : s.instances i = .dropping) (hrefcount : s'.refcount = s.refcount)
    (hdestroyed : s'.destroyed = s.destroyed + 1)
    (hinstances : s'.instances = Function.update s.instances i .absent) : Inv s' := by
  have hlive := live_update hinstances
  have hdestroyers := destroyers_update hinstances
  rw [hi] at hlive hdestroyers
  have hlive : s'.live = s.live := hlive
  have hdestroyers : s'.destroyers + 1 = s.destroyers := hdestroyers
  have honce := h.once
  have houtlives := h.outlives
  exact ⟨by rw [hrefcount, hlive]; exact h.refcount_eq, by omega, by omega⟩

/-- A step after which the same instances exist. -/
theorem keep (h : Inv s) {x : Instance} (hx : x.isLive = (s.instances i).isLive)
    (hx' : x.isDropping = (s.instances i).isDropping) (hrefcount : s'.refcount = s.refcount)
    (hdestroyed : s'.destroyed = s.destroyed)
    (hinstances : s'.instances = Function.update s.instances i x) : Inv s' := by
  have hlive := live_update hinstances
  have hdestroyers := destroyers_update hinstances
  rw [hx] at hlive
  rw [hx'] at hdestroyers
  have honce := h.once
  have houtlives := h.outlives
  exact ⟨by rw [hrefcount, Nat.add_right_cancel hlive]; exact h.refcount_eq, by omega, by omega⟩

theorem move (h : Inv s) (hcounted : AttachesCounted (s, a)) (hm : Move s a s') : Inv s' := by
  cases hm with
  | attach hi hr hd hinst => exact h.attach (hcounted _ rfl) hi hr hd hinst
  | leave hi hnot hr hd hinst =>
    exact h.leave hi rfl ⟨fun he => absurd he (by decide), fun he => absurd he hnot⟩ hr hd hinst
  | leaveLast hi hlast hr hd hinst => exact h.leave hi rfl ⟨fun _ => hlast, fun _ => rfl⟩ hr hd hinst
  | destroy hi hr hd hinst => exact h.destroy hi hr hd hinst
  | borrow ha hi hr hd hinst => exact h.keep (by rw [hi]; rfl) (by rw [hi]; rfl) hr hd hinst
  | handles ha => exact ⟨h.refcount_eq, h.once, h.outlives⟩

end Inv

variable {s : State p κ} {i : κ}

/-! ## The lifetime of the pthread mutex -/

/-- What the reference count is for. -/
structure Lifetime (h : List (State p κ × Act κ)) (s : State p κ) : Prop where
  /-- `pthread_mutex_destroy` is called at most once. -/
  once : s.destroyed ≤ 1
  /-- It is called by the last instance. -/
  alone : ∀ e ∈ h, ∀ i, e.2 = .destroy i → ∀ j, j ≠ i → e.1.instances j = .absent
  /-- A destroyed mutex is neither locked nor unlocked. -/
  notLocked : ∀ e ∈ h, e.2.onLock = true → e.1.destroyed = 0
  /-- No instance is attached to a destroyed mutex. -/
  notAttached : ∀ e ∈ h, ∀ i, e.2 = .fromHandle i → e.1.destroyed = 0

theorem inv_of_run {h : List (State p κ × Act κ)} {s : State p κ} (hr : Run (system p κ) h s)
    (hcounted : ∀ e ∈ h, AttachesCounted e) : Inv s := by
  refine hr.invariant_of AttachesCounted Inv ?_ ?_ hcounted
  · rintro s ⟨i, rfl⟩
    exact inv_fresh i
  · intro s a s' hi hc hs
    exact hi.move hc (move_of_step hs)

/-- What is known of the state an entry of the history starts from. -/
theorem inv_of_mem {h : List (State p κ × Act κ)} {s : State p κ} (hr : Run (system p κ) h s)
    (hcounted : ∀ e ∈ h, AttachesCounted e) {e : State p κ × Act κ} (he : e ∈ h) :
    Inv e.1 ∧ ∃ s', Move e.1 e.2 s' := by
  obtain ⟨pre, hpre, hmem, s', hs⟩ := hr.of_mem he
  exact ⟨inv_of_run hpre fun x hx => hcounted x (hmem x hx), s', move_of_step hs⟩

omit [DecidableEq κ] [Fintype κ] in
theorem eq_absent {x : Instance} (hlive : x.isLive = false) (hdropping : x.isDropping = false) :
    x = .absent := by
  cases x with
  | absent => rfl
  | live w g => cases hlive
  | dropping => cases hdropping

omit [DecidableEq κ] in
/-- The instance that destroys the pthread mutex is the last one. -/
theorem Inv.last (h : Inv s) (hi : s.instances i = .dropping) {j : κ} (hj : j ≠ i) :
    s.instances j = .absent := by
  have hpos : 0 < s.destroyers := census_pos (c := i) (by rw [hi]; rfl)
  have hle : s.destroyers ≤ 1 := Nat.le_trans (Nat.le_add_left _ _) h.once
  have hnone : s.live = 0 := Nat.eq_zero_of_not_pos fun hl => by
    have := h.outlives hl
    omega
  refine eq_absent (census_eq_zero.mp hnone j) ?_
  rw [← Bool.not_eq_true]
  intro hd
  exact hj (eq_of_census_le_one hle hd (by rw [hi]; rfl))

omit [DecidableEq κ] in
theorem Inv.not_destroyed (h : Inv s) (hl : 0 < s.live) : s.destroyed = 0 :=
  Nat.eq_zero_of_add_eq_zero_right (h.outlives hl)

/--
The reference count keeps the pthread mutex alive for as long as it is used.

The condition is that no `from_handle` finds the count at zero.
-/
theorem lifetime {h : List (State p κ × Act κ)} {s : State p κ} (hr : Run (system p κ) h s)
    (hcounted : ∀ e ∈ h, AttachesCounted e) : Lifetime h s where
  once := Nat.le_trans (Nat.le_add_right _ _) (inv_of_run hr hcounted).once
  alone := by
    rintro ⟨s, a⟩ he i rfl j hj
    obtain ⟨hi, s', hm⟩ := inv_of_mem hr hcounted he
    cases hm with
    | destroy hdropping => exact hi.last hdropping hj
    | borrow ha | handles ha => cases ha
  notLocked := by
    rintro ⟨s, a⟩ he ha
    obtain ⟨hi, s', hm⟩ := inv_of_mem hr hcounted he
    cases hm with
    | borrow _ hlive => exact hi.not_destroyed (Inv.live_pos (by rw [hlive]; rfl))
    | handles ha' => exact absurd ha' (by rw [onHandles_of_onLock ha]; decide)
    | attach | leave | leaveLast | destroy => cases ha
  notAttached := by
    rintro ⟨s, a⟩ he i rfl
    obtain ⟨hi, -⟩ := inv_of_mem hr hcounted he
    refine hi.not_destroyed (Nat.pos_of_ne_zero fun hnone => hcounted _ he i rfl ?_)
    rcases hi.refcount_eq with hc | ⟨hz, -⟩
    · exact eq_zero_iff.mpr (hc.trans hnone)
    · exact eq_zero_iff.mpr hz

end Counts

/-- Two instances, one attached through a transmitted handle; both go, the second destroys. -/
theorem lifetime_two : ∃ h s, Run (system .w64 (Fin 2)) h s ∧ s.destroyed = 1 ∧ Lifetime h s := by
  have hr : Run (system .w64 (Fin 2)) _ _ :=
    Run.of_replay
      [.handle 0, .transmit, .discard, .fromHandle 1, .lock 1, .lockReturns 1 false, .unlock 1 false,
        .drop 0, .drop 1, .destroy 1]
      ⟨0, rfl⟩ rfl
  exact ⟨_, _, hr, by decide, lifetime hr (by decide)⟩

/--
The last instance is dropped while a handle is in transit.

`from_handle` then returns an instance whose pthread mutex has been destroyed, and dropping that
destroys it once more.
-/
theorem attached_too_late : ∃ h s, Run (system .w64 (Fin 2)) h s ∧ s.destroyed = 2 ∧
    ¬ Lifetime h s := by
  have hr : Run (system .w64 (Fin 2)) _ _ :=
    Run.of_replay
      [.handle 0, .drop 0, .destroy 0, .fromHandle 1, .lock 1, .lockReturns 1 false,
        .unlock 1 false, .drop 1, .destroy 1]
      ⟨0, rfl⟩ rfl
  exact ⟨_, _, hr, by decide, fun hl => absurd hl.once (by decide)⟩

end SandboxIpc.Refcount
