import SandboxIpc.Windows.ThinLock

/-!
# No wake-up of the thin lock is lost

While anybody contends for the lock there is one token: the guard of the holder, a unit of the
semaphore, or a releaser halfway through. A caller that waits will therefore be woken.

* `Awake` — the invariant of runs in which no wait and no release fails for a reason of its own
* `NoLostWakeUp` — what it means for the counter, the semaphore and those who wait
* `no_lost_wakeUp` — it holds as long as the counter does not wrap
* `wrapped_counter` — `2 ^ 32` callers of a 32-bit lock bring the counter back to zero
-/

namespace SandboxIpc.ThinLock

open Infra

variable {p : PointerWidth} {ι : Type}

/-- Owns the lock, or waits for it. -/
def Caller.holdsOrWaits : Caller → Bool
  | .waiting | .guard => true
  | _ => false

/-- Some thread holds the lock. -/
def State.Held (s : State p ι) : Prop := ∃ c, s.callers c = .guard

/-- A unit of the semaphore is there to be taken. -/
def State.Posted (s : State p ι) : Prop := s.semaphore.count = 1

/-- Some thread is between `fetch_sub` and `ReleaseSemaphore`. -/
def State.HandingOver (s : State p ι) : Prop := ∃ c panicking, s.callers c = .releasing panicking

/-- Exactly one of three statements is true. -/
def ExactlyOne (P Q R : Prop) : Prop := (P ∧ ¬ Q ∧ ¬ R) ∨ (¬ P ∧ Q ∧ ¬ R) ∨ (¬ P ∧ ¬ Q ∧ R)

variable [DecidableEq ι] [Fintype ι]

/-- The lock is handed on to everybody who waits for it. -/
structure NoLostWakeUp (s : State p ι) : Prop where
  /-- The counter counts those who hold the lock or wait for it. -/
  counts : s.atomic.toNat = census Caller.holdsOrWaits s.callers
  one_token : 0 < s.atomic.toNat → ExactlyOne s.Held s.Posted s.HandingOver
  /-- Who waits can go on, or somebody has the lock or is handing it over. -/
  not_stranded : ∀ c, s.callers c = .waiting →
    (∃ s', step s (c, .wait) = some s') ∨ s.Held ∨ s.HandingOver
  /-- `ReleaseSemaphore` never meets the maximum. -/
  releases : ∀ c panicking, s.callers c = .releasing panicking → s.semaphore.release ≠ none
  /-- The branch for an invalid state of the shared memory is not reached. -/
  valid : ∀ c, s.callers c = .guard → s.atomic ≠ 0

/-! ## The invariant -/

/-- `Inv`, and the token is there while it is needed. -/
structure Awake (s : State p ι) : Prop where
  inv : Inv s
  maximum : s.semaphore.maximum = 1
  token : 0 < s.contending → 0 < s.owners + s.semaphore.count
  no_panic : ∀ c, s.callers c ≠ .waitPanicked

/-- No wait and no release fails for a reason of its own. -/
def Sound (e : State p ι × ι × Act) : Prop := e.2.2 ≠ .waitFails ∧ e.2.2 ≠ .releaseFails

instance (e : State p ι × ι × Act) : Decidable (Sound e) := inferInstanceAs (Decidable (_ ∧ _))

/-- A `lock` begins only while fewer than `usize::MAX` callers contend. -/
def RoomToLock (e : State p ι × ι × Act) : Prop :=
  e.2.2 = .lock → e.1.contending < (usizeMax p).toNat

instance (e : State p ι × ι × Act) : Decidable (RoomToLock e) := inferInstanceAs (Decidable (_ → _))

omit [DecidableEq ι] in
theorem awake_fresh : Awake (fresh p ι) where
  inv := inv_fresh
  maximum := rfl
  token hpos := absurd hpos (by
    have hcontending : (fresh p ι).contending = 0 := census_const rfl
    omega)
  no_panic c := nofun

theorem Semaphore.maximum_wait {s s' : Semaphore} (h : s.wait = some s') :
    s'.maximum = s.maximum := by
  unfold Semaphore.wait at h
  split at h
  · obtain rfl := Option.some.inj h
    rfl
  · cases h

theorem Semaphore.maximum_release {s s' : Semaphore} (h : s.release = some s') :
    s'.maximum = s.maximum := by
  unfold Semaphore.release at h
  split at h
  · obtain rfl := Option.some.inj h
    rfl
  · cases h

/-- Nobody contends who did not before. -/
theorem contending_le {s s' : State p ι} {c : ι} {x : Caller}
    (h : s'.callers = Function.update s.callers c x)
    (hx : x.counted.toNat ≤ (s.callers c).counted.toNat) : s'.contending ≤ s.contending := by
  have hcontending := contending_update h
  omega

namespace Awake

variable {s s' : State p ι} {c : ι} {a : Act}

omit [DecidableEq ι] in
/-- While there is an owner, the semaphore has no unit and can be released. -/
theorem release_ne_none (h : Awake s) (hc : (s.callers c).owns = true) :
    s.semaphore.release ≠ none := by
  have hpos : 0 < s.owners := census_pos hc
  have hle := h.inv.token_le
  have hroom : s.semaphore.count < s.semaphore.maximum := by
    rw [h.maximum]
    omega
  unfold Semaphore.release
  rw [dif_pos hroom]
  nofun

/-- A caller goes to where it has not panicked, and the token is still there if it is needed. -/
theorem step (h : Awake s) (hinv : Inv s') {x : Caller}
    (hcallers : s'.callers = Function.update s.callers c x) (hx : x ≠ .waitPanicked)
    (hmaximum : s'.semaphore.maximum = s.semaphore.maximum)
    (htoken : 0 < s'.contending → 0 < s'.owners + s'.semaphore.count) : Awake s' where
  inv := hinv
  maximum := hmaximum.trans h.maximum
  token := htoken
  no_panic d := by
    rw [hcallers]
    by_cases hdc : d = c
    · rw [hdc, Function.update_self]
      exact hx
    · rw [Function.update_of_ne hdc]
      exact h.no_panic d

/-- The token is passed on, and nobody contends who did not before. -/
theorem pass_token (h : Awake s) (hinv : Inv s') {x : Caller}
    (hcallers : s'.callers = Function.update s.callers c x) (hx : x ≠ .waitPanicked)
    (hmaximum : s'.semaphore.maximum = s.semaphore.maximum)
    (hcontending : 0 < s'.contending → 0 < s.contending)
    (htoken : (s.callers c).owns.toNat + s.semaphore.count
      ≤ x.owns.toNat + s'.semaphore.count) : Awake s' := by
  refine h.step hinv hcallers hx hmaximum fun hpos => ?_
  have howners := owners_update hcallers
  have htoken' := h.token (hcontending hpos)
  omega

theorem move (h : Awake s) (hsound : a ≠ .waitFails ∧ a ≠ .releaseFails)
    (hroom : a = .lock → s.contending < (usizeMax p).toNat) (hm : Move s c a s') : Awake s' := by
  have hinv := h.inv.move hroom hm
  have heq := h.inv.atomic_eq
  cases hm with
  | take hpc hzero =>
    -- the caller makes the token itself
    refine h.step (x := .guard) hinv rfl nofun rfl fun _ => Nat.add_pos_left ?_ _
    refine census_pos (c := c) ?_
    show (Function.update s.callers c .guard c).owns = true
    rw [Function.update_self]
    rfl
  | queue hpc hzero =>
    -- somebody else contends, so the token is somewhere
    have hpos : 0 < s.contending := by
      rw [← heq]
      exact Nat.pos_of_ne_zero fun he => hzero (eq_zero_iff.mpr he)
    exact h.pass_token (x := .waiting) hinv rfl nofun rfl (fun _ => hpos)
      (by rw [hpc]; exact Nat.le_refl _)
  | wake hpc hsem =>
    have hcount := Semaphore.count_wait hsem
    refine h.pass_token (x := .guard) hinv rfl nofun (Semaphore.maximum_wait hsem)
      (fun hpos => Nat.lt_of_lt_of_le hpos (contending_le rfl (by rw [hpc]; decide))) ?_
    rw [hpc]
    show 0 + _ ≤ 1 + _
    dsimp only [State.setCaller]
    omega
  | waitFails hpc => exact absurd rfl hsound.1
  | invalid hpc hzero => exact absurd hzero (h.inv.atomic_ne_zero (by rw [hpc]; rfl))
  | free hpc hone hzero =>
    -- nobody else contends, so the token is not needed any more
    refine h.step (x := .idle) hinv rfl nofun rfl fun hpos => absurd hpos ?_
    rw [← hinv.atomic_eq]
    show ¬ 0 < (s.atomic - 1).toNat
    rw [hone, BitVec.sub_self]
    exact Nat.not_lt.mpr (Nat.le_of_eq toNat_zero)
  | handOver hpc hzero hone =>
    exact h.pass_token (x := .releasing _) hinv rfl nofun rfl
      (fun hpos => Nat.lt_of_lt_of_le hpos (contending_le rfl (by rw [hpc]; exact Nat.zero_le _)))
      (by rw [hpc]; exact Nat.le_refl _)
  | release hpc hsem =>
    have hcount := Semaphore.count_release hsem
    refine h.pass_token (x := .idle) hinv rfl nofun (Semaphore.maximum_release hsem)
      (fun hpos => Nat.lt_of_lt_of_le hpos (contending_le rfl (by rw [hpc]; exact Nat.zero_le _))) ?_
    rw [hpc]
    show 1 + _ ≤ 0 + _
    dsimp only [State.setCaller]
    omega
  | full hpc hsem => exact absurd hsem (h.release_ne_none (by rw [hpc]; rfl))
  | releaseFails hpc => exact absurd rfl hsound.2

omit [DecidableEq ι] in
/-- Nobody has panicked, so those who are counted hold the lock or wait for it. -/
theorem contending_eq (h : Awake s) : s.contending = census Caller.holdsOrWaits s.callers := by
  unfold State.contending census
  refine congrArg Finset.card (Finset.filter_congr fun c _ => ?_)
  have hc := h.no_panic c
  generalize s.callers c = x at hc
  cases x with
  | waitPanicked => exact absurd rfl hc
  | idle | waiting | guard | releasing | dropPanicked => exact Iff.rfl

omit [DecidableEq ι] in
/-- There is one token, and it is one of three things. -/
theorem exactlyOne (h : Awake s) (hpos : 0 < s.contending) :
    ExactlyOne s.Held s.Posted s.HandingOver := by
  have hle := h.inv.token_le
  have hge := h.token hpos
  unfold State.Posted
  by_cases hcount : s.semaphore.count = 1
  · -- the token is in the semaphore, so nobody owns it
    have hnone : ∀ c, (s.callers c).owns = false := census_eq_zero.mp (by
      show s.owners = 0
      omega)
    refine .inr (.inl ⟨?_, hcount, ?_⟩)
    · rintro ⟨c, hc⟩
      have hown := hnone c
      rw [hc] at hown
      cases hown
    · rintro ⟨c, panicking, hc⟩
      have hown := hnone c
      rw [hc] at hown
      cases hown
  · have howners : s.owners ≠ 0 := by omega
    have hone : census Caller.owns s.callers ≤ 1 := by
      show s.owners ≤ 1
      omega
    obtain ⟨c, hc⟩ : ∃ c, (s.callers c).owns = true := by
      by_contra hno
      refine howners (census_eq_zero.mpr fun c => ?_)
      rw [← Bool.not_eq_true]
      exact fun hc => hno ⟨c, hc⟩
    cases hx : s.callers c with
    | guard =>
      refine .inl ⟨⟨c, hx⟩, hcount, ?_⟩
      rintro ⟨d, panicking, hd⟩
      have hdc := eq_of_census_le_one hone (c := d) (by rw [hd]; rfl) hc
      rw [hdc, hx] at hd
      cases hd
    | releasing panicking =>
      refine .inr (.inr ⟨?_, hcount, c, panicking, hx⟩)
      rintro ⟨d, hd⟩
      have hdc := eq_of_census_le_one hone (c := d) (by rw [hd]; rfl) hc
      rw [hdc, hx] at hd
      cases hd
    | idle | waiting | waitPanicked | dropPanicked =>
      rw [hx] at hc
      cases hc

/-- Whoever waits is counted, so the token is somewhere. -/
theorem not_stranded (h : Awake s) (hc : s.callers c = .waiting) :
    (∃ s', ThinLock.step s (c, .wait) = some s') ∨ s.Held ∨ s.HandingOver := by
  have hpos : 0 < s.contending := census_pos (c := c) (by rw [hc]; rfl)
  rcases h.exactlyOne hpos with ⟨hheld, -, -⟩ | ⟨-, hposted, -⟩ | ⟨-, -, hover⟩
  · exact .inr (.inl hheld)
  · left
    have hcount : 0 < s.semaphore.count := by
      rw [show s.semaphore.count = 1 from hposted]
      exact Nat.one_pos
    unfold ThinLock.step
    dsimp only
    rw [hc]
    dsimp only
    unfold Semaphore.wait
    rw [if_pos hcount]
    exact ⟨_, rfl⟩
  · exact .inr (.inr hover)

end Awake

/-! ## Whole runs -/

theorem awake_of_run {h : List (State p ι × ι × Act)} {s : State p ι} (hr : Run (system p ι) h s)
    (hsound : ∀ e ∈ h, Sound e) (hroom : ∀ e ∈ h, RoomToLock e) : Awake s := by
  refine hr.invariant_of (fun e => Sound e ∧ RoomToLock e) Awake ?_ ?_
    fun e he => ⟨hsound e he, hroom e he⟩
  · rintro s rfl
    exact awake_fresh
  · intro s e s' hi hc hs
    exact hi.move hc.1 hc.2 (move_of_step hs)

/--
No wake-up is lost.

Waits and releases do not fail by themselves, and at most `usize::MAX` callers contend at a time.
-/
theorem no_lost_wakeUp {h : List (State p ι × ι × Act)} {s : State p ι}
    (hr : Run (system p ι) h s) (hsound : ∀ e ∈ h, Sound e) (hroom : ∀ e ∈ h, RoomToLock e) :
    NoLostWakeUp s := by
  have ha := awake_of_run hr hsound hroom
  constructor
  · exact ha.inv.atomic_eq.trans ha.contending_eq
  · intro hpos
    exact ha.exactlyOne (Nat.lt_of_lt_of_le hpos (Nat.le_of_eq ha.inv.atomic_eq))
  · intro c hc
    exact ha.not_stranded hc
  · intro c panicking hc
    exact ha.release_ne_none (by rw [hc]; rfl)
  · intro c hc
    exact ha.inv.atomic_ne_zero (by rw [hc]; rfl)

/-- The first caller is halfway through handing the lock over while a third one arrives. -/
theorem no_lost_wakeUp_three : ∃ h s, Run (system .w64 (Fin 3)) h s ∧ s.callers 2 = .waiting ∧
    s.callers 0 = .releasing false ∧ NoLostWakeUp s := by
  have hr : Run (system .w64 (Fin 3)) _ _ :=
    Run.of_replay [(0, .lock), (1, .lock), (0, .drop false), (2, .lock)] rfl rfl
  exact ⟨_, _, hr, by decide, by decide, no_lost_wakeUp hr (by decide) (by decide)⟩

/-! ## A crowd at the lock

`2 ^ 32` callers of a 32-bit lock. The first has the lock, all others wait, and the counter is back
at zero.
-/

abbrev Crowd := Fin (2 ^ 32)

/-- The callers below `k` have called `lock`, in their order. -/
def crowd (k : Nat) : State .w32 Crowd where
  atomic := BitVec.ofNat _ k
  semaphore := .create
  callers := fun c => if c.val < k then (if c.val = 0 then .guard else .waiting) else .idle

/-- One more caller joins the crowd. -/
theorem crowd_succ {k : Nat} (hk : k < 2 ^ 32) :
    step (crowd k) (⟨k, hk⟩, .lock) = some (crowd (k + 1)) := by
  have hidle : (crowd k).callers ⟨k, hk⟩ = .idle := if_neg (Nat.lt_irrefl k)
  have hzero : (crowd k).atomic = 0 ↔ k = 0 := by
    rw [eq_zero_iff]
    show (BitVec.ofNat 32 k).toNat = 0 ↔ k = 0
    rw [BitVec.toNat_ofNat, Nat.mod_eq_of_lt hk]
  have hcallers : Function.update (crowd k).callers ⟨k, hk⟩
      (if (crowd k).atomic = 0 then .guard else .waiting) = (crowd (k + 1)).callers := by
    funext c
    by_cases hc : c = ⟨k, hk⟩
    · subst hc
      rw [Function.update_self, if_congr hzero rfl rfl]
      exact (if_pos (Nat.lt_succ_self k)).symm
    · have hck : c.val ≠ k := fun he => hc (Fin.ext he)
      have hiff : c.val < k ↔ c.val < k + 1 := by omega
      rw [Function.update_of_ne hc]
      exact if_congr hiff rfl rfl
  have hatomic : (crowd k).atomic + 1 = (crowd (k + 1)).atomic := (BitVec.ofNat_add k 1).symm
  unfold step
  dsimp only
  rw [hidle]
  dsimp only [State.setCaller]
  rw [hcallers, hatomic]
  rfl

/-- The whole crowd can gather. -/
theorem run_crowd {k : Nat} (hk : k ≤ 2 ^ 32) :
    ∃ h, Run (system .w32 Crowd) h (crowd k) ∧ ∀ e ∈ h, Sound e := by
  induction k with
  | zero => exact ⟨[], .nil rfl, nofun⟩
  | succ k ih =>
    obtain ⟨h, hr, hsound⟩ := ih (by omega)
    refine ⟨_, hr.snoc (crowd_succ (by omega)), fun e he => ?_⟩
    rcases List.mem_append.mp he with he | he
    · exact hsound e he
    · obtain rfl := List.mem_singleton.mp he
      exact ⟨nofun, nofun⟩

/-- The counter is at zero while the lock is held and waited for. -/
theorem wrapped_counter : ∃ h s, Run (system .w32 Crowd) h s ∧ (∀ e ∈ h, Sound e) ∧
    ¬ NoLostWakeUp s := by
  obtain ⟨h, hr, hsound⟩ := run_crowd (Nat.le_refl _)
  refine ⟨h, _, hr, hsound, fun hno => ?_⟩
  have hguard : (crowd (2 ^ 32)).callers 0 = .guard := rfl
  have hpos : 0 < census Caller.holdsOrWaits (crowd (2 ^ 32)).callers :=
    census_pos (c := 0) (by rw [hguard]; rfl)
  have hzero : (crowd (2 ^ 32)).atomic.toNat = 0 := by decide
  rw [← hno.counts, hzero] at hpos
  exact Nat.lt_irrefl 0 hpos

end SandboxIpc.ThinLock
