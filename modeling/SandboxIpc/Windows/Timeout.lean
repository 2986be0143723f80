import SandboxIpc.Machine

/-!
# Timeouts, `windows/channel.rs`

`accept` and `connect` of a `NamedMessageChannel` make a `Duration` a number of milliseconds of 32
bits, two of which have a meaning of their own for the system.

* `acceptTimeout`, `connectTimeout` — what the system is given
* `Faithful` — what a caller may expect of it
* `timeout_faithful_iff` — the durations that it is true of
* `waits_forever` — a duration of 49 days for which there is no timeout
-/

namespace SandboxIpc.Windows

/-- A `u64`, on any target. -/
abbrev U64 := Usize .w64

/-- A `DWORD` or a `ULONG`. -/
abbrev Dword := BitVec 32

/-- `std::time::Duration`. -/
structure Duration where
  secs : U64
  nanos : BitVec 32
  nanos_lt : nanos.toNat < 1000000000

namespace Duration

variable (d d' : Duration)

/-- As it is derived, from the first field to the last. -/
instance : LE Duration :=
  ⟨fun d d' => d.secs < d'.secs ∨ d.secs = d'.secs ∧ d.nanos ≤ d'.nanos⟩

/-- The whole milliseconds in it, in exact arithmetic. -/
def wholeMillis : Nat := d.secs.toNat * 1000 + d.nanos.toNat / 1000000

/-- Some time is requested. -/
def Positive : Prop := d.secs ≠ 0 ∨ d.nanos ≠ 0

variable {d d'}

theorem le_iff : d ≤ d' ↔ d.secs.toNat < d'.secs.toNat ∨
    d.secs.toNat = d'.secs.toNat ∧ d.nanos.toNat ≤ d'.nanos.toNat := by
  rw [BitVec.toNat_inj]
  exact Iff.rfl

theorem wholeMillis_mono (h : d ≤ d') : d.wholeMillis ≤ d'.wholeMillis := by
  have := d.nanos_lt
  rw [le_iff] at h
  unfold wholeMillis
  omega

end Duration

/-- `INFINITE` and `NMPWAIT_WAIT_FOREVER`. -/
def infinite : Dword := 0xffffffff

/-- `NMPWAIT_USE_DEFAULT_WAIT`, for `WaitNamedPipeW`. -/
def useDefaultWait : Dword := 0

/-- The largest value that is a time. -/
def largestFinite : Dword := 0xfffffffe

/-! ## The conversion -/

variable (b : Build)

/-- `(d.as_secs() * 1000 + (d.subsec_nanos() as u64 / (1000 * 1000))) as DWORD`. -/
def millis (d : Duration) : Outcome Dword := do
  let fromSecs ← b.mul d.secs 1000
  let sum ← b.add fromSecs ((d.nanos.setWidth _ : U64) / (1000 * 1000))
  .ok (sum.setWidth 32)

/-- What `NamedMessageChannel::accept` gives `GetOverlappedResultEx`. -/
def acceptTimeout : Option Duration → Outcome Dword
  | some duration => millis b duration
  | none => .ok infinite

/-- What `NamedMessageChannel::connect` gives `WaitNamedPipeW`. -/
def connectTimeout : Option Duration → Outcome Dword
  | some duration => millis b duration
  | none => .ok infinite

/-- What a caller may expect of the value for a duration. -/
structure Faithful (timeout : Option Duration → Outcome Dword) (d : Duration) (ms : Dword) : Prop where
  monotone : ∀ d' ≤ d, ∀ ms', timeout (some d') = .ok ms' → ms' ≤ ms
  /-- It is not too short, unless there is none longer. -/
  lower : d.wholeMillis ≤ ms.toNat ∨ ms = largestFinite
  finite : ms ≠ infinite

/-! ## What is computed -/

section Millis

variable {b} {d : Duration}

theorem toNat_subsecMillis (d : Duration) :
    ((d.nanos.setWidth _ : U64) / (1000 * 1000)).toNat = d.nanos.toNat / 1000000 := by
  have hlt : d.nanos.toNat < 2 ^ PointerWidth.w64.bits := Nat.lt_trans d.nanos_lt (by decide)
  rw [BitVec.toNat_udiv, BitVec.toNat_setWidth, Nat.mod_eq_of_lt hlt]
  rfl

/-- The sum and the cast wrap around. -/
theorem toNat_of_millis {ms : Dword} (h : millis b d = .ok ms) :
    ms.toNat = d.wholeMillis % 2 ^ 32 := by
  unfold millis at h
  simp only [bind, Except.bind] at h
  rcases hmul : b.mul d.secs 1000 with e | product
  · rw [hmul] at h
    cases h
  · rw [hmul] at h
    dsimp only at h
    rcases hadd : b.add product ((d.nanos.setWidth _ : U64) / (1000 * 1000)) with e | sum
    · rw [hadd] at h
      cases h
    · rw [hadd] at h
      obtain rfl := Except.ok.inj h
      rw [Build.eq_of_add hadd, Build.eq_of_mul hmul, BitVec.toNat_setWidth, BitVec.toNat_add,
        BitVec.toNat_mul, toNat_subsecMillis, Nat.mod_add_mod, Nat.mod_mod_of_dvd _ (by decide)]
      rfl

/-- As long as nothing overflows the builds agree. -/
theorem millis_ok (h : d.wholeMillis < 2 ^ 64) : ∃ ms, millis b d = .ok ms := by
  have hsecs : (1000 : U64).toNat = 1000 := rfl
  have hmul : d.secs.toNat * 1000 < 2 ^ 64 := Nat.lt_of_le_of_lt (Nat.le_add_right _ _) h
  have hproduct : (d.secs * 1000).toNat = d.secs.toNat * 1000 :=
    BitVec.toNat_mul_of_lt hmul
  unfold millis
  simp only [bind, Except.bind]
  rw [Build.mul_of_lt hmul]
  dsimp only
  rw [Build.add_of_lt]
  · exact ⟨_, rfl⟩
  · rw [hproduct, toNat_subsecMillis]
    exact h

/-- A duration of less than `2 ^ 32` milliseconds is converted exactly. -/
theorem millis_exact (h : d.wholeMillis < 2 ^ 32) :
    ∃ ms, millis b d = .ok ms ∧ ms.toNat = d.wholeMillis := by
  obtain ⟨ms, hms⟩ := millis_ok (b := b) (Nat.lt_trans h (by decide))
  exact ⟨ms, hms, by rw [toNat_of_millis hms, Nat.mod_eq_of_lt h]⟩

end Millis

/-! ## Which durations are converted faithfully -/

/-- The shortest duration that has as many milliseconds as `infinite`. -/
def endless : Duration := ⟨4294967, 295000000, by decide⟩

/-- It does not have a timeout at all. -/
theorem millis_endless : millis b endless = .ok infinite := by
  cases b <;> rfl

variable {b} {d : Duration} {timeout : Option Duration → Outcome Dword}

/-- Longer ones are either as endless or shorter than they should be. -/
theorem lt_of_faithful (htimeout : ∀ d, timeout (some d) = millis b d) {ms : Dword}
    (h : Faithful timeout d ms) : d.wholeMillis < 0xffffffff := by
  refine Nat.lt_of_not_le fun hge => ?_
  have hle : endless ≤ d := by
    have := d.nanos_lt
    rw [Duration.le_iff]
    unfold Duration.wholeMillis at hge
    show 4294967 < _ ∨ 4294967 = _ ∧ 295000000 ≤ _
    omega
  -- no time is as long as the one of `endless`, which is none
  have hmax := h.monotone endless hle infinite ((htimeout _).trans (millis_endless b))
  refine h.finite (BitVec.eq_of_toNat_eq (Nat.le_antisymm ?_ (BitVec.le_def.mp hmax)))
  exact Nat.le_of_lt_succ ms.isLt

variable (timeout) in
theorem faithful_of_lt (htimeout : ∀ d, timeout (some d) = millis b d)
    (h : d.wholeMillis < 0xffffffff) :
    ∃ ms, timeout (some d) = .ok ms ∧ Faithful timeout d ms ∧ ms.toNat = d.wholeMillis := by
  obtain ⟨ms, hms, hvalue⟩ := millis_exact (b := b) (Nat.lt_trans h (by decide))
  refine ⟨ms, (htimeout d).trans hms, ⟨?_, ?_, ?_⟩, hvalue⟩
  · intro d' hle ms' hms'
    rw [htimeout] at hms'
    rw [BitVec.le_def, toNat_of_millis hms', hvalue]
    exact Nat.le_trans (Nat.mod_le _ _) (Duration.wholeMillis_mono hle)
  · exact .inl (Nat.le_of_eq hvalue.symm)
  · rintro rfl
    exact Nat.ne_of_gt h hvalue

/--
A duration is given to the system faithfully if and only if it has less than `2 ^ 32 - 1` whole
milliseconds and, for `connect`, at least one unless it is zero.
-/
theorem timeout_faithful_iff (b : Build) (d : Duration) :
    ((∃ ms, acceptTimeout b (some d) = .ok ms ∧ Faithful (acceptTimeout b) d ms) ↔
      d.wholeMillis < 0xffffffff) ∧
    ((∃ ms, connectTimeout b (some d) = .ok ms ∧ Faithful (connectTimeout b) d ms ∧
        (d.Positive → ms ≠ useDefaultWait)) ↔
      d.wholeMillis < 0xffffffff ∧ (d.Positive → 1 ≤ d.wholeMillis)) := by
  refine ⟨⟨?_, fun h => ?_⟩, ⟨?_, ?_⟩⟩
  · rintro ⟨ms, -, h⟩
    exact lt_of_faithful (fun _ => rfl) h
  · obtain ⟨ms, hms, hfaithful, -⟩ := faithful_of_lt (acceptTimeout b) (fun _ => rfl) h
    exact ⟨ms, hms, hfaithful⟩
  · rintro ⟨ms, hms, h, hdefault⟩
    have hlt := lt_of_faithful (fun _ => rfl) h
    refine ⟨hlt, fun hpos => Nat.pos_of_ne_zero fun hzero => ?_⟩
    refine hdefault hpos (BitVec.eq_of_toNat_eq ?_)
    rw [toNat_of_millis hms, hzero]
    rfl
  · rintro ⟨h, hpos⟩
    obtain ⟨ms, hms, hfaithful, hvalue⟩ :=
      faithful_of_lt (connectTimeout b) (fun _ => rfl) h
    refine ⟨ms, hms, hfaithful, fun hp => ?_⟩
    rintro rfl
    exact Nat.ne_of_gt (hpos hp) hvalue.symm

/-- After 49 days, 17 hours, 2 minutes and 47.295 seconds a caller is to be told; it never is. -/
theorem waits_forever :
    acceptTimeout .release (some endless) = .ok infinite ∧
    connectTimeout .release (some endless) = .ok infinite ∧
    ¬ (∃ ms, acceptTimeout .release (some endless) = .ok ms ∧
      Faithful (acceptTimeout .release) endless ms) ∧
    ¬ (∃ ms, connectTimeout .release (some endless) = .ok ms ∧
      Faithful (connectTimeout .release) endless ms ∧ (endless.Positive → ms ≠ useDefaultWait)) := by
  refine ⟨millis_endless _, millis_endless _, ?_, ?_⟩
  · rintro ⟨ms, -, h⟩
    exact absurd (lt_of_faithful (fun _ => rfl) h) (by decide)
  · rintro ⟨ms, -, h, -⟩
    exact absurd (lt_of_faithful (fun _ => rfl) h) (by decide)

end SandboxIpc.Windows
