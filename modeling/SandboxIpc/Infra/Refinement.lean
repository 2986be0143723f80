import SandboxIpc.Infra.Run

/-!
# Refinement

Two systems are compared by what an observer sees of their steps. One *refines* the other if
whatever can be seen of its runs can be seen of a run of the other.

* `trace` — what is seen of a history
* `System.Goes` — a way from one state to another, with what is seen on the way
* `Run.simulated` — forward simulation: every step of one system is matched by a way of the other
* `Run.mapped` — a refinement mapping, where a function gives the state of the other system
-/

namespace Infra

variable {σ α τ β ω : Type*}

/-- What an observer sees of a history, oldest first. -/
def trace (see : σ × α → Option ω) (h : List (σ × α)) : List ω := h.filterMap see

@[simp] theorem trace_nil (see : σ × α → Option ω) : trace see [] = [] := rfl

theorem trace_append (see : σ × α → Option ω) (h k : List (σ × α)) :
    trace see (h ++ k) = trace see h ++ trace see k :=
  List.filterMap_append ..

theorem trace_singleton (see : σ × α → Option ω) (e : σ × α) :
    trace see [e] = (see e).toList := by
  unfold trace
  cases h : see e <;> simp [h]

/-- If everything is seen, what is seen is what was done. -/
theorem trace_all (h : List (σ × α)) : trace (fun e => some e.2) h = h.map Prod.snd :=
  congrFun (List.filterMap_eq_map (f := Prod.snd)) h

/-- One step is a run from where it starts. -/
theorem Run.one {M : System σ α} {s s' : σ} {a : α} (h : M.step s a = some s') :
    Run (M.startingAt s) [(s, a)] s' := by
  have hinit : (M.startingAt s).init s := rfl
  exact (Run.nil hinit).snoc h

/-- A replay from where a run has got to is a run of its own. -/
theorem Run.onward {M : System σ α} {h k : List (σ × α)} {s s' : σ} (_ : Run M h s) (as : List α)
    (hp : (M.startingAt s).replay s as = some (k, s')) : Run (M.startingAt s) k s' :=
  Run.of_replay as rfl hp

/-- A run starts somewhere. -/
theorem Run.exists_start {M : System σ α} {h : List (σ × α)} {s : σ} (hr : Run M h s) :
    ∃ s₀, M.init s₀ ∧ Run (M.startingAt s₀) h s := by
  induction hr with
  | nil hinit => exact ⟨_, hinit, .nil rfl⟩
  | snoc _ hs ih =>
    obtain ⟨s₀, hinit, hr⟩ := ih
    exact ⟨s₀, hinit, hr.snoc hs⟩

/-- A replay takes the steps it is asked to take. -/
theorem System.actions_of_replay {M : System σ α} {as : List α} {h : List (σ × α)} {s s' : σ}
    (hp : M.replay s as = some (h, s')) : h.map Prod.snd = as := by
  induction as generalizing h s with
  | nil =>
    obtain ⟨rfl, -⟩ := Prod.mk.inj (Option.some.inj hp)
    rfl
  | cons a as ih =>
    obtain ⟨s₁, -, hp⟩ := Option.bind_eq_some_iff.mp hp
    obtain ⟨r, hr, he⟩ := Option.map_eq_some_iff.mp hp
    obtain ⟨rfl, rfl⟩ := Prod.mk.inj he
    exact congrArg (a :: ·) (ih hr)

/-- `A.Goes see t ws t'`: there is a way from `t` to `t'` on which `ws` is seen. -/
def System.Goes (A : System τ β) (see : τ × β → Option ω) (t : τ) (ws : List ω) (t' : τ) : Prop :=
  ∃ k, Run (A.startingAt t) k t' ∧ trace see k = ws

namespace System.Goes

variable {A : System τ β} {see : τ × β → Option ω} {t t' t'' : τ} {ws ws' : List ω}

theorem refl (t : τ) : A.Goes see t [] t := ⟨[], .nil rfl, rfl⟩

theorem trans (h : A.Goes see t ws t') (h' : A.Goes see t' ws' t'') :
    A.Goes see t (ws ++ ws') t'' := by
  obtain ⟨k, hk, rfl⟩ := h
  obtain ⟨k', hk', rfl⟩ := h'
  exact ⟨k ++ k', hk.append hk', trace_append ..⟩

/-- One step is a way. -/
theorem step {b : β} (h : A.step t b = some t') : A.Goes see t (see (t, b)).toList t' :=
  ⟨[(t, b)], .one h, trace_singleton ..⟩

/-- A step that is not seen goes before anything else. -/
theorem unseen {b : β} (h : A.step t b = some t') (hsee : see (t, b) = none)
    (h' : A.Goes see t' ws t'') : A.Goes see t ws t'' := by
  have hone : A.Goes see t (see (t, b)).toList t' := step h
  rw [hsee] at hone
  exact hone.trans h'

/-- A step at which `w` is seen, and after it nothing more. -/
theorem seen {b : β} {w : ω} (h : A.step t b = some t') (hsee : see (t, b) = some w)
    (h' : A.Goes see t' [] t'') : A.Goes see t [w] t'' := by
  have hone : A.Goes see t (see (t, b)).toList t' := step h
  rw [hsee] at hone
  exact hone.trans h'

end System.Goes

/--
Forward simulation.

`R` relates the states of the two systems. Every step of `M` that meets `C`, in a run of such steps,
is matched by a way of `A` on which the same is seen.
-/
theorem Run.simulated {M : System σ α} (A : System τ β) (see : σ × α → Option ω)
    (see' : τ × β → Option ω) (C : σ × α → Prop) (R : σ → τ → Prop)
    (hinit : ∀ s, M.init s → ∃ t, A.init t ∧ R s t)
    (hstep : ∀ h s a s' t, Run M h s → (∀ e ∈ h, C e) → R s t → C (s, a) → M.step s a = some s' →
      ∃ t', A.Goes see' t (see (s, a)).toList t' ∧ R s' t')
    {h : List (σ × α)} {s : σ} (hr : Run M h s) (hC : ∀ e ∈ h, C e) :
    ∃ k t, Run A k t ∧ R s t ∧ trace see' k = trace see h := by
  refine hr.history C (fun h s => ∃ k t, Run A k t ∧ R s t ∧ trace see' k = trace see h) ?_ ?_ hC
  · intro s h0
    obtain ⟨t, ht, hR⟩ := hinit s h0
    exact ⟨[], t, .nil ht, hR, rfl⟩
  · rintro h s a s' hr hpre ⟨k, t, hk, hR, htrace⟩ he hs
    obtain ⟨t', ⟨k', hk', htrace'⟩, hR'⟩ := hstep h s a s' t hr hpre hR he hs
    refine ⟨k ++ k', t', hk.append hk', hR', ?_⟩
    rw [trace_append, trace_append, htrace, htrace', trace_singleton]

/-- What a function of the states and one of the steps make of a history; a step can be dropped. -/
def image (f : σ → τ) (g : σ × α → Option β) (h : List (σ × α)) : List (τ × β) :=
  h.filterMap fun e => (g e).map fun b => (f e.1, b)

theorem image_snoc (f : σ → τ) (g : σ × α → Option β) (h : List (σ × α)) (e : σ × α) :
    image f g (h ++ [e]) = image f g h ++ ((g e).map fun b => (f e.1, b)).toList := by
  unfold image
  rw [List.filterMap_append]
  exact congrArg _ (trace_singleton (fun e => (g e).map fun b => (f e.1, b)) e)

theorem mem_image {f : σ → τ} {g : σ × α → Option β} {h : List (σ × α)} {e : σ × α} {b : β}
    (he : e ∈ h) (hb : g e = some b) : (f e.1, b) ∈ image f g h :=
  List.mem_filterMap.mpr ⟨e, he, by rw [hb]; rfl⟩

theorem exists_of_mem_image {f : σ → τ} {g : σ × α → Option β} {h : List (σ × α)} {x : τ × β}
    (hx : x ∈ image f g h) : ∃ e ∈ h, f e.1 = x.1 ∧ g e = some x.2 := by
  obtain ⟨e, he, hmap⟩ := List.mem_filterMap.mp hx
  obtain ⟨b, hb, rfl⟩ := Option.map_eq_some_iff.mp hmap
  exact ⟨e, he, rfl, hb⟩

/--
A refinement mapping.

Every step of `M` that meets `C`, in a run of such steps, is a step of `A` between the images of its
states, or it is dropped and does not change the image.
-/
theorem Run.mapped_of {M : System σ α} (A : System τ β) (f : σ → τ) (g : σ × α → Option β)
    (C : σ × α → Prop) (hinit : ∀ s, M.init s → A.init (f s))
    (hstep : ∀ h s a s', Run M h s → (∀ e ∈ h, C e) → C (s, a) → M.step s a = some s' →
      (∀ b, g (s, a) = some b → A.step (f s) b = some (f s')) ∧ (g (s, a) = none → f s' = f s))
    {h : List (σ × α)} {s : σ} (hr : Run M h s) (hC : ∀ e ∈ h, C e) :
    Run A (image f g h) (f s) := by
  refine hr.history C (fun h s => Run A (image f g h) (f s)) (fun s h0 => .nil (hinit s h0)) ?_ hC
  intro h s a s' hr hpre ih he hs
  obtain ⟨hkept, hdropped⟩ := hstep h s a s' hr hpre he hs
  rw [image_snoc]
  cases hg : g (s, a) with
  | none =>
    rw [hdropped hg]
    simpa using ih
  | some b => exact ih.snoc (hkept b hg)

/-- The special case where no condition is needed. -/
theorem Run.mapped {M : System σ α} (A : System τ β) (f : σ → τ) (g : σ × α → Option β)
    (hinit : ∀ s, M.init s → A.init (f s))
    (hstep : ∀ h s a s', Run M h s → M.step s a = some s' →
      (∀ b, g (s, a) = some b → A.step (f s) b = some (f s')) ∧ (g (s, a) = none → f s' = f s))
    {h : List (σ × α)} {s : σ} (hr : Run M h s) : Run A (image f g h) (f s) :=
  hr.mapped_of A f g (fun _ => True) hinit (fun h s a s' hr _ _ => hstep h s a s' hr)
    fun _ _ => trivial

end Infra
