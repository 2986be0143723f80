import Mathlib.Data.List.Induction

/-!
# Transition systems and their runs

A system is a step function that refuses an action with `none`. A run is recorded as the list of
the states its steps started from and the actions taken there, oldest first, so that a statement
about what happened earlier is a statement about a prefix of that list.

* `Run.history` — the induction rule: a property of the history and the state reached, under a
  condition that every step of the run meets
* `Run.invariant_of` — the special case of a property of the state alone
* `Run.ledger` — the special case where no condition is needed
* `Run.counted` — the special case where the history is only counted
* `Run.carry` — the same from an entry of the history on
* `Run.split`, `Run.of_mem` — every entry of the history is a step the system took after the entries
  before it
* `System.startingAt`, `Run.append` — how a run goes on
* `Always` — a property every entry of a history has, given the entries before it
* `System.replay` — the run a list of actions makes, to be evaluated
-/

namespace Infra

/-- A transition system: its initial states and a step function, `none` where the action is not
enabled. -/
structure System (σ α : Type*) where
  init : σ → Prop
  step : σ → α → Option σ

variable {σ α : Type*}

/-- Take the actions one after the other. The result is the history they leave and the last state,
`none` if one of them is not enabled. -/
def System.replay (M : System σ α) (s : σ) : List α → Option (List (σ × α) × σ)
  | [] => some ([], s)
  | a :: as =>
    (M.step s a).bind fun s' => (M.replay s' as).map fun r => ((s, a) :: r.1, r.2)

variable {M : System σ α}

/-- `Run M h s`: `M` reaches `s` by the steps listed in `h`. -/
inductive Run (M : System σ α) : List (σ × α) → σ → Prop
  | nil {s : σ} : M.init s → Run M [] s
  | snoc {h : List (σ × α)} {s s' : σ} {a : α} :
      Run M h s → M.step s a = some s' → Run M (h ++ [(s, a)]) s'

namespace Run

/--
The induction rule for runs.

`C` is a condition on single steps (the state a step starts from and its action) that every step of
the run is assumed to meet. The step case may use that `h` itself is a run.
-/
theorem history (C : σ × α → Prop) (I : List (σ × α) → σ → Prop)
    (hinit : ∀ s, M.init s → I [] s)
    (hstep : ∀ h s a s', Run M h s → (∀ e ∈ h, C e) → I h s → C (s, a) → M.step s a = some s' →
      I (h ++ [(s, a)]) s')
    {h : List (σ × α)} {s : σ} (hr : Run M h s) (hC : ∀ e ∈ h, C e) : I h s := by
  induction hr with
  | nil h0 => exact hinit _ h0
  | @snoc h s s' a hr hs ih =>
    have hpre : ∀ e ∈ h, C e := fun e he => hC e (List.mem_append_left _ he)
    exact hstep h s a s' hr hpre (ih hpre) (hC (s, a) (by simp)) hs

/-- A property of states that every step meeting `C` preserves. -/
theorem invariant_of (C : σ × α → Prop) (I : σ → Prop) (hinit : ∀ s, M.init s → I s)
    (hstep : ∀ s a s', I s → C (s, a) → M.step s a = some s' → I s')
    {h : List (σ × α)} {s : σ} (hr : Run M h s) (hC : ∀ e ∈ h, C e) : I s :=
  history C (fun _ s => I s) hinit (fun _ s a s' _ _ => hstep s a s') hr hC

/-- A relation of history and state that every step preserves. -/
theorem ledger (I : List (σ × α) → σ → Prop) (hinit : ∀ s, M.init s → I [] s)
    (hstep : ∀ h s a s', I h s → M.step s a = some s' → I (h ++ [(s, a)]) s')
    {h : List (σ × α)} {s : σ} (hr : Run M h s) : I h s :=
  history (fun _ => True) I hinit (fun h s a s' _ _ hi _ => hstep h s a s' hi) hr
    fun _ _ => trivial

/-- A property with a number in it that goes up by one at each step that `f` counts. -/
theorem counted {C : σ × α → Prop} (f : σ × α → Bool) {I : Nat → σ → Prop} {n : Nat}
    (hinit : ∀ s, M.init s → I n s)
    (hstep : ∀ k s a s', I k s → C (s, a) → M.step s a = some s' → I (k + (f (s, a)).toNat) s')
    {h : List (σ × α)} {s : σ} (hr : Run M h s) (hC : ∀ e ∈ h, C e) : I (n + h.countP f) s := by
  refine hr.history C (fun h s => I (n + h.countP f) s) hinit ?_ hC
  intro h s a s' _ _ ih he hs
  have hnext := hstep _ s a s' ih he hs
  rw [List.countP_append, List.countP_singleton, ← Nat.add_assoc]
  cases hf : f (s, a) <;> rw [hf] at hnext <;> exact hnext

/-- The entry after a prefix of the history is a step taken from a state that prefix reaches. -/
theorem split {h h' : List (σ × α)} {e : σ × α} {s : σ} (hr : Run M (h ++ e :: h') s) :
    Run M h e.1 ∧ ∃ s', M.step e.1 e.2 = some s' ∧ Run M (h ++ [e]) s' := by
  induction h' using List.reverseRecOn generalizing s with
  | nil =>
    generalize hg : h ++ [e] = g at hr
    cases hr with
    | nil _ => simp at hg
    | @snoc g s₀ s' a hr hs =>
      obtain ⟨rfl, rfl⟩ : h = g ∧ e = (s₀, a) := by simpa using List.append_inj' hg rfl
      exact ⟨hr, s, hs, hr.snoc hs⟩
  | append_singleton h' e' ih =>
    rw [← List.cons_append, ← List.append_assoc] at hr
    generalize hg : (h ++ e :: h') ++ [e'] = g at hr
    cases hr with
    | nil _ => simp at hg
    | @snoc g s₀ s' a hr hs =>
      obtain ⟨rfl, -⟩ : h ++ e :: h' = g ∧ e' = (s₀, a) := by
        simpa using List.append_inj' hg rfl
      exact ih hr

/-- Every entry starts from a state that the entries before it reach. -/
theorem of_mem {h : List (σ × α)} {s : σ} (hr : Run M h s) {e : σ × α} (he : e ∈ h) :
    ∃ pre, Run M pre e.1 ∧ (∀ x ∈ pre, x ∈ h) ∧ ∃ s', M.step e.1 e.2 = some s' := by
  obtain ⟨pre, post, rfl⟩ := List.append_of_mem he
  obtain ⟨hpre, s', hs, -⟩ := hr.split
  exact ⟨pre, hpre, fun x hx => List.mem_append_left _ hx, s', hs⟩

/-- What the entry `e` starts from is carried on to all that follows. -/
theorem carry {C : σ × α → Prop} {I : σ → Prop}
    (hstep : ∀ s a s', I s → C (s, a) → M.step s a = some s' → I s')
    {h k : List (σ × α)} {e : σ × α} {s : σ} (hr : Run M (h ++ e :: k) s)
    (hC : ∀ x ∈ e :: k, C x) (he : I e.1) : I s := by
  induction k using List.reverseRecOn generalizing s with
  | nil =>
    generalize hg : h ++ [e] = g at hr
    cases hr with
    | nil => simp at hg
    | @snoc g s₀ s' a _ hs =>
      obtain ⟨rfl, rfl⟩ : h = g ∧ e = (s₀, a) := by simpa using List.append_inj' hg rfl
      exact hstep _ _ _ he (hC _ (.head _)) hs
  | append_singleton k x ih =>
    rw [← List.cons_append, ← List.append_assoc] at hr
    generalize hg : (h ++ e :: k) ++ [x] = g at hr
    cases hr with
    | nil => simp at hg
    | @snoc g s₀ s' a hr₀ hs =>
      obtain ⟨rfl, rfl⟩ : h ++ e :: k = g ∧ x = (s₀, a) := by simpa using List.append_inj' hg rfl
      have hpre : ∀ y ∈ e :: k, C y := fun y hy => hC y (by
        rw [← List.cons_append]
        exact List.mem_append_left _ hy)
      exact hstep _ _ _ (ih hr₀ hpre) (hC (s₀, a) (by simp)) hs

/-- A replay from the end of a run extends the run. -/
theorem replay {h h' : List (σ × α)} {s s' : σ} {as : List α} (hr : Run M h s)
    (hp : M.replay s as = some (h', s')) : Run M (h ++ h') s' := by
  induction as generalizing h h' s with
  | nil =>
    obtain ⟨rfl, rfl⟩ : [] = h' ∧ s = s' := by simpa [System.replay] using hp
    simpa using hr
  | cons a as ih =>
    obtain ⟨s₁, hs, hp⟩ := Option.bind_eq_some_iff.mp hp
    obtain ⟨r, hr', he⟩ := Option.map_eq_some_iff.mp hp
    obtain ⟨rfl, rfl⟩ : (s, a) :: r.1 = h' ∧ r.2 = s' := by simpa using he
    have := ih (hr.snoc hs) hr'
    simpa using this

/-- A replay from an initial state is a run. -/
theorem of_replay (as : List α) {h : List (σ × α)} {s s' : σ} (hinit : M.init s)
    (hp : M.replay s as = some (h, s')) : Run M h s' := by
  simpa using (Run.nil hinit).replay hp

end Run

/-- The same steps, from the state `s` on. -/
def System.startingAt (M : System σ α) (s : σ) : System σ α where
  init := (· = s)
  step := M.step

/-- A run goes on from the state it has reached. -/
theorem Run.append {h k : List (σ × α)} {s s' : σ} (hr : Run M h s)
    (hk : Run (M.startingAt s) k s') : Run M (h ++ k) s' := by
  induction hk with
  | nil hinit =>
    obtain rfl := hinit
    rwa [List.append_nil]
  | snoc _ hs ih =>
    rw [← List.append_assoc]
    exact ih.snoc hs

/-- Every entry of `h` stands in the relation `P` to the entries before it. -/
def Always {β : Type*} (P : List β → β → Prop) (h : List β) : Prop :=
  ∀ pre e post, h = pre ++ e :: post → P pre e

theorem always_singleton {β : Type*} {P : List β → β → Prop} {e : β} : Always P [e] ↔ P [] e := by
  constructor
  · intro h
    exact h [] e [] rfl
  · intro h pre e' post he
    cases pre with
    | nil =>
      obtain ⟨rfl, -⟩ := List.cons.inj he
      exact h
    | cons x pre =>
      have hlength := congrArg List.length he
      simp at hlength

/-- Two such statements about a run are the same if they are for every step that meets `C`, and all
steps of the run do. -/
theorem Run.always_iff_of (C : σ × α → Prop) {P Q : List (σ × α) → σ × α → Prop}
    {h : List (σ × α)} {s : σ} (hr : Run M h s) (hC : ∀ e ∈ h, C e)
    (hiff : ∀ pre s a s', Run M pre s → C (s, a) → M.step s a = some s' →
      (P pre (s, a) ↔ Q pre (s, a))) :
    Always P h ↔ Always Q h := by
  have hstep : ∀ pre e post, h = pre ++ e :: post → (P pre e ↔ Q pre e) := by
    rintro pre ⟨s₁, a⟩ post rfl
    obtain ⟨hpre, s', hs, -⟩ := hr.split
    exact hiff pre s₁ a s' hpre (hC _ (by simp)) hs
  constructor
  · intro hP pre e post he
    exact (hstep pre e post he).mp (hP pre e post he)
  · intro hQ pre e post he
    exact (hstep pre e post he).mpr (hQ pre e post he)

/-- The special case where no condition is needed. -/
theorem Run.always_iff {P Q : List (σ × α) → σ × α → Prop} {h : List (σ × α)} {s : σ}
    (hr : Run M h s)
    (hiff : ∀ pre s a s', Run M pre s → M.step s a = some s' → (P pre (s, a) ↔ Q pre (s, a))) :
    Always P h ↔ Always Q h :=
  hr.always_iff_of (fun _ => True) (fun _ _ => trivial) fun pre s a s' hpre _ => hiff pre s a s' hpre

/-- What an entry of a longer history is. -/
theorem exists_mem_snoc {β : Type*} {P : β → Prop} {l : List β} {x : β} :
    (∃ e ∈ l ++ [x], P e) ↔ (∃ e ∈ l, P e) ∨ P x := by
  simp only [List.mem_append, List.mem_singleton, or_and_right, exists_or, exists_eq_left]

end Infra
