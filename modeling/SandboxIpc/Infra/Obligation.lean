import Mathlib.Logic.Basic

/-!
# Programs that owe something

A program makes calls and goes on with the answers. An answer may leave something behind that a later
call of the same program has to set right.

* `Prog` — programs as trees of calls
* `Prog.run` — what a program does with some answers
* `Discipline` — what a call leaves behind, and what it sets right
* `Discipline.Settles` — the program sets something right whatever regular answers it gets
* `Discipline.Sound` — the program sets right all that it leaves behind
* `Discipline.settles_next`, `Discipline.sound_next` — how both go on with an answer
-/

namespace Infra

/-- A program that makes calls `κ`, gets answers `α` and ends with `ρ`. -/
inductive Prog (κ α ρ : Type)
  | done (result : ρ)
  | call (c : κ) (next : α → Prog κ α ρ)

/-- The calls a program makes, each with its answer, and how it ends. `answers n` is for the call after
the first `n`. -/
def Prog.run {κ α ρ : Type} (answers : Nat → α) : Prog κ α ρ → Nat → List (κ × α) × ρ
  | .done result, _ => ([], result)
  | .call c next, n =>
    let (calls, result) := (next (answers n)).run answers (n + 1)
    ((c, answers n) :: calls, result)

section Run

variable {κ α ρ : Type} {answers : Nat → α}

@[simp] theorem Prog.run_done (result : ρ) (n : Nat) :
    (Prog.done result : Prog κ α ρ).run answers n = ([], result) := rfl

@[simp] theorem Prog.run_call (c : κ) (next : α → Prog κ α ρ) (n : Nat) :
    (Prog.call c next).run answers n
      = ((c, answers n) :: ((next (answers n)).run answers (n + 1)).1,
        ((next (answers n)).run answers (n + 1)).2) := rfl

end Run

/-- A discipline for calls. -/
structure Discipline (κ α ι : Type) where
  /-- The answer leaves this behind. -/
  incurs : κ → α → ι → Prop
  /-- The call sets this right. -/
  settles : κ → ι → Prop
  /-- The answer is one that programs rely on. -/
  regular : κ → α → Prop

namespace Discipline

variable {κ α ι ρ : Type} (D : Discipline κ α ι)

def Settles (x : ι) : Prog κ α ρ → Prop
  | .done _ => False
  | .call c next => D.settles c x ∨ ∀ a, D.regular c a → Settles x (next a)

/-- `allowed` are the answers that are considered. -/
def Sound (allowed : κ → α → Prop) : Prog κ α ρ → Prop
  | .done _ => True
  | .call c next => ∀ a, allowed c a →
      (∀ x, D.incurs c a x → D.Settles x (next a)) ∧ Sound allowed (next a)

variable {D} {allowed : κ → α → Prop} {c : κ} {next : α → Prog κ α ρ}

theorem settles_next {x : ι} {a : α} (h : D.Settles x (.call c next)) (hnot : ¬ D.settles c x)
    (hregular : D.regular c a) : D.Settles x (next a) :=
  h.resolve_left hnot a hregular

theorem sound_next {a : α} (h : D.Sound allowed (.call c next)) (ha : allowed c a) :
    (∀ x, D.incurs c a x → D.Settles x (next a)) ∧ D.Sound allowed (next a) := h a ha

/-- A call that leaves nothing behind. -/
theorem sound_of_quiet (hquiet : ∀ a x, ¬ D.incurs c a x) (hnext : ∀ a, D.Sound allowed (next a)) :
    D.Sound allowed (.call c next) := by
  intro a _
  exact ⟨fun x hx => absurd hx (hquiet a x), hnext a⟩

end Discipline

end Infra
