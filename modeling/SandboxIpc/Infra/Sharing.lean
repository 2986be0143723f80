import SandboxIpc.Infra.Refinement
import Mathlib.Logic.Function.Basic

/-!
# Shared arrays

Arrays that are read and written through windows. Any number of windows may show the same cells.

* `Sharing.step`, `Sharing.system` — windows come and go, and cells are read and written in them
* `Sharing.value` — what a cell holds, from what was seen
* `Sharing.coherent` — whichever window is read, it shows what was written last, through any window
-/

namespace Infra

variable {κ O B : Type}

/-- Some cells of the array of an object. -/
structure Window (O : Type) where
  object : O
  first : Nat
  length : Nat
  writable : Bool
  deriving DecidableEq

structure Sharing (κ O B : Type) where
  cells : O → Nat → B
  windows : κ → Option (Window O)

namespace Sharing

inductive Op (κ O B : Type)
  | add (k : κ) (window : Window O)
  | remove (k : κ)
  | write (k : κ) (i : Nat) (b : B)
  | read (k : κ) (i : Nat)

/-- A cell is known by its object and its place there. -/
inductive Event (κ O B : Type)
  | added (k : κ) (window : Window O)
  | removed (k : κ)
  | wrote (k : κ) (object : O) (place : Nat) (b : B)
  | read (k : κ) (object : O) (place : Nat) (b : B)
  deriving DecidableEq

variable [DecidableEq κ] [DecidableEq O]

def store (cells : O → Nat → B) (object : O) (place : Nat) (b : B) : O → Nat → B :=
  Function.update cells object (Function.update (cells object) place b)

def step (s : Sharing κ O B) : Op κ O B → Option (Sharing κ O B)
  | .add k window =>
    if (s.windows k).isNone then some { s with windows := Function.update s.windows k (some window) }
    else none
  | .remove k => (s.windows k).map fun _ => { s with windows := Function.update s.windows k none }
  | .write k i b =>
    (s.windows k).bind fun w =>
      if w.writable ∧ i < w.length then
        some { s with cells := store s.cells w.object (w.first + i) b }
      else none
  | .read k i => (s.windows k).bind fun w => if i < w.length then some s else none

omit [DecidableEq κ] [DecidableEq O] in
def see : Sharing κ O B × Op κ O B → Option (Event κ O B)
  | (_, .add k window) => some (.added k window)
  | (_, .remove k) => some (.removed k)
  | (s, .write k i b) => (s.windows k).map fun w => .wrote k w.object (w.first + i) b
  | (s, .read k i) =>
    (s.windows k).map fun w => .read k w.object (w.first + i) (s.cells w.object (w.first + i))

/-- Arrays that nobody has a window on. -/
def system (cells : O → Nat → B) : System (Sharing κ O B) (Op κ O B) where
  init s := s = ⟨cells, fun _ => none⟩
  step := step

omit [DecidableEq κ] in
/-- What a cell holds once something was seen. -/
def value (cells : O → Nat → B) (seen : List (Event κ O B)) (object : O) (place : Nat) : B :=
  seen.foldl (fun cells e => match e with
    | .wrote _ object place b => store cells object place b
    | _ => cells) cells object place

/-- Whatever is read is what the cell holds then. -/
def Coherent (cells : O → Nat → B) (seen : List (Event κ O B)) : Prop :=
  ∀ pre k object place b post, seen = pre ++ .read k object place b :: post →
    b = value cells pre object place

section Coherence

variable {cells : O → Nat → B}

omit [DecidableEq κ] in
theorem value_snoc (seen : List (Event κ O B)) (e : Event κ O B)
    (h : ∀ k object place b, e ≠ .wrote k object place b) :
    value cells (seen ++ [e]) = value cells seen := by
  funext object place
  unfold value
  rw [List.foldl_append]
  cases e with
  | wrote k object place b => exact absurd rfl (h k object place b)
  | added | removed | read => rfl

omit [DecidableEq κ] in
theorem value_wrote (seen : List (Event κ O B)) (k : κ) (object : O) (place : Nat) (b : B) :
    value cells (seen ++ [.wrote k object place b])
      = store (value cells seen) object place b := by
  funext object' place'
  unfold value
  rw [List.foldl_append]
  rfl

omit [DecidableEq κ] in
theorem Coherent.snoc {seen : List (Event κ O B)} (h : Coherent cells seen) {e : Event κ O B}
    (he : ∀ k object place b, e = .read k object place b → b = value cells seen object place) :
    Coherent cells (seen ++ [e]) := by
  intro pre k object place b post heq
  induction post using List.reverseRecOn with
  | nil =>
    obtain ⟨rfl, hlast⟩ := List.append_inj' heq rfl
    exact he k object place b (List.cons.inj hlast).1
  | append_singleton post x _ =>
    rw [← List.cons_append, ← List.append_assoc] at heq
    obtain ⟨hseen, -⟩ := List.append_inj' heq rfl
    exact h pre k object place b post hseen

/-- Whichever window is read, it shows what was written last, through any window. -/
theorem coherent {h : List (Sharing κ O B × Op κ O B)} {s : Sharing κ O B}
    (hr : Run (system cells) h s) :
    s.cells = value cells (trace see h) ∧ Coherent cells (trace see h) := by
  refine hr.ledger (fun h s => s.cells = value cells (trace see h) ∧ Coherent cells (trace see h))
    ?_ ?_
  · rintro s rfl
    exact ⟨rfl, fun pre k object place b post heq => absurd (congrArg List.length heq) (by simp)⟩
  · rintro h s a s' ⟨hcells, hcoherent⟩ hs
    rw [trace_append, trace_singleton]
    cases a with
    | add k window =>
      obtain ⟨-, rfl⟩ : _ ∧ _ = s' := by simpa [system, step] using hs
      exact ⟨hcells.trans (value_snoc _ _ nofun).symm, hcoherent.snoc nofun⟩
    | remove k =>
      obtain ⟨w, -, rfl⟩ := Option.map_eq_some_iff.mp hs
      exact ⟨hcells.trans (value_snoc _ _ nofun).symm, hcoherent.snoc nofun⟩
    | write k i b =>
      obtain ⟨w, hw, hs⟩ := Option.bind_eq_some_iff.mp hs
      obtain ⟨-, rfl⟩ : _ ∧ _ = s' := by simpa using hs
      have hsee : see (s, .write k i b) = some (.wrote k w.object (w.first + i) b) :=
        congrArg (Option.map _) hw
      rw [hsee]
      refine ⟨?_, hcoherent.snoc nofun⟩
      exact (congrArg (store · w.object (w.first + i) b) hcells).trans
        (value_wrote _ k w.object (w.first + i) b).symm
    | read k i =>
      obtain ⟨w, hw, hs⟩ := Option.bind_eq_some_iff.mp hs
      obtain ⟨-, rfl⟩ : _ ∧ s = s' := by simpa using hs
      have hsee : see (s, .read k i)
          = some (.read k w.object (w.first + i) (s.cells w.object (w.first + i))) :=
        congrArg (Option.map _) hw
      rw [hsee]
      refine ⟨hcells.trans (value_snoc _ _ nofun).symm, hcoherent.snoc ?_⟩
      rintro k object place b ⟨⟩
      rw [hcells]

end Coherence

end Sharing

end Infra
