import Mathlib.Data.Fintype.Card
import Mathlib.Data.Finset.Card

/-!
# Counting agents

How many agents of a finite set are in a given class of local states, and how that number changes
when one agent moves.
-/

namespace Infra

variable {ι κ : Type*} [Fintype ι]

/-- The number of agents whose local state satisfies `P`. -/
def census (P : κ → Bool) (f : ι → κ) : Nat := (Finset.univ.filter fun c => P (f c) = true).card

theorem census_eq_zero {P : κ → Bool} {f : ι → κ} : census P f = 0 ↔ ∀ c, P (f c) = false := by
  simp [census, Finset.card_eq_zero, Finset.filter_eq_empty_iff]

theorem census_pos {P : κ → Bool} {f : ι → κ} {c : ι} (h : P (f c) = true) : 0 < census P f :=
  Finset.card_pos.mpr ⟨c, by simpa using h⟩

theorem census_const {P : κ → Bool} {x : κ} (h : P x = false) :
    census P (fun _ : ι => x) = 0 :=
  census_eq_zero.mpr fun _ => h

/-- Two agents of a class with at most one member are the same agent. -/
theorem eq_of_census_le_one {P : κ → Bool} {f : ι → κ} (h : census P f ≤ 1) {c c' : ι}
    (hc : P (f c) = true) (hc' : P (f c') = true) : c = c' :=
  Finset.card_le_one.mp h c (by simpa using hc) c' (by simpa using hc')

/-- A class nobody but `c` is in has at most one member. -/
theorem census_le_one {P : κ → Bool} {f : ι → κ} {c : ι} (h : ∀ d, d ≠ c → P (f d) = false) :
    census P f ≤ 1 := by
  have honly : ∀ d, P (f d) = true → d = c := by
    intro d hd
    by_contra hne
    rw [h d hne] at hd
    cases hd
  refine Finset.card_le_one.mpr fun d hd d' hd' => ?_
  rw [honly d (by simpa using hd), honly d' (by simpa using hd')]

variable [DecidableEq ι]

/--
One agent moves from `f c` to `x`.

Stated without subtraction: the agent's old membership is added on the new side and its new
membership on the old side.
-/
theorem census_update (P : κ → Bool) (f : ι → κ) (c : ι) (x : κ) :
    census P (Function.update f c x) + (P (f c)).toNat = census P f + (P x).toNat := by
  have hsplit : ∀ g : ι → κ, census P g
      = ((Finset.univ.erase c).filter fun d => P (g d) = true).card + (P (g c)).toNat := by
    intro g
    unfold census
    rw [← Finset.insert_erase (Finset.mem_univ c), Finset.filter_insert]
    cases hg : P (g c) with
    | false => simp
    | true =>
      rw [if_pos rfl, Finset.card_insert_of_notMem (by simp)]
      simp
  have hrest : ((Finset.univ.erase c).filter fun d => P (Function.update f c x d) = true)
      = ((Finset.univ.erase c).filter fun d => P (f d) = true) := by
    refine Finset.filter_congr fun d hd => ?_
    rw [Function.update_of_ne (Finset.ne_of_mem_erase hd)]
  rw [hsplit (Function.update f c x), hsplit f, hrest, Function.update_self]
  omega

end Infra
