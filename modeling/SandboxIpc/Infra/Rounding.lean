import Mathlib.Data.Nat.ModEq
import Mathlib.Order.Bounds.Basic

/-!
# Rounding to a multiple

* `roundDown`, `roundUp` — to a multiple of a number, the way remainders do it
* `isGreatest_roundDown`, `roundUp_lt` — they are the nearest ones
-/

namespace Infra

variable {p : Nat}

def roundDown (p x : Nat) : Nat := x - x % p

def roundUp (p x : Nat) : Nat := x + if x % p = 0 then 0 else p - x % p

variable {x : Nat}

theorem roundDown_add_mod (p x : Nat) : roundDown p x + x % p = x :=
  Nat.sub_add_cancel (Nat.mod_le x p)

theorem roundDown_le (p x : Nat) : roundDown p x ≤ x := Nat.sub_le _ _

theorem le_roundUp (p x : Nat) : x ≤ roundUp p x := Nat.le_add_right _ _

theorem sub_roundDown (p x : Nat) : x - roundDown p x = x % p := by
  have := roundDown_add_mod p x
  omega

theorem dvd_roundDown (p x : Nat) : p ∣ roundDown p x := Nat.dvd_sub_mod x

theorem dvd_roundUp (hp : 0 < p) (x : Nat) : p ∣ roundUp p x := by
  have hlt := Nat.mod_lt x hp
  unfold roundUp
  split
  · next hzero => exact Nat.dvd_of_mod_eq_zero hzero
  · have heq : x + (p - x % p) = roundDown p x + p := by
      have := roundDown_add_mod p x
      omega
    rw [heq]
    exact Nat.dvd_add (dvd_roundDown p x) (Nat.dvd_refl p)

theorem roundUp_lt (hp : 0 < p) (x : Nat) : roundUp p x < x + p := by
  have hlt := Nat.mod_lt x hp
  unfold roundUp
  split <;> omega

theorem isGreatest_roundDown (hp : 0 < p) (x : Nat) :
    IsGreatest {k | p ∣ k ∧ k ≤ x} (roundDown p x) := by
  refine ⟨⟨dvd_roundDown p x, roundDown_le p x⟩, ?_⟩
  rintro k ⟨⟨a, rfl⟩, hk⟩
  -- another multiple above it would be a whole `p` away
  obtain ⟨c, hc⟩ := dvd_roundDown p x
  have hx := roundDown_add_mod p x
  have hmod := Nat.mod_lt x hp
  rw [hc] at hx ⊢
  refine Nat.mul_le_mul_left p (Nat.le_of_lt_succ ?_)
  refine Nat.lt_of_mul_lt_mul_left (a := p) ?_
  rw [Nat.mul_succ]
  omega

end Infra
