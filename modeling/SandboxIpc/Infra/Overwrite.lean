import Mathlib.Data.List.Basic

/-!
# Overwriting the start of a buffer

`overwrite src dest` is `dest` with its first entries replaced by `src`. A longer `src` makes the
buffer longer, so most lemmas assume that it fits.
-/

namespace Infra

variable {α : Type*} {src dest : List α}

/-- `dest[..src.len()].copy_from_slice(src)`. -/
def overwrite (src dest : List α) : List α := src ++ dest.drop src.length

@[simp] theorem length_overwrite (h : src.length ≤ dest.length) :
    (overwrite src dest).length = dest.length := by
  rw [overwrite, List.length_append, List.length_drop, Nat.add_sub_cancel' h]

/-- What was written can be read back. -/
@[simp] theorem take_overwrite : (overwrite src dest).take src.length = src := by
  rw [overwrite, List.take_left]

theorem overwrite_append (src src' dest : List α) :
    overwrite (src ++ src') dest = src ++ overwrite src' (dest.drop src.length) := by
  rw [overwrite, overwrite, List.append_assoc, List.drop_drop, List.length_append]

end Infra
