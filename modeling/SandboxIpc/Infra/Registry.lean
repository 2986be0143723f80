import Mathlib.Data.List.Basic
import Mathlib.Logic.Function.Basic

/-!
# Registries

What some keys stand for, as in the table of the open descriptors of a process.

* `Registry.put`, `Registry.close` — entries come and go
* `Registry.amend` — entries change
* `Registry.copied` — entries for new keys, made of those of other keys
-/

namespace Infra

abbrev Registry (κ α : Type) := κ → Option α

namespace Registry

variable {κ α : Type} [DecidableEq κ] (t : Registry κ α)

def put : List (κ × α) → Registry κ α
  | [] => t
  | (k, a) :: rest => Function.update (put rest) k (some a)

def close (keys : List κ) : Registry κ α := fun k => if k ∈ keys then none else t k

/-- What becomes of the entries of some keys. -/
def amend (keys : List κ) (f : α → α) : Registry κ α :=
  fun k => if k ∈ keys then (t k).map f else t k

/-- Different keys that are not in use. -/
def Free (keys : List κ) : Prop := keys.Nodup ∧ ∀ k ∈ keys, t k = none

instance [DecidableEq α] (keys : List κ) : Decidable (t.Free keys) :=
  inferInstanceAs (Decidable (_ ∧ _))

/-- Each of `copies` is a key in use and a new one. `f` is what becomes of an entry. -/
def copied (f : α → α) (copies : List (κ × κ)) : List (κ × α) :=
  copies.filterMap fun c => (t c.1).map fun a => (c.2, f a)

def CanCopy (copies : List (κ × κ)) : Prop :=
  (∀ c ∈ copies, (t c.1).isSome) ∧ t.Free (copies.map Prod.snd)

instance [DecidableEq α] (copies : List (κ × κ)) : Decidable (t.CanCopy copies) :=
  inferInstanceAs (Decidable (_ ∧ _))

variable {t} {entries : List (κ × α)} {k : κ} {a : α} {keys : List κ}

theorem put_of_mem (h : (k, a) ∈ entries) (hnodup : (entries.map Prod.fst).Nodup) :
    t.put entries k = some a := by
  induction entries with
  | nil => cases h
  | cons x entries ih =>
    obtain ⟨hnot, hnodup⟩ := List.nodup_cons.mp hnodup
    unfold put
    rcases List.mem_cons.mp h with rfl | h
    · exact Function.update_self _ _ _
    · have hne : k ≠ x.1 := by
        rintro rfl
        exact hnot (List.mem_map.mpr ⟨_, h, rfl⟩)
      rw [Function.update_of_ne hne]
      exact ih h hnodup

theorem put_of_notMem (h : k ∉ entries.map Prod.fst) : t.put entries k = t k := by
  induction entries with
  | nil => rfl
  | cons x entries ih =>
    rw [List.map_cons, List.mem_cons, not_or] at h
    unfold put
    rw [Function.update_of_ne h.1]
    exact ih h.2

/-- Nothing is forgotten of what was in the table before. -/
theorem put_of_eq_some (hfree : t.Free (entries.map Prod.fst)) (h : t k = some a) :
    t.put entries k = some a := by
  rw [put_of_notMem, h]
  intro hmem
  rw [hfree.2 k hmem] at h
  cases h

/-- Whatever is in the table was there before or has been put into it. -/
theorem put_cases (h : t.put entries k = some a) : t k = some a ∨ (k, a) ∈ entries := by
  induction entries with
  | nil => exact .inl h
  | cons x entries ih =>
    unfold put at h
    by_cases hk : k = x.1
    · subst hk
      rw [Function.update_self] at h
      obtain rfl := Option.some.inj h
      exact .inr (.head _)
    · rw [Function.update_of_ne hk] at h
      exact (ih h).imp_right (List.mem_cons_of_mem _)

theorem close_of_notMem (h : k ∉ keys) : t.close keys k = t k := if_neg h

theorem of_close (h : t.close keys k = some a) : t k = some a :=
  (Option.ite_none_left_eq_some.mp h).2

theorem amend_of_notMem {f : α → α} (h : k ∉ keys) : t.amend keys f k = t k := if_neg h

section Copies

variable {f : α → α} {copies : List (κ × κ)}

omit [DecidableEq κ] in
theorem fst_copied (h : ∀ c ∈ copies, (t c.1).isSome) :
    (t.copied f copies).map Prod.fst = copies.map Prod.snd := by
  induction copies with
  | nil => rfl
  | cons c copies ih =>
    obtain ⟨a, ha⟩ := Option.isSome_iff_exists.mp (h c (.head _))
    unfold copied at ih ⊢
    rw [List.filterMap_cons, ha]
    exact congrArg (c.2 :: ·) (ih fun c hc => h c (.tail _ hc))

omit [DecidableEq κ] in
theorem free_copied (h : t.CanCopy copies) : t.Free ((t.copied f copies).map Prod.fst) := by
  rw [fst_copied h.1]
  exact h.2

theorem put_copied_of_eq_some (hcan : t.CanCopy copies) (h : t k = some a) :
    t.put (t.copied f copies) k = some a := put_of_eq_some (free_copied hcan) h

omit [DecidableEq κ] in
theorem of_mem_copied {x : κ × α} (h : x ∈ t.copied f copies) :
    ∃ c ∈ copies, ∃ a, t c.1 = some a ∧ x = (c.2, f a) := by
  obtain ⟨c, hc, hx⟩ := List.mem_filterMap.mp h
  obtain ⟨a, ha, rfl⟩ := Option.map_eq_some_iff.mp hx
  exact ⟨c, hc, a, ha, rfl⟩

omit [DecidableEq κ] in
theorem mem_copied {new : κ} (hmem : (k, new) ∈ copies) (h : t k = some a) :
    (new, f a) ∈ t.copied f copies :=
  List.mem_filterMap.mpr ⟨(k, new), hmem, by rw [h]; rfl⟩

/-- A new key stands for what becomes of the entry it was made of. -/
theorem put_copied_of_mem (hcan : t.CanCopy copies) {new : κ} (hmem : (k, new) ∈ copies)
    (h : t k = some a) : t.put (t.copied f copies) new = some (f a) :=
  put_of_mem (mem_copied hmem h) (free_copied hcan).1

end Copies

end Registry

end Infra
