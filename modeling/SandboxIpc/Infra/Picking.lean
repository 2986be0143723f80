import Mathlib.Data.List.Nodup

/-!
# Picking entries of a list by their indices

`pick l is` are the entries of `l` at the indices `is`. An index outside of `l` picks nothing.

* `pick_range` — all indices pick all entries
* `nodup_of_pick` — who picks no entry twice has asked for no index twice
* `pick_once_iff` — from distinct entries, each is picked once if and only if each index is asked once
-/

namespace Infra

variable {α : Type*}

def pick (l : List α) (is : List Nat) : List α := is.filterMap (l[·]?)

@[simp] theorem pick_nil (l : List α) : pick l [] = [] := rfl

theorem pick_cons {l : List α} {i : Nat} {x : α} (h : l[i]? = some x) (is : List Nat) :
    pick l (i :: is) = x :: pick l is := List.filterMap_cons_some h

theorem mem_pick {l : List α} {is : List Nat} {x : α} :
    x ∈ pick l is ↔ ∃ i ∈ is, l[i]? = some x := List.mem_filterMap

theorem pick_range (l : List α) : pick l (List.range l.length) = l := by
  induction l with
  | nil => rfl
  | cons x l ih =>
    rw [List.length_cons, List.range_succ_eq_map, pick_cons rfl]
    unfold pick at ih ⊢
    rw [List.filterMap_map]
    exact congrArg (x :: ·) ih

theorem nodup_of_pick {l : List α} {is : List Nat} (his : ∀ i ∈ is, i < l.length)
    (h : (pick l is).Nodup) : is.Nodup := by
  induction is with
  | nil => exact List.nodup_nil
  | cons i is ih =>
    have hi := List.getElem?_eq_getElem (his i (.head _))
    rw [pick_cons hi, List.nodup_cons] at h
    rw [List.nodup_cons]
    exact ⟨fun hmem => h.1 (mem_pick.mpr ⟨i, hmem, hi⟩),
      ih (fun j hj => his j (.tail _ hj)) h.2⟩

theorem pick_once_iff [DecidableEq α] {l : List α} {is : List Nat} (hl : l.Nodup)
    (his : ∀ i ∈ is, i < l.length) :
    (∀ x ∈ l, (pick l is).count x = 1) ∧ (pick l is).Nodup ↔ is.Perm (List.range l.length) := by
  constructor
  · rintro ⟨honce, hnodup⟩
    rw [List.perm_ext_iff_of_nodup (nodup_of_pick his hnodup) List.nodup_range]
    intro i
    rw [List.mem_range]
    refine ⟨his i, fun hi => ?_⟩
    -- the entry at `i` has been picked, and no other index picks it
    have hcount := honce l[i] (List.getElem_mem hi)
    have hmem : l[i] ∈ pick l is := List.count_pos_iff.mp (by rw [hcount]; exact Nat.one_pos)
    obtain ⟨j, hj, hget⟩ := mem_pick.mp hmem
    rw [← List.getElem?_eq_getElem hi] at hget
    obtain rfl := (List.getElem?_inj (his j hj) hl).mp hget
    exact hj
  · intro hperm
    have hall : (pick l is).Perm l := by
      have hpick := hperm.filterMap (l[·]?)
      rwa [show (List.range l.length).filterMap (l[·]?) = l from pick_range l] at hpick
    refine ⟨fun x hx => ?_, hall.nodup_iff.mpr hl⟩
    rw [hall.count_eq]
    exact List.count_eq_one_of_mem hl hx

end Infra
