import Mathlib.Data.Fintype.Card
import Mathlib.Data.Finset.Card
import Mathlib.Order.Interval.Finset.Nat

/-!
# Tickets

Agents draw consecutive numbers from a dispenser. The tickets still held form one interval
`lo ≤ i < hi`: `hi` is the next number to be drawn, and everything below `lo` has been served. A
ticket leaves the interval at either end only: the newest one can be handed back, the oldest one
can be served. `OneByOne` is the special case of agents that do not overlap.
-/

namespace Infra

variable {ι : Type*}

/-- The agents hold exactly the tickets from `lo` up to `hi`, no two agents the same one. -/
structure Tickets (held : ι → Option Nat) (lo hi : Nat) : Prop where
  le : lo ≤ hi
  bounds : ∀ {c i}, held c = some i → lo ≤ i ∧ i < hi
  cover : ∀ {i}, lo ≤ i → i < hi → ∃ c, held c = some i
  inj : ∀ {c c' i}, held c = some i → held c' = some i → c = c'

namespace Tickets

variable {held : ι → Option Nat} {lo hi : Nat}

theorem none_held (n : Nat) : Tickets (fun _ : ι => none) n n where
  le := Nat.le_refl n
  bounds h := by simp at h
  cover h1 h2 := by omega
  inj h := by simp at h

variable [DecidableEq ι]

/-- An agent without a ticket draws the next one. -/
theorem draw (h : Tickets held lo hi) {c : ι} (hc : held c = none) :
    Tickets (Function.update held c (some hi)) lo (hi + 1) where
  le := by have := h.le; omega
  bounds {d i} hd := by
    have hle := h.le
    by_cases hdc : d = c
    · subst hdc
      simp only [Function.update_self, Option.some.injEq] at hd
      omega
    · rw [Function.update_of_ne hdc] at hd
      have := h.bounds hd
      omega
  cover {i} h1 h2 := by
    by_cases hi' : i = hi
    · exact ⟨c, by rw [hi', Function.update_self]⟩
    · obtain ⟨d, hd⟩ := h.cover h1 (by omega)
      have hdc : d ≠ c := by rintro rfl; rw [hc] at hd; simp at hd
      exact ⟨d, by rw [Function.update_of_ne hdc]; exact hd⟩
  inj {d d' i} hd hd' := by
    by_cases hdc : d = c <;> by_cases hdc' : d' = c
    · rw [hdc, hdc']
    · subst hdc
      rw [Function.update_of_ne hdc'] at hd'
      simp only [Function.update_self, Option.some.injEq] at hd
      have := h.bounds hd'
      omega
    · subst hdc'
      rw [Function.update_of_ne hdc] at hd
      simp only [Function.update_self, Option.some.injEq] at hd'
      have := h.bounds hd
      omega
    · rw [Function.update_of_ne hdc] at hd
      rw [Function.update_of_ne hdc'] at hd'
      exact h.inj hd hd'

/-- What is left after the holder of ticket `i` gives it up, where `i` is an end of the interval. -/
theorem drop_end (h : Tickets held lo hi) {c : ι} {i lo' hi' : Nat} (hc : held c = some i)
    (hle : lo' ≤ hi') (hends : ∀ j, (lo' ≤ j ∧ j < hi') ↔ (lo ≤ j ∧ j < hi ∧ j ≠ i)) :
    Tickets (Function.update held c none) lo' hi' where
  le := hle
  bounds {d j} hd := by
    by_cases hdc : d = c
    · subst hdc; simp at hd
    · rw [Function.update_of_ne hdc] at hd
      refine (hends j).mpr ⟨(h.bounds hd).1, (h.bounds hd).2, ?_⟩
      rintro rfl
      exact hdc (h.inj hd hc)
  cover {j} h1 h2 := by
    obtain ⟨h1', h2', hne⟩ := (hends j).mp ⟨h1, h2⟩
    obtain ⟨d, hd⟩ := h.cover h1' h2'
    have hdc : d ≠ c := by
      rintro rfl
      rw [hc] at hd
      exact hne (by simpa using hd.symm)
    exact ⟨d, by rw [Function.update_of_ne hdc]; exact hd⟩
  inj {d d' j} hd hd' := by
    have hdc : d ≠ c := by rintro rfl; simp at hd
    have hdc' : d' ≠ c := by rintro rfl; simp at hd'
    rw [Function.update_of_ne hdc] at hd
    rw [Function.update_of_ne hdc'] at hd'
    exact h.inj hd hd'

/-- The holder of the newest ticket hands it back. -/
theorem handBack (h : Tickets held lo hi) {c : ι} {i : Nat} (hc : held c = some i)
    (hi : hi = i + 1) : Tickets (Function.update held c none) lo i :=
  h.drop_end hc (h.bounds hc).1 (fun j => by omega)

/-- The holder of the oldest ticket is served. -/
theorem serve (h : Tickets held lo hi) {c : ι} (hc : held c = some lo) :
    Tickets (Function.update held c none) (lo + 1) hi :=
  h.drop_end hc (h.bounds hc).2 (fun j => by omega)

omit [DecidableEq ι] in
/-- When nobody holds a ticket, all have been served. -/
theorem eq_of_none (h : Tickets held lo hi) (hnone : ∀ c, held c = none) : lo = hi := by
  refine Nat.le_antisymm h.le (Nat.le_of_not_lt fun hlt => ?_)
  obtain ⟨c, hc⟩ := h.cover (Nat.le_refl _) hlt
  rw [hnone c] at hc
  cases hc

omit [DecidableEq ι] in
/-- While there are tickets, somebody holds the newest one. -/
theorem newest (h : Tickets held lo hi) (hlt : lo < hi) : ∃ c, held c = some (hi - 1) :=
  h.cover (by omega) (by omega)

omit [DecidableEq ι] in
/-- While there are tickets, somebody holds the oldest one. -/
theorem oldest (h : Tickets held lo hi) (hlt : lo < hi) : ∃ c, held c = some lo :=
  h.cover (Nat.le_refl _) hlt

omit [DecidableEq ι] in
/-- There are at least as many agents holding a ticket from `k` on as there are such tickets. -/
theorem sub_le_card [Fintype ι] (h : Tickets held lo hi) {k : Nat} (hk : lo ≤ k)
    (P : ι → Bool) (hP : ∀ {c i}, held c = some i → k ≤ i → P c = true) :
    hi - k ≤ (Finset.univ.filter fun c => P c = true).card := by
  have hex : ∀ i ∈ Finset.Ico k hi, ∃ c, held c = some i := fun i hi' => by
    rw [Finset.mem_Ico] at hi'
    exact h.cover (by omega) hi'.2
  rw [← Nat.card_Ico]
  refine Finset.card_le_card_of_surjOn (fun c => (held c).getD 0) ?_
  intro i hi'
  obtain ⟨c, hc⟩ := hex i hi'
  have hki : k ≤ i := (Finset.mem_Ico.mp hi').1
  exact ⟨c, by simpa using hP hc hki, by simp [hc]⟩

omit [DecidableEq ι] in
/-- Agents that all hold a ticket from `a` up to `b` are no more than there are such tickets. -/
theorem card_le_sub [Fintype ι] (h : Tickets held lo hi) {a b : Nat} (P : ι → Bool)
    (hP : ∀ {c}, P c = true → ∃ i, held c = some i ∧ a ≤ i ∧ i < b) :
    (Finset.univ.filter fun c => P c = true).card ≤ b - a := by
  rw [← Nat.card_Ico]
  refine Finset.card_le_card_of_injOn (fun c => (held c).getD 0) ?_ ?_
  · intro c hc
    obtain ⟨i, hi, hai, hib⟩ := hP (by simpa using hc)
    simpa [hi] using ⟨hai, hib⟩
  · intro c hc d hd hcd
    obtain ⟨i, hi, -⟩ := hP (by simpa using hc)
    obtain ⟨j, hj, -⟩ := hP (by simpa using hd)
    obtain rfl : i = j := by simpa [hi, hj] using hcd
    exact h.inj hi hj

end Tickets

/-! ## One agent at a time -/

/-- At most one agent is calling. Between two calls the ticket `free` is the next to be drawn, and
during a call the caller holds it. -/
structure OneByOne {κ : Type*} (calling : κ → Bool) (ticket : κ → Option Nat) (free next : Nat)
    (f : ι → κ) : Prop where
  between : (∀ d, calling (f d) = false) → next = free
  within : ∀ {d i}, calling (f d) = true → ticket (f d) = some i → i = free ∧ next = i + 1

namespace OneByOne

variable {κ : Type*} {calling : κ → Bool} {ticket : κ → Option Nat} {free next : Nat} {f : ι → κ}

/-- An agent starts, or calls on, or is done, while nobody else is calling. -/
theorem update [DecidableEq ι] {c : ι} {x : κ} (hothers : ∀ d, d ≠ c → calling (f d) = false)
    (hbetween : calling x = false → next = free)
    (hwithin : ∀ i, calling x = true → ticket x = some i → i = free ∧ next = i + 1) :
    OneByOne calling ticket free next (Function.update f c x) where
  between hout := by
    have hx := hout c
    rw [Function.update_self] at hx
    exact hbetween hx
  within {d i} hcalling hticket := by
    by_cases hd : d = c
    · subst hd
      rw [Function.update_self] at hcalling hticket
      exact hwithin i hcalling hticket
    · rw [Function.update_of_ne hd, hothers d hd] at hcalling
      cases hcalling

/-- When nobody but `c` can be calling and `c` is not, the next ticket is free. -/
theorem free_of (h : OneByOne calling ticket free next f) {c : ι}
    (hothers : ∀ d, d ≠ c → calling (f d) = false) (hc : calling (f c) = false) : next = free := by
  refine h.between fun d => ?_
  by_cases hd : d = c
  · rwa [hd]
  · exact hothers d hd

end OneByOne

end Infra
