import SandboxIpc.Infra.Registry

/-!
# Leases

Entries of a registry are handed out in groups, and each group is taken back as a whole. Entries of
other kinds come and go in between.

* `Leased` — the groups are in the registry and apart, and account for all its entries of their kind
* `Leased.grant`, `Leased.release` — a group comes, a group goes
* `Leased.put_other`, `Leased.close_other` — and so do other entries
-/

namespace Infra

variable {ι κ α : Type}

/-- `kind` says which entries are handed out; `leases` are the groups. -/
structure Leased (kind : α → Prop) (t : Registry κ α) (leases : ι → List (κ × α)) : Prop where
  held : ∀ id, ∀ e ∈ leases id, t e.1 = some e.2
  of_kind : ∀ id, ∀ e ∈ leases id, kind e.2
  apart : ∀ id id', id ≠ id' → ((leases id).map Prod.fst).Disjoint ((leases id').map Prod.fst)
  accounted : ∀ k a, t k = some a → kind a → ∃ id, (k, a) ∈ leases id

namespace Leased

variable {kind : α → Prop} {t : Registry κ α} {leases : ι → List (κ × α)}

/-- Nothing is handed out. -/
theorem none (h : ∀ k a, t k = some a → ¬ kind a) :
    Leased kind t fun _ : ι => ([] : List (κ × α)) where
  held _ _ he := nomatch he
  of_kind _ _ he := nomatch he
  apart _ _ _ := List.disjoint_nil_left _
  accounted k a ha hkind := absurd hkind (h k a ha)

/-- A key that is free belongs to nobody. -/
theorem notMem_of_free (h : Leased kind t leases) {k : κ} (hk : t k = .none) (id : ι) :
    k ∉ (leases id).map Prod.fst := by
  intro hmem
  obtain ⟨e, he, rfl⟩ := List.mem_map.mp hmem
  rw [h.held id e he] at hk
  cases hk

variable [DecidableEq κ]

section Groups

variable [DecidableEq ι] {id : ι}

/-- Free keys are handed out. -/
theorem grant (h : Leased kind t leases) {entries : List (κ × α)}
    (hfree : t.Free (entries.map Prod.fst)) (hkind : ∀ e ∈ entries, kind e.2)
    (hid : leases id = []) : Leased kind (t.put entries) (Function.update leases id entries) := by
  have hself : Function.update leases id entries id = entries := Function.update_self ..
  have hother : ∀ {id'}, id' ≠ id → Function.update leases id entries id' = leases id' :=
    fun hne => Function.update_of_ne hne ..
  have hnew : ∀ id', (entries.map Prod.fst).Disjoint ((leases id').map Prod.fst) :=
    fun id' k hk => h.notMem_of_free (hfree.2 k hk) id'
  refine ⟨fun id' e he => ?_, fun id' e he => ?_, fun id₁ id₂ hne => ?_, fun k a ha hka => ?_⟩
  · by_cases hid' : id' = id
    · subst hid'
      rw [hself] at he
      exact Registry.put_of_mem he hfree.1
    · rw [hother hid'] at he
      exact Registry.put_of_eq_some hfree (h.held id' e he)
  · by_cases hid' : id' = id
    · subst hid'
      rw [hself] at he
      exact hkind e he
    · rw [hother hid'] at he
      exact h.of_kind id' e he
  · by_cases h₁ : id₁ = id
    · subst h₁
      rw [hself, hother hne.symm]
      exact hnew id₂
    · rw [hother h₁]
      by_cases h₂ : id₂ = id
      · subst h₂
        rw [hself]
        exact List.disjoint_symm (hnew id₁)
      · rw [hother h₂]
        exact h.apart id₁ id₂ hne
  · rcases Registry.put_cases ha with ha | hmem
    · obtain ⟨id', hid'⟩ := h.accounted k a ha hka
      have hne : id' ≠ id := by
        rintro rfl
        rw [hid] at hid'
        cases hid'
      exact ⟨id', by rwa [hother hne]⟩
    · exact ⟨id, by rwa [hself]⟩

/-- A group is taken back, and all others are left. -/
theorem release (h : Leased kind t leases) (id : ι) :
    Leased kind (t.close ((leases id).map Prod.fst)) (Function.update leases id []) := by
  have hself : Function.update leases id [] id = [] := Function.update_self ..
  have hother : ∀ {id'}, id' ≠ id → Function.update leases id [] id' = leases id' :=
    fun hne => Function.update_of_ne hne ..
  refine ⟨fun id' e he => ?_, fun id' e he => ?_, fun id₁ id₂ hne => ?_, fun k a ha hka => ?_⟩
  · by_cases hid' : id' = id
    · subst hid'
      rw [hself] at he
      cases he
    · rw [hother hid'] at he
      rw [Registry.close_of_notMem (h.apart id' id hid' (List.mem_map_of_mem he))]
      exact h.held id' e he
  · by_cases hid' : id' = id
    · subst hid'
      rw [hself] at he
      cases he
    · rw [hother hid'] at he
      exact h.of_kind id' e he
  · by_cases h₁ : id₁ = id
    · subst h₁
      rw [hself]
      exact List.disjoint_nil_left _
    · rw [hother h₁]
      by_cases h₂ : id₂ = id
      · subst h₂
        rw [hself]
        exact List.disjoint_nil_right _
      · rw [hother h₂]
        exact h.apart id₁ id₂ hne
  · obtain ⟨id', hid'⟩ := h.accounted k a (Registry.of_close ha) hka
    have hne : id' ≠ id := by
      rintro rfl
      have hgone : t.close ((leases id').map Prod.fst) k = .none :=
        if_pos (List.mem_map_of_mem hid')
      rw [hgone] at ha
      cases ha
    exact ⟨id', by rwa [hother hne]⟩

end Groups

/-! ## Other entries -/

variable {k : κ} {a : α}

theorem put_other (h : Leased kind t leases) (hfree : t k = .none) (hkind : ¬ kind a) :
    Leased kind (t.put [(k, a)]) leases := by
  have hput : ∀ {k'}, k' ≠ k → t.put [(k, a)] k' = t k' := fun hne =>
    Registry.put_of_notMem fun hmem => hne (List.mem_singleton.mp hmem)
  refine ⟨fun id e he => ?_, h.of_kind, h.apart, fun k' a' ha' hka' => ?_⟩
  · have hne : e.1 ≠ k := by
      intro heq
      rw [← heq, h.held id e he] at hfree
      cases hfree
    rw [hput hne]
    exact h.held id e he
  · rcases Registry.put_cases ha' with ha' | hmem
    · exact h.accounted k' a' ha' hka'
    · obtain ⟨rfl, rfl⟩ := Prod.mk.inj (List.mem_singleton.mp hmem)
      exact absurd hka' hkind

theorem close_other (h : Leased kind t leases) (hk : t k = some a) (hkind : ¬ kind a) :
    Leased kind (t.close [k]) leases := by
  refine ⟨fun id e he => ?_, h.of_kind, h.apart, fun k' a' ha' hka' => ?_⟩
  · have hne : e.1 ∉ [k] := by
      intro hmem
      rw [← List.mem_singleton.mp hmem, h.held id e he] at hk
      obtain rfl := Option.some.inj hk
      exact hkind (h.of_kind id e he)
    rw [Registry.close_of_notMem hne]
    exact h.held id e he
  · exact h.accounted k' a' (Registry.of_close ha') hka'

end Leased

end Infra
