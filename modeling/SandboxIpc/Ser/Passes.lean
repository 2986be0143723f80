import SandboxIpc.Ser.Bincode

/-!
# Any number of passes

An encoder may go through an item more than once before it writes it, and asks for every resource each
time. bincode does so once.

* `Code.passes` — as often as one likes
* `Code.passes_ok` — what is written names what was answered last
-/

namespace SandboxIpc

variable {ρ α σ : Type}

/-- A list, one time after the other. -/
def repeated {β : Type} (k : Nat) (l : List β) : List β := (List.replicate k l).flatten

@[simp] theorem repeated_zero {β : Type} (l : List β) : repeated 0 l = [] := rfl

@[simp] theorem repeated_succ {β : Type} (k : Nat) (l : List β) :
    repeated (k + 1) l = l ++ repeated k l := rfl

@[simp] theorem length_repeated {β : Type} (k : Nat) (l : List β) :
    (repeated k l).length = k * l.length := by
  simp [repeated]

/-- The last time. -/
theorem drop_repeated {β : Type} (k : Nat) (l : List β) :
    (repeated (k + 1) l).drop (k * l.length) = l := by
  induction k with
  | zero => simp
  | succ k ih =>
    rw [repeated_succ, Nat.succ_mul, Nat.add_comm, ← List.drop_drop, List.drop_left]
    exact ih

namespace Code

section Passes

variable (content : α → List UInt8) (limit : Nat) (ps : List (Piece ρ))

/-- Some passes that add up sizes, and one that writes. -/
def passes : Nat → Code ρ α
  | 0 => writing content ps
  | k + 1 => sizing content limit ps 0 (passes k)

end Passes

variable {H : Nat → ρ → σ → Except String α × σ} {content : α → List UInt8} {limit : Nat}

/-- A pass that adds up sizes and comes to its end has been answered for all resources. -/
theorem sizing_ok {ps : List (Piece ρ)} {sz : Nat} {next : Code ρ α} {n : Nat} {s : σ} {c : Cursor}
    {x : σ × Cursor} (h : (sizing content limit ps sz next).run H n s c = (.ok (), x)) :
    ∃ answers s', serve H (resources ps) n s = (.ok answers, s') ∧
      next.run H (n + (resources ps).length) s' c = (.ok (), x) := by
  induction ps generalizing sz n s with
  | nil => exact ⟨[], s, rfl, h⟩
  | cons piece ps ih =>
    cases piece with
    | bytes bytes =>
      rw [sizing] at h
      split at h
      · exact ih h
      · cases h
    | resource r =>
      rw [sizing, run_resource] at h
      rw [resources, serve_cons, List.length_cons]
      rcases hr : H n r s with ⟨message | answer, s₁⟩
      · rw [hr] at h
        cases h
      · rw [hr] at h
        dsimp only at h
        split at h
        · obtain ⟨answers, s', hserve, hnext⟩ := ih h
          refine ⟨answer :: answers, s', ?_, ?_⟩
          · dsimp only
            rw [hserve]
            rfl
          · rwa [Nat.add_comm (resources ps).length, ← Nat.add_assoc]
        · cases h

theorem put_ok {bytes : List UInt8} {next : Code ρ α} {n : Nat} {s : σ} {c : Cursor} {x : σ × Cursor}
    (hc : c.position ≤ c.buffer.length) (h : (put bytes next).run H n s c = (.ok (), x)) :
    (c.writeAll bytes).2.written = c.written ++ bytes ∧
      next.run H n s (c.writeAll bytes).2 = (.ok (), x) := by
  rw [put, run_write] at h
  cases hfits : (c.writeAll bytes).1 with
  | false =>
    rw [hfits] at h
    cases h
  | true =>
    rw [hfits] at h
    rw [Cursor.written_writeAll hc, Cursor.take_of_fitted hfits]
    exact ⟨rfl, h⟩

/-- The pass that writes has written what was answered. -/
theorem writing_ok {ps : List (Piece ρ)} {n : Nat} {s s' : σ} {c c' : Cursor}
    (hc : c.position ≤ c.buffer.length) (h : (writing content ps).run H n s c = (.ok (), s', c')) :
    ∃ answers, serve H (resources ps) n s = (.ok answers, s') ∧
      c'.written = c.written ++ render content ps answers := by
  induction ps generalizing n s c with
  | nil =>
    obtain ⟨rfl, rfl⟩ := Prod.mk.inj (Prod.mk.inj h).2
    exact ⟨[], rfl, (List.append_nil _).symm⟩
  | cons piece ps ih =>
    cases piece with
    | bytes bytes =>
      rw [writing] at h
      obtain ⟨hwritten, hnext⟩ := put_ok hc h
      obtain ⟨answers, hserve, hrender⟩ := ih (Cursor.position_writeAll_le hc bytes) hnext
      exact ⟨answers, hserve, by rw [hrender, hwritten, List.append_assoc]; rfl⟩
    | resource r =>
      rw [writing, run_resource] at h
      rw [resources, serve_cons]
      rcases hr : H n r s with ⟨message | answer, s₁⟩
      · rw [hr] at h
        cases h
      · rw [hr] at h
        dsimp only at h
        obtain ⟨hwritten, hnext⟩ := put_ok hc h
        obtain ⟨answers, hserve, hrender⟩ := ih (Cursor.position_writeAll_le hc _) hnext
        refine ⟨answer :: answers, ?_, by rw [hrender, hwritten, List.append_assoc]; rfl⟩
        dsimp only
        rw [hserve]
        rfl

/-- What is written of an item names the answers of the last pass. -/
theorem passes_ok {ps : List (Piece ρ)} {k n : Nat} {s s' : σ} {c c' : Cursor}
    (hc : c.position ≤ c.buffer.length)
    (h : (passes content limit ps k).run H n s c = (.ok (), s', c')) :
    ∃ answers, serve H (repeated (k + 1) (resources ps)) n s = (.ok answers, s') ∧
      c'.written = c.written ++ render content ps (answers.drop (k * (resources ps).length)) := by
  induction k generalizing n s with
  | zero =>
    obtain ⟨answers, hserve, hwritten⟩ := writing_ok hc h
    refine ⟨answers, ?_, by rwa [Nat.zero_mul]⟩
    simpa using hserve
  | succ k ih =>
    obtain ⟨first, s₁, hfirst, hnext⟩ := sizing_ok h
    obtain ⟨answers, hserve, hwritten⟩ := ih hnext
    have hlength : first.length = (resources ps).length := length_serve (by rw [hfirst])
    refine ⟨first ++ answers, ?_, ?_⟩
    · rw [repeated_succ, serve_append, hfirst]
      dsimp only
      rw [hserve]
      rfl
    · rw [hwritten, Nat.succ_mul, Nat.add_comm, ← List.drop_drop, ← hlength, List.drop_left]

end Code

end SandboxIpc
