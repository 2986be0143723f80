import SandboxIpc.Infra.Refinement
import Mathlib.Data.List.Infix
import Mathlib.Logic.Function.Basic

/-!
# Wires

A wire takes items at its near end and delivers them at its far end. An item that is accepted stays
in the one place at the near end until it is forwarded to the line. What is in the place when the
near end is closed is lost.

* `Wire.step` — the operations on one wire
* `Wires.system` — any number of independent wires
* `Wire.Honest` — what comes out is what went in, and only the last item can be lost
* `Wires.honest_of_run` — it holds of every wire in every run
-/

namespace Infra

variable {T : Type*}

structure Wire (T : Type*) where
  /-- Accepted, and not yet on its way. -/
  place : Option T
  /-- On its way, oldest first. -/
  line : List T
  /-- The near end has been closed. -/
  closed : Bool

namespace Wire

inductive Op (T : Type*)
  | accept (x : T)
  | forward
  /-- The near end is told that nothing is left in the place. -/
  | flush
  | close
  | deliver
  /-- The far end is told that nothing will come any more. -/
  | finish

inductive Event (T : Type*)
  | accepted (x : T)
  | flushed
  | closed
  | delivered (x : T)
  | finished

def step (w : Wire T) : Op T → Option (Wire T)
  | .accept x =>
    if w.closed = false ∧ w.place.isNone then some { w with place := some x } else none
  | .forward => w.place.map fun x => { w with place := none, line := w.line ++ [x] }
  | .flush => if w.closed = false ∧ w.place.isNone then some w else none
  | .close => if w.closed then none else some { w with place := none, closed := true }
  | .deliver => w.line.head?.map fun _ => { w with line := w.line.tail }
  | .finish => if w.closed ∧ w.line.isEmpty then some w else none

/-- What is seen of an operation. Forwarding is not. -/
def see (w : Wire T) : Op T → Option (Event T)
  | .accept x => some (.accepted x)
  | .forward => none
  | .flush => some .flushed
  | .close => some .closed
  | .deliver => w.line.head?.map .delivered
  | .finish => some .finished

/-- The items accepted, oldest first. -/
def ins (seen : List (Event T)) : List T :=
  seen.filterMap fun w => match w with | .accepted x => some x | _ => none

/-- The items delivered, oldest first. -/
def outs (seen : List (Event T)) : List T :=
  seen.filterMap fun w => match w with | .delivered x => some x | _ => none

/-- What was seen of a wire, and what it is now. -/
structure Honest (seen : List (Event T)) (w : Wire T) : Prop where
  /-- Nothing comes out that did not go in, nothing twice and nothing out of turn. Only the item
  accepted last can be missing, once the near end is closed. -/
  whole : ∃ lost, ins seen = outs seen ++ w.line ++ w.place.toList ++ lost ∧ lost.length ≤ 1 ∧
    (w.closed = false → lost = [])
  empty : w.closed = true → w.place = none
  /-- What was accepted before a flush is not lost. -/
  kept : ∀ pre post, seen = pre ++ .flushed :: post → ins pre <+: outs seen ++ w.line
  /-- The end is seen after everything else. -/
  finished : .finished ∈ seen → w.closed = true ∧ w.line = []

theorem ins_append (k k' : List (Event T)) : ins (k ++ k') = ins k ++ ins k' :=
  List.filterMap_append ..

theorem outs_append (k k' : List (Event T)) : outs (k ++ k') = outs k ++ outs k' :=
  List.filterMap_append ..

section Step

variable {seen : List (Event T)} {w w' : Wire T}

/-- What was accepted before a flush stays safe if the line only grows at its end. -/
theorem Honest.kept_snoc (h : Honest seen w) {v : Event T}
    (hline : outs seen ++ w.line <+: outs (seen ++ [v]) ++ w'.line)
    (hflush : v = .flushed → ins seen <+: outs (seen ++ [v]) ++ w'.line) :
    ∀ pre post, seen ++ [v] = pre ++ .flushed :: post →
      ins pre <+: outs (seen ++ [v]) ++ w'.line := by
  intro pre post heq
  induction post using List.reverseRecOn with
  | nil =>
    obtain ⟨rfl, hv⟩ := List.append_inj' heq rfl
    exact hflush (List.cons.inj hv).1
  | append_singleton post x _ =>
    rw [← List.cons_append, ← List.append_assoc] at heq
    obtain ⟨hseen, -⟩ := List.append_inj' heq rfl
    exact (h.kept pre post hseen).trans hline

/-- The end has not been seen while something can still come. -/
theorem Honest.not_finished (h : Honest seen w) (hopen : w.closed = false ∨ w.line ≠ []) :
    .finished ∉ seen := fun hmem => by
  obtain ⟨hclosed, hline⟩ := h.finished hmem
  rcases hopen with hopen | hne
  · rw [hclosed] at hopen
    cases hopen
  · exact hne hline

theorem Honest.accept (h : Honest seen w) {x : T} (hopen : w.closed = false)
    (hplace : w.place = none) :
    Honest (seen ++ [.accepted x]) { w with place := some x } where
  whole := by
    obtain ⟨lost, hins, -, hlost⟩ := h.whole
    obtain rfl := hlost hopen
    refine ⟨[], ?_, Nat.zero_le _, fun _ => rfl⟩
    rw [ins_append, outs_append, hins, hplace]
    simp [ins, outs]
  empty hclosed := absurd (hopen.symm.trans hclosed) nofun
  kept := h.kept_snoc (by simp [outs]) nofun
  finished hmem := by
    rcases List.mem_append.mp hmem with hmem | hmem
    · exact absurd hmem (h.not_finished (.inl hopen))
    · cases List.mem_singleton.mp hmem

theorem Honest.forward (h : Honest seen w) {x : T} (hplace : w.place = some x) :
    Honest seen { w with place := none, line := w.line ++ [x] } := by
  have hopen : w.closed = false := by
    cases hclosed : w.closed with
    | false => rfl
    | true => exact absurd ((h.empty hclosed).symm.trans hplace) nofun
  refine ⟨?_, fun _ => rfl, fun pre post heq => ?_, fun hmem => ?_⟩
  · obtain ⟨lost, hins, hlost⟩ := h.whole
    refine ⟨lost, ?_, hlost⟩
    rw [hins, hplace]
    simp
  · exact (h.kept pre post heq).trans ⟨[x], List.append_assoc ..⟩
  · exact absurd hmem (h.not_finished (.inl hopen))

theorem Honest.flush (h : Honest seen w) (hopen : w.closed = false) (hplace : w.place = none) :
    Honest (seen ++ [.flushed]) w := by
  obtain ⟨lost, hins, -, hlost⟩ := h.whole
  obtain rfl := hlost hopen
  have hout : outs (seen ++ [.flushed]) = outs seen := by simp [outs]
  have hin : ins (seen ++ [.flushed]) = ins seen := by simp [ins]
  refine ⟨⟨[], ?_, Nat.zero_le _, fun _ => rfl⟩, h.empty, h.kept_snoc ?_ fun _ => ?_, fun hmem => ?_⟩
  · rw [hin, hout, hins]
  · rw [hout]
  · -- nothing is in the place, so all that was accepted is on the line or delivered
    rw [hout, hins, hplace]
    simp
  · rcases List.mem_append.mp hmem with hmem | hmem
    · exact h.finished hmem
    · cases List.mem_singleton.mp hmem

theorem Honest.close (h : Honest seen w) (hopen : w.closed = false) :
    Honest (seen ++ [.closed]) { w with place := none, closed := true } := by
  obtain ⟨lost, hins, -, hlost⟩ := h.whole
  obtain rfl := hlost hopen
  have hout : outs (seen ++ [.closed]) = outs seen := by simp [outs]
  have hin : ins (seen ++ [.closed]) = ins seen := by simp [ins]
  refine ⟨⟨w.place.toList, ?_, ?_, nofun⟩, fun _ => rfl, h.kept_snoc ?_ nofun, fun hmem => ?_⟩
  · rw [hin, hout, hins]
    simp
  · cases w.place <;> simp
  · rw [hout]
  · rcases List.mem_append.mp hmem with hmem | hmem
    · exact absurd hmem (h.not_finished (.inl hopen))
    · cases List.mem_singleton.mp hmem

theorem Honest.deliver (h : Honest seen w) {x : T} {rest : List T} (hline : w.line = x :: rest) :
    Honest (seen ++ [.delivered x]) { w with line := rest } := by
  have hout : outs (seen ++ [.delivered x]) ++ rest = outs seen ++ w.line := by
    simp [outs, hline]
  have hin : ins (seen ++ [.delivered x]) = ins seen := by simp [ins]
  refine ⟨?_, h.empty, h.kept_snoc ?_ nofun, fun hmem => ?_⟩
  · obtain ⟨lost, hins, hlost⟩ := h.whole
    refine ⟨lost, ?_, hlost⟩
    rw [hin, hins, hout]
  · rw [hout]
  · rcases List.mem_append.mp hmem with hmem | hmem
    · exact absurd hmem (h.not_finished (.inr (by rw [hline]; nofun)))
    · cases List.mem_singleton.mp hmem

theorem Honest.finish (h : Honest seen w) (hclosed : w.closed = true) (hline : w.line = []) :
    Honest (seen ++ [.finished]) w := by
  have hout : outs (seen ++ [.finished]) = outs seen := by simp [outs]
  have hin : ins (seen ++ [.finished]) = ins seen := by simp [ins]
  refine ⟨?_, h.empty, h.kept_snoc ?_ nofun, fun _ => ⟨hclosed, hline⟩⟩
  · obtain ⟨lost, hins, hlost⟩ := h.whole
    exact ⟨lost, by rw [hin, hout, hins], hlost⟩
  · rw [hout]

theorem Honest.step (h : Honest seen w) {o : Op T} (hs : w.step o = some w') :
    Honest (seen ++ (w.see o).toList) w' := by
  cases o with
  | accept x =>
    obtain ⟨⟨hopen, hplace⟩, rfl⟩ : (w.closed = false ∧ w.place = none) ∧ _ = w' := by
      simpa [Wire.step] using hs
    exact h.accept hopen hplace
  | forward =>
    obtain ⟨x, hplace, rfl⟩ := Option.map_eq_some_iff.mp hs
    simpa [see] using h.forward hplace
  | flush =>
    obtain ⟨⟨hopen, hplace⟩, rfl⟩ : (w.closed = false ∧ w.place = none) ∧ w = w' := by
      simpa [Wire.step] using hs
    exact h.flush hopen hplace
  | close =>
    obtain ⟨hopen, rfl⟩ : w.closed = false ∧ _ = w' := by simpa [Wire.step] using hs
    exact h.close hopen
  | deliver =>
    obtain ⟨x, hx, rfl⟩ := Option.map_eq_some_iff.mp hs
    obtain ⟨rest, hline⟩ := List.head?_eq_some_iff.mp hx
    simpa [see, hline] using h.deliver hline
  | finish =>
    obtain ⟨⟨hclosed, hline⟩, rfl⟩ : (w.closed = true ∧ w.line = []) ∧ w = w' := by
      simpa [Wire.step] using hs
    exact h.finish hclosed hline

end Step

end Wire

/-! ## Several wires -/

/-- One wire for each `e`. -/
abbrev Wires {ε : Type*} (T : ε → Type*) := ∀ e, Wire (T e)

namespace Wires

variable {ε : Type*} {T : ε → Type*} [DecidableEq ε]

def step (s : Wires T) (a : Σ e, Wire.Op (T e)) : Option (Wires T) :=
  ((s a.1).step a.2).map fun w => Function.update s a.1 w

omit [DecidableEq ε] in
def see (a : Wires T × Σ e, Wire.Op (T e)) : Option (Σ e, Wire.Event (T e)) :=
  ((a.1 a.2.1).see a.2.2).map fun v => ⟨a.2.1, v⟩

/-- Wires that nothing is on. -/
def system (T : ε → Type*) : System (Wires T) (Σ e, Wire.Op (T e)) where
  init s := ∀ e, s e = { place := none, line := [], closed := false }
  step := step

/-- What is seen of the wire `e`. -/
def onWire (e : ε) (seen : List (Σ e, Wire.Event (T e))) : List (Wire.Event (T e)) :=
  seen.filterMap fun v => if h : v.1 = e then some (h ▸ v.2) else none

theorem onWire_append (e : ε) (k k' : List (Σ e, Wire.Event (T e))) :
    onWire e (k ++ k') = onWire e k ++ onWire e k' :=
  List.filterMap_append ..

theorem onWire_see (s : Wires T) (e : ε) (o : Wire.Op (T e)) :
    onWire e (see (s, ⟨e, o⟩)).toList = ((s e).see o).toList := by
  unfold see onWire
  cases (s e).see o <;> simp

theorem onWire_see_of_ne (s : Wires T) {e e' : ε} (h : e' ≠ e) (o : Wire.Op (T e')) :
    onWire e (see (s, ⟨e', o⟩)).toList = [] := by
  unfold see onWire
  cases (s e').see o <;> simp [h]

/-- An operation on one wire leaves the others alone. -/
theorem goes_update (s : Wires T) {e : ε} {w w' : Wire (T e)} {o : Wire.Op (T e)}
    (h : w.step o = some w') :
    (system T).Goes see (Function.update s e w) ((w.see o).map (Sigma.mk e)).toList
      (Function.update s e w') := by
  have hsee : see (Function.update s e w, ⟨e, o⟩) = (w.see o).map (Sigma.mk e) := by
    unfold see
    dsimp only
    rw [Function.update_self]
  rw [← hsee]
  refine .step ?_
  simp [system, step, h]

theorem honest_of_run {h : List (Wires T × Σ e, Wire.Op (T e))} {s : Wires T}
    (hr : Run (system T) h s) (e : ε) : Wire.Honest (onWire e (trace see h)) (s e) := by
  refine hr.ledger (fun h s => Wire.Honest (onWire e (trace see h)) (s e)) ?_ ?_
  · intro s h0
    rw [h0 e]
    exact ⟨⟨[], rfl, Nat.zero_le _, fun _ => rfl⟩, fun _ => rfl,
      fun pre post heq => absurd (congrArg List.length heq) (by simp [onWire]), nofun⟩
  · rintro h s ⟨e', o⟩ s' ih hs
    obtain ⟨w, hw, rfl⟩ := Option.map_eq_some_iff.mp hs
    rw [trace_append, trace_singleton, onWire_append]
    by_cases he : e' = e
    · subst he
      rw [onWire_see, Function.update_self]
      exact ih.step hw
    · rw [onWire_see_of_ne s he, List.append_nil, Function.update_of_ne (Ne.symm he)]
      exact ih

end Wires

end Infra
