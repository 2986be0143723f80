import SandboxIpc.Infra.Refinement

/-!
# A monitor

A value that one client at a time works on. A client enters, changes the value as often as it likes,
and leaves; while it is inside nobody else is.

* `Monitor.step` — what a client can do
* `Section` — what one client does from entering to leaving
* `Monitor.Serial` — a history is one section after the other
* `Monitor.serial_of_run` — every run is serial
-/

namespace Infra

variable {ι α : Type*}

/-- The client inside, and the value. -/
structure Monitor (ι α : Type*) where
  owner : Option ι
  value : α

namespace Monitor

/-- What a client does. -/
inductive Op (α : Type*)
  | enter
  | modify (f : α → α)
  | leave

/-- One operation of client `e.1`. -/
def step [DecidableEq ι] (t : Monitor ι α) (e : ι × Op α) : Option (Monitor ι α) :=
  match e.2 with
  | .enter => if t.owner = none then some { t with owner := some e.1 } else none
  | .modify f => if t.owner = some e.1 then some { t with value := f t.value } else none
  | .leave => if t.owner = some e.1 then some { t with owner := none } else none

/-- A monitor of the value `v`, with nobody inside. -/
def system [DecidableEq ι] (v : α) : System (Monitor ι α) (ι × Op α) where
  init t := t = ⟨none, v⟩
  step := step

end Monitor

open Monitor

/-- What one client does to the value from entering to leaving. -/
structure Section (ι α : Type*) where
  client : ι
  changes : List (α → α)

namespace Section

variable (x : Section ι α)

/-- The operations of a section that is still going on. -/
def begun : List (ι × Op α) := (x.client, .enter) :: x.changes.map fun f => (x.client, .modify f)

/-- All operations of a section. -/
def whole : List (ι × Op α) := x.begun ++ [(x.client, .leave)]

/-- What the section makes of the value. -/
def result (v : α) : α := x.changes.foldl (fun v f => f v) v

/-- The section with one more change. -/
def extend (f : α → α) : Section ι α := { x with changes := x.changes ++ [f] }

theorem begun_extend (f : α → α) : (x.extend f).begun = x.begun ++ [(x.client, .modify f)] := by
  simp [begun, extend]

theorem result_extend (f : α → α) (v : α) : (x.extend f).result v = f (x.result v) := by
  simp [result, extend]

end Section

namespace Monitor

/--
The operations are those of one section after the other. The last one may still be going on.

The value is what the sections have made of it in this order.
-/
structure Serial (v : α) (ops : List (ι × Op α)) (t : Monitor ι α) (done : List (Section ι α))
    (current : Option (Section ι α)) : Prop where
  ops_eq : ops = done.flatMap Section.whole ++ (current.map Section.begun).getD []
  owner_eq : t.owner = current.map Section.client
  value_eq : t.value = (done ++ current.toList).foldl (fun v x => x.result v) v

section Runs

variable [DecidableEq ι] {v : α} {ops : List (ι × Op α)} {t t' : Monitor ι α}
  {done : List (Section ι α)} {current : Option (Section ι α)}

theorem Serial.step (hserial : Serial v ops t done current) {c : ι} {a : Op α}
    (hs : Monitor.step t (c, a) = some t') :
    ∃ done' current', Serial v (ops ++ [(c, a)]) t' done' current' := by
  obtain ⟨hops, howner, hvalue⟩ := hserial
  unfold Monitor.step at hs
  cases a with
  | enter =>
    obtain ⟨hfree, hs⟩ := Option.ite_none_right_eq_some.mp hs
    obtain rfl := Option.some.inj hs
    obtain rfl : current = none := by simpa [howner] using hfree
    refine ⟨done, some ⟨c, []⟩, ?_, rfl, ?_⟩
    · rw [hops]
      simp [Section.begun]
    · rw [hvalue]
      simp [Section.result]
  | modify f =>
    obtain ⟨howns, hs⟩ := Option.ite_none_right_eq_some.mp hs
    obtain rfl := Option.some.inj hs
    obtain ⟨x, rfl, rfl⟩ : ∃ x, current = some x ∧ x.client = c := by simpa [howner] using howns
    refine ⟨done, some (x.extend f), ?_, howner, ?_⟩
    · rw [hops]
      simp [Section.begun_extend]
    · rw [hvalue]
      simp [Section.result_extend]
  | leave =>
    obtain ⟨howns, hs⟩ := Option.ite_none_right_eq_some.mp hs
    obtain rfl := Option.some.inj hs
    obtain ⟨x, rfl, rfl⟩ : ∃ x, current = some x ∧ x.client = c := by simpa [howner] using howns
    refine ⟨done ++ [x], none, ?_, rfl, ?_⟩
    · rw [hops]
      simp [Section.whole]
    · rw [hvalue]
      simp

theorem serial_of_run {h : List (Monitor ι α × ι × Op α)} (hr : Run (system v) h t) :
    ∃ done current, Serial v (h.map Prod.snd) t done current := by
  refine hr.ledger (fun h t => ∃ done current, Serial v (h.map Prod.snd) t done current) ?_ ?_
  · rintro t rfl
    exact ⟨[], none, rfl, rfl, rfl⟩
  · rintro h t ⟨c, a⟩ t' ⟨done, current, hserial⟩ hs
    rw [List.map_append]
    exact hserial.step hs

end Runs

end Monitor

end Infra
