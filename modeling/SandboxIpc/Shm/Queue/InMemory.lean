import SandboxIpc.Infra.Refinement
import SandboxIpc.Shm.Queue.Fifo
import SandboxIpc.Shm.Queue.Instances

/-!
# The queue in shared memory, `shm/queue.rs`

In `Queue.system` a slot holds one value, and a push guard changes it in one step. Here the slots
are bytes of the shared memory object. Each caller reaches them through an instance of its own, in
the map of its own process, and a guard writes or reads as many bytes as it is asked to, in chunks
that interleave with everything the others do.

* `InMemory.system` — the steps of all callers
* `InMemory.run_queue` — the system refines `Queue.system` over lists of bytes
* `InMemory.Account` — the invariant that ties what was written and read to the slots
* `InMemory.through_memory` — what is read is what was written, and nothing else is touched
-/

namespace SandboxIpc

open Infra

variable {p : PointerWidth}

namespace Queue

/-! ## The steps of the callers -/

/-- A `write`, which only a guard does. -/
def Act.isWrite {α : Type} : Act α → Bool
  | .write _ => true
  | _ => false

/-- The control block, the object that holds the slots, the callers, and how far each of them has
got in its slot (0 without a guard). -/
structure InMemory (p : PointerWidth) (ι : Type) where
  control : Ctrl p
  object : Nat → UInt8
  callers : ι → Caller p
  offsets : ι → Usize p

/-- Only a `write` changes a slot. -/
theorem slots_of_not_write {ι α : Type} [DecidableEq ι] {n : ItemCount p} {s s' : State p ι α}
    {c : ι} {a : Act α} (ha : ¬ a.isWrite = true) (h : step n s (c, a) = some s') :
    s'.slots = s.slots := by
  cases move_of_step h with
  | write => exact absurd rfl ha
  | _ => rfl

section Guards

variable {ι α : Type} [DecidableEq ι] {n : ItemCount p} {s s' : State p ι α} {c : ι} {a : Act α}
  {j : Usize p}

/-- Where a push guard comes from. -/
theorem pushClaimed_of_move (hm : Move n s c a s') (ha : a.isWrite = false)
    (h : s'.callers c = .pushGuard j) : s.callers c = .pushClaimed j := by
  cases hm with
  | write => cases ha
  | spinPush hpc | spinPop hpc => simp [hpc] at h
  | grantPush hpc => simpa [hpc] using h
  | _ => simp at h

/-- Where a pop guard comes from. -/
theorem handsOut_of_move (hm : Move n s c a s') (ha : a.isWrite = false) {poisoned : Bool}
    (h : s'.callers c = .popGuard j poisoned) : HandsOut j (s, c, a) := by
  cases hm with
  | write => cases ha
  | spinPush hpc | spinPop hpc => simp [hpc] at h
  | handOut hpc =>
    obtain ⟨rfl, -⟩ : _ ∧ _ := by simpa using h
    exact ⟨hpc, rfl⟩
  | _ => simp at h

/-- What becomes of a push guard. -/
theorem dropsPush_of_move (hm : Move n s c a s') (ha : a.isWrite = false)
    (h : s.callers c = .pushGuard j) : DropsPush j (s, c, a) := by
  cases hm with
  | write => cases ha
  | dropPush => exact ⟨h, _, rfl⟩
  | claimSend hpc | wrapSend hpc | grantPush hpc | refusePush hpc | handBackSend hpc
  | retryPush hpc | publishSend hpc | spinPush hpc | claimRecv hpc | wrapRecv hpc | grantPop hpc
  | refusePop hpc | handBackRecv hpc | retryPop hpc | handOut hpc | dropPop hpc | publishRecv hpc
  | spinPop hpc => simp [hpc] at h

end Guards

namespace Ledger

variable {ι α : Type} {n : ItemCount p} {h : List (Entry p ι α)} {s : State p ι α} {c : ι}
  {j : Usize p}

/-- An index that a push call still holds has not been dropped. -/
theorem not_dropsPush (hl : Ledger n h s) (hi : Inv n s)
    (hticket : (s.callers c).sendTicket = some j.toNat) (hnone : (s.callers c).dropping = none) :
    ∀ e ∈ h, ¬ DropsPush j e := by
  intro e he hd
  rcases (hl.left j).mpr ⟨e, he, hd⟩ with hlt | ⟨d, hd⟩
  · have := (hi.sends.bounds hticket).1
    omega
  · have hdc := hi.sends.inj (sendTicket_of_sendGrant (sendGrant_of_dropping hd)) hticket
    rw [hdc, hnone] at hd
    cases hd

/-- An index that a pop call holds without having returned has not been handed out. -/
theorem not_handsOut (hl : Ledger n h s) (hi : Inv n s)
    (hticket : (s.callers c).recvTicket = some j.toNat) (hnone : (s.callers c).handed = none) :
    ∀ e ∈ h, ¬ HandsOut j e := by
  intro e he hout
  rcases (hl.taken j).mpr ⟨e, he, hout⟩ with hlt | ⟨d, hd⟩
  · have := (hi.recvs.bounds hticket).1
    omega
  · have hdc := hi.recvs.inj (recvTicket_of_recvGrant (recvGrant_of_handed hd)) hticket
    rw [hdc, hnone] at hd
    cases hd

/-- What has been handed out was dropped before. -/
theorem exists_dropsPush (hl : Ledger n h s) (hi : Inv n s) {e : Entry p ι α} (he : e ∈ h)
    (hout : HandsOut j e) : ∃ e' ∈ h, DropsPush j e' := by
  refine (hl.left j).mp (.inl ?_)
  rcases (hl.taken j).mpr ⟨e, he, hout⟩ with hlt | ⟨d, hd⟩
  · exact Nat.lt_of_lt_of_le hlt hi.recvd_le_sent
  · exact hi.recvGrant_lt (recvGrant_of_handed hd)

end Ledger

namespace InMemory

variable {ι : Type} [DecidableEq ι]

/-- What a caller does: a step of a call or of a drop, or it uses its guard. -/
inductive Act (p : PointerWidth)
  | call (a : Queue.Act (List UInt8))
  | write (chunk : Chunk p)
  | read (buffer : Chunk p)

/-- One step of a run. -/
abbrev Entry (p : PointerWidth) (ι : Type) := InMemory p ι × ι × Act p

section Steps

variable (b : Build) (w : Site p) (q : ι → Queue p) (s : InMemory p ι) (c : ι) (j : Usize p)

/-- The queue with the bytes of its slots as items. -/
def queue : State p ι (List UInt8) where
  control := s.control
  slots := w.bytes s.object
  callers := s.callers

/-- The guard of caller `c`, in the memory of its process. -/
def pushGuard : PushGuard p where
  slice := .fromRawParts ((q c).mem.view s.object) ((q c).slotAddr j) (q c).itemSize
  writeOffset := s.offsets c

def popGuard : PopGuard p where
  slice := .fromRawParts ((q c).mem.view s.object) ((q c).slotAddr j) (q c).itemSize
  readOffset := s.offsets c

/-- The push guard of `c` has come to `g`. -/
def putGuard (g : PushGuard p) : InMemory p ι :=
  { s with
    object := (q c).mem.written (g.slice.stored ((q c).mem.view s.object) ((q c).slotAddr j))
      s.object
    offsets := Function.update s.offsets c g.writeOffset }

/-- One step of caller `e.1`. -/
def step (e : ι × Act p) : Option (InMemory p ι) :=
  match s.callers e.1, e.2 with
  | _, .call a =>
    if a.isWrite then none
    else (Queue.step w.itemCount (s.queue w) (e.1, a)).map fun t =>
      { s with
        control := t.control
        callers := t.callers
        -- a guard begins at the start of its slot
        offsets := Function.update s.offsets e.1 0 }
  | .pushGuard j, .write chunk =>
    ((s.pushGuard q e.1 j).write b chunk).toOption.map fun r => s.putGuard q e.1 j r.2
  | .popGuard j _, .read buffer =>
    ((s.popGuard q e.1 j).read b buffer).toOption.map fun r =>
      { s with offsets := Function.update s.offsets e.1 r.2.2.readOffset }
  | _, _ => none

/-- What the step is for the queue: a write puts the whole slot anew, and reading is not seen. -/
def entry (e : Entry p ι) : Option (ι × Queue.Act (List UInt8)) :=
  match e.1.callers e.2.1, e.2.2 with
  | _, .call a => some (e.2.1, a)
  | .pushGuard j, .write chunk =>
    ((e.1.pushGuard q e.2.1 j).write b chunk).toOption.map fun r =>
      (e.2.1, .write r.2.slice.bytes)
  | _, _ => none

/-- The bytes that the push guard with index `j` accepts in this step. -/
def accepts (e : Entry p ι) : List UInt8 :=
  match e.1.callers e.2.1, e.2.2 with
  | .pushGuard i, .write chunk =>
    if i = j then
      ((e.1.pushGuard q e.2.1 i).write b chunk).toOption.elim [] fun r =>
        chunk.bytes.take r.1.toNat
    else []
  | _, _ => []

/-- The bytes that the pop guard with index `j` returns in this step. -/
def returns (e : Entry p ι) : List UInt8 :=
  match e.1.callers e.2.1, e.2.2 with
  | .popGuard i _, .read buffer =>
    if i = j then
      ((e.1.popGuard q e.2.1 i).read b buffer).toOption.elim [] fun r =>
        r.2.1.bytes.take r.1.toNat
    else []
  | _, _ => []

end Steps

section System

variable (b : Build) (w : Site p) (q : ι → Queue p)

/-- A new queue in an object with these bytes. -/
def system (object : Nat → UInt8) : System (InMemory p ι) (ι × Act p) where
  init s := s.control = Ctrl.new ∧ s.object = object ∧ (∀ c, s.callers c = .idle) ∧
    ∀ c, s.offsets c = 0
  step := step b w q

/-- The history of the queue. -/
def calls (h : List (Entry p ι)) : List (Queue.Entry p ι (List UInt8)) :=
  image (queue w) (entry b q) h

/-- What the push guard with index `j` has accepted. -/
def accepted (j : Usize p) (h : List (Entry p ι)) : List UInt8 := h.flatMap (accepts b q j)

/-- What the pop guard with index `j` has returned. -/
def returned (j : Usize p) (h : List (Entry p ι)) : List UInt8 := h.flatMap (returns b q j)

omit [DecidableEq ι] in
theorem accepted_snoc (j : Usize p) (h : List (Entry p ι)) (e : Entry p ι) :
    accepted b q j (h ++ [e]) = accepted b q j h ++ accepts b q j e := by
  simp [accepted]

omit [DecidableEq ι] in
theorem returned_snoc (j : Usize p) (h : List (Entry p ι)) (e : Entry p ι) :
    returned b q j (h ++ [e]) = returned b q j h ++ returns b q j e := by
  simp [returned]

end System

/-! ## What a step does -/

section Moves

variable {b : Build} {w : Site p} {q : ι → Queue p} {s s' : InMemory p ι} {c : ι} {j : Usize p}

/-- No guard has got past the end of its slot. -/
def Bounded (w : Site p) (s : InMemory p ι) : Prop :=
  ∀ c, (s.offsets c).toNat ≤ w.itemSize.toNat

/-- The owner of a push guard can always write, and gets a little further. -/
theorem step_write (hq : Attached w (q c)) (hpc : s.callers c = .pushGuard j)
    (hoffset : (s.offsets c).toNat ≤ w.itemSize.toNat) (chunk : Chunk p) :
    ∃ content offset, content.length = w.itemSize.toNat ∧ offset.toNat ≤ w.itemSize.toNat ∧
      step b w q s (c, .write chunk) = some { s with
        object := w.put s.object (slot w.itemCount j) content
        offsets := Function.update s.offsets c offset } ∧
      entry b q (s, c, .write chunk) = some (c, .write content) ∧
      accepts b q j (s, c, .write chunk)
        = chunk.bytes.take (w.itemSize.toNat - (s.offsets c).toNat) ∧
      (w.bytes s.object (slot w.itemCount j)).take (s.offsets c).toNat
        ++ accepts b q j (s, c, .write chunk) = content.take offset.toNat := by
  have hslice : (s.pushGuard q c j).slice.bytes = w.bytes s.object (slot w.itemCount j) :=
    hq.fromRawParts_view
  have hlength : (s.pushGuard q c j).slice.bytes.length = w.itemSize.toNat := by
    rw [hslice, Site.length_bytes]
  obtain ⟨n, g, hwrite, hn, hg, hbytes⟩ :=
    PushGuard.write_spec b (g := s.pushGuard q c j) (by rw [hlength]; exact hoffset) chunk
  have hoff : (s.pushGuard q c j).writeOffset = s.offsets c := rfl
  rw [hoff, hlength] at hn
  rw [hoff] at hg hbytes
  have htake : (chunk.bytes.take n.toNat).length = n.toNat := by
    rw [List.length_take]
    omega
  have hfront : ((s.pushGuard q c j).slice.bytes.take (s.offsets c).toNat).length
      = (s.offsets c).toNat := by
    rw [List.length_take]
    omega
  have hcontent : g.slice.bytes.length = w.itemSize.toNat := by
    rw [hbytes, List.length_append, length_overwrite, hfront, List.length_drop, hlength]
    · omega
    · rw [htake, List.length_drop, hlength]
      omega
  have haccepts : accepts b q j (s, c, .write chunk) = chunk.bytes.take n.toNat := by
    simp only [accepts, hpc, hwrite, Except.toOption, if_true, Option.elim]
  refine ⟨g.slice.bytes, g.writeOffset, hcontent, by omega, ?_, ?_, ?_, ?_⟩
  · simp only [step, hpc, hwrite, putGuard, hq.written_stored hcontent, Except.toOption,
      Option.map_some]
  · simp only [entry, hpc, hwrite, Except.toOption, Option.map_some]
  · rw [haccepts, List.take_eq_take_iff, hn]
    omega
  · rw [haccepts, hbytes, hg, ← hslice, overwrite, ← List.append_assoc]
    exact (List.take_left' (by rw [List.length_append, hfront, htake])).symm

/-- The owner of a pop guard can always read, and gets the next bytes of its slot. -/
theorem step_read (hq : Attached w (q c)) {poisoned : Bool}
    (hpc : s.callers c = .popGuard j poisoned)
    (hoffset : (s.offsets c).toNat ≤ w.itemSize.toNat) (buffer : Chunk p) :
    ∃ offset, offset.toNat ≤ w.itemSize.toNat ∧
      step b w q s (c, .read buffer) = some { s with
        offsets := Function.update s.offsets c offset } ∧
      (returns b q j (s, c, .read buffer)).length
        = min (w.itemSize.toNat - (s.offsets c).toNat) buffer.bytes.length ∧
      (w.bytes s.object (slot w.itemCount j)).take (s.offsets c).toNat
        ++ returns b q j (s, c, .read buffer)
        = (w.bytes s.object (slot w.itemCount j)).take offset.toNat := by
  have hslice : (s.popGuard q c j).slice.bytes = w.bytes s.object (slot w.itemCount j) :=
    hq.fromRawParts_view
  have hlength : (s.popGuard q c j).slice.bytes.length = w.itemSize.toNat := by
    rw [hslice, Site.length_bytes]
  obtain ⟨n, buffer', g, hread, hn, hg, -, hbuffer⟩ :=
    PopGuard.read_spec b (g := s.popGuard q c j) (by rw [hlength]; exact hoffset) buffer
  have hoff : (s.popGuard q c j).readOffset = s.offsets c := rfl
  rw [hoff, hlength] at hn
  rw [hoff] at hg hbuffer
  have htake : (((s.popGuard q c j).slice.bytes.drop (s.offsets c).toNat).take n.toNat).length
      = n.toNat := by
    rw [List.length_take, List.length_drop]
    omega
  have hfirst : buffer'.bytes.take n.toNat
      = ((s.popGuard q c j).slice.bytes.drop (s.offsets c).toNat).take n.toNat := by
    rw [hbuffer]
    nth_rewrite 1 [← htake]
    exact take_overwrite
  have hreturns : returns b q j (s, c, .read buffer)
      = ((s.popGuard q c j).slice.bytes.drop (s.offsets c).toNat).take n.toNat := by
    simp only [returns, hpc, hread, Except.toOption, if_true, Option.elim]
    exact hfirst
  refine ⟨g.readOffset, by omega, ?_, ?_, ?_⟩
  · simp only [step, hpc, hread, Except.toOption, Option.map_some]
  · rw [hreturns, htake, hn]
  · rw [hreturns, hslice, hg, List.take_add]

variable (b w q s c) in
/-- `Move b w q s c a s'`: by action `a`, caller `c` takes `s` to `s'`. -/
inductive Move : Act p → InMemory p ι → Prop
  | call {a : Queue.Act (List UInt8)} {s' : InMemory p ι} : a.isWrite = false →
      Queue.step w.itemCount (s.queue w) (c, a) = some (s'.queue w) → s'.object = s.object →
      s'.offsets = Function.update s.offsets c 0 → Move (.call a) s'
  | write {j : Usize p} {chunk : Chunk p} {content : List UInt8} {offset : Usize p} :
      s.callers c = .pushGuard j → content.length = w.itemSize.toNat →
      offset.toNat ≤ w.itemSize.toNat →
      entry b q (s, c, .write chunk) = some (c, .write content) →
      (w.bytes s.object (slot w.itemCount j)).take (s.offsets c).toNat
        ++ accepts b q j (s, c, .write chunk) = content.take offset.toNat →
      Move (.write chunk) { s with
        object := w.put s.object (slot w.itemCount j) content
        offsets := Function.update s.offsets c offset }
  | read {j : Usize p} {poisoned : Bool} {buffer : Chunk p} {offset : Usize p} :
      s.callers c = .popGuard j poisoned → offset.toNat ≤ w.itemSize.toNat →
      (w.bytes s.object (slot w.itemCount j)).take (s.offsets c).toNat
        ++ returns b q j (s, c, .read buffer)
        = (w.bytes s.object (slot w.itemCount j)).take offset.toNat →
      Move (.read buffer) { s with offsets := Function.update s.offsets c offset }

theorem move_of_step (hq : Attached w (q c)) (hbounded : Bounded w s) {a : Act p}
    (h : step b w q s (c, a) = some s') : Move b w q s c a s' := by
  have hstep := h
  unfold step at h
  dsimp only at h
  split at h
  · next a' =>
    split at h
    · cases h
    · next hwrite =>
      obtain ⟨t, ht, rfl⟩ := Option.map_eq_some_iff.mp h
      have hslots : t.slots = w.bytes s.object := slots_of_not_write hwrite ht
      refine .call (by simpa using hwrite) ?_ rfl rfl
      rw [ht]
      exact congrArg some (State.ext rfl hslots rfl)
  · next hpc =>
    obtain ⟨content, offset, hlength, hle, hstep', hentry, -, haccepts⟩ :=
      step_write hq hpc (hbounded c) _
    obtain rfl := Option.some.inj (hstep.symm.trans hstep')
    exact .write hpc hlength hle hentry haccepts
  · next hpc =>
    obtain ⟨offset, hle, hstep', -, hreturns⟩ := step_read hq hpc (hbounded c) _
    obtain rfl := Option.some.inj (hstep.symm.trans hstep')
    exact .read hpc hle hreturns
  · cases h

theorem Bounded.move (hbounded : Bounded w s) {a : Act p} (hm : Move b w q s c a s') :
    Bounded w s' := by
  have hupdate : ∀ {offset : Usize p}, offset.toNat ≤ w.itemSize.toNat →
      ∀ d, (Function.update s.offsets c offset d).toNat ≤ w.itemSize.toNat := by
    intro offset hle d
    by_cases hdc : d = c
    · subst hdc
      rwa [Function.update_self]
    · rw [Function.update_of_ne hdc]
      exact hbounded d
  cases hm with
  | call _ _ _ hoffsets =>
    unfold Bounded
    rw [hoffsets]
    exact hupdate (by simp)
  | write _ _ hle => exact hupdate hle
  | read _ hle => exact hupdate hle

/-- A step is one of the queue, or is not seen by it. -/
theorem Move.queue {a : Act p} (hm : Move b w q s c a s') :
    (∀ e, entry b q (s, c, a) = some e →
      Queue.step w.itemCount (s.queue w) e = some (s'.queue w)) ∧
    (entry b q (s, c, a) = none → s'.queue w = s.queue w) := by
  cases hm with
  | call hwrite hstep hobject hoffsets =>
    simp only [entry]
    refine ⟨?_, by simp⟩
    rintro e he
    obtain rfl := Option.some.inj he
    exact hstep
  | @write j chunk content offset hpc hlength hle hentry haccepts =>
    rw [hentry]
    refine ⟨?_, by simp⟩
    rintro e he
    obtain rfl := Option.some.inj he
    have hslots : w.bytes (w.put s.object (slot w.itemCount j) content)
        = Function.update (w.bytes s.object) (slot w.itemCount j) content := by
      funext i
      by_cases hi : i = slot w.itemCount j
      · rw [hi, Function.update_self, Site.bytes_put_self hlength]
      · rw [Function.update_of_ne hi, Site.bytes_put_of_ne hlength hi]
    refine (step_iff_move.mpr (.write (s := s.queue w) hpc)).trans ?_
    exact congrArg some (State.ext rfl hslots.symm rfl)
  | read hpc hle hreturns =>
    simp [entry, InMemory.queue]

end Moves

/-! ## Runs -/

section Runs

variable {b : Build} {w : Site p} {q : ι → Queue p} {object : Nat → UInt8}
  {h : List (Entry p ι)} {s s' : InMemory p ι}

theorem bounded_of_run (hq : ∀ c, Attached w (q c)) (hr : Run (system b w q object) h s) :
    Bounded w s := by
  refine hr.ledger (fun _ s => Bounded w s) ?_ ?_
  · rintro s ⟨-, -, -, hoffsets⟩ c
    rw [hoffsets]
    simp
  · rintro h s ⟨c, a⟩ s' hbounded hs
    exact hbounded.move (move_of_step (hq c) hbounded hs)

/-- Every step is one that `Move` lists. -/
theorem move_of_run (hq : ∀ c, Attached w (q c)) (hr : Run (system b w q object) h s) {c : ι}
    {a : Act p} (hs : step b w q s (c, a) = some s') : Move b w q s c a s' :=
  move_of_step (hq c) (bounded_of_run hq hr) hs

/-- The queue in memory refines the queue. -/
theorem run_queue (hq : ∀ c, Attached w (q c)) (hr : Run (system b w q object) h s) :
    Run (Queue.system w.itemCount ι (List UInt8)) (calls b w q h) (s.queue w) := by
  refine hr.mapped _ _ _ ?_ ?_
  · rintro s ⟨hcontrol, -, hcallers, -⟩
    exact ⟨hcontrol, hcallers⟩
  · rintro h s ⟨c, a⟩ s' hr hs
    exact (move_of_run hq hr hs).queue

/--
What the guards have accepted and returned.

It is told by the contents of their slots while they live, and by what the push guard has left once
it is dropped.
-/
structure Account (b : Build) (w : Site p) (q : ι → Queue p) (h : List (Entry p ι))
    (s : InMemory p ι) : Prop where
  push : ∀ {c j}, s.callers c = .pushGuard j →
    accepted b q j h = (w.bytes s.object (slot w.itemCount j)).take (s.offsets c).toNat
  pop : ∀ {c j poisoned}, s.callers c = .popGuard j poisoned →
    returned b q j h = (w.bytes s.object (slot w.itemCount j)).take (s.offsets c).toNat
  left : ∀ {e j}, e ∈ calls b w q h → DropsPush j e →
    accepted b q j h <+: e.1.slots (slot w.itemCount j) ∧
      returned b q j h <+: e.1.slots (slot w.itemCount j)
  begun : ∀ {j}, accepted b q j h ≠ [] →
    (∃ e ∈ calls b w q h, DropsPush j e) ∨ ∃ c, s.callers c = .pushGuard j
  handed : ∀ {j}, returned b q j h ≠ [] → ∃ e ∈ calls b w q h, HandsOut j e

omit [DecidableEq ι] in
theorem accepts_eq_nil {e : Entry p ι} {j : Usize p}
    (hno : e.1.callers e.2.1 = .pushGuard j → ∀ chunk, e.2.2 ≠ .write chunk) :
    accepts b q j e = [] := by
  unfold accepts
  split
  · next i chunk hpc hwrite =>
    have hij : i ≠ j := fun hij => hno (hij ▸ hpc) chunk hwrite
    exact if_neg hij
  · rfl

omit [DecidableEq ι] in
theorem returns_eq_nil {e : Entry p ι} {j : Usize p}
    (hno : ∀ poisoned, e.1.callers e.2.1 = .popGuard j poisoned → ∀ buffer, e.2.2 ≠ .read buffer) :
    returns b q j e = [] := by
  unfold returns
  split
  · next i poisoned buffer hpc hread =>
    have hij : i ≠ j := fun hij => hno poisoned (hij ▸ hpc) buffer hread
    exact if_neg hij
  · rfl

namespace Account

variable {c : ι} {j : Usize p}

omit [DecidableEq ι] in
/-- Nothing has been accepted with an index before its guard is granted. -/
theorem accepted_eq_nil (ha : Account b w q h s)
    (hl : Ledger w.itemCount (calls b w q h) (s.queue w)) (hi : Inv w.itemCount (s.queue w))
    (hclaimed : s.callers c = .pushClaimed j) : accepted b q j h = [] := by
  by_contra hne
  rcases ha.begun hne with ⟨e, he, hdrops⟩ | ⟨d, hd⟩
  · exact hl.not_dropsPush (c := c) hi (by simp [queue, hclaimed, Caller.sendTicket])
      (by simp [queue, hclaimed, Caller.dropping]) e he hdrops
  · have heq : d = c := hi.sends.inj (i := j.toNat) (by simp [queue, hd, Caller.sendTicket])
      (by simp [queue, hclaimed, Caller.sendTicket])
    rw [heq, hclaimed] at hd
    cases hd

omit [DecidableEq ι] in
/-- Nothing has been returned with an index before its guard is handed out. -/
theorem returned_eq_nil (ha : Account b w q h s)
    (hl : Ledger w.itemCount (calls b w q h) (s.queue w)) (hi : Inv w.itemCount (s.queue w))
    (hready : s.callers c = .popReady j) : returned b q j h = [] := by
  by_contra hne
  obtain ⟨e, he, hout⟩ := ha.handed hne
  exact hl.not_handsOut (c := c) hi (by simp [queue, hready, Caller.recvTicket])
    (by simp [queue, hready, Caller.handed]) e he hout

omit [DecidableEq ι] in
/-- Nothing has been returned with an index while its push guard lives. -/
theorem returned_eq_nil_of_push (ha : Account b w q h s)
    (hl : Ledger w.itemCount (calls b w q h) (s.queue w)) (hi : Inv w.itemCount (s.queue w))
    (hguard : s.callers c = .pushGuard j) : returned b q j h = [] := by
  by_contra hne
  obtain ⟨e, he, hout⟩ := ha.handed hne
  obtain ⟨e', he', hdrops⟩ := hl.exists_dropsPush hi he hout
  exact hl.not_dropsPush (c := c) hi (by simp [queue, hguard, Caller.sendTicket])
    (by simp [queue, hguard, Caller.dropping]) e' he' hdrops

/-- A step of a call or of a drop. -/
theorem call (ha : Account b w q h s) {a : Queue.Act (List UInt8)}
    (hl : Ledger w.itemCount (calls b w q h) (s.queue w)) (hi : Inv w.itemCount (s.queue w))
    (hwrite : a.isWrite = false)
    (hstep : Queue.step w.itemCount (s.queue w) (c, a) = some (s'.queue w))
    (hobject : s'.object = s.object) (hoffsets : s'.offsets = Function.update s.offsets c 0) :
    Account b w q (h ++ [(s, c, .call a)]) s' := by
  have hm := Queue.move_of_step hstep
  have hcallers : ∀ {d}, d ≠ c → s'.callers d = s.callers d := fun hd => callers_of_move hm hd
  have haccepted : ∀ j, accepted b q j (h ++ [(s, c, .call a)]) = accepted b q j h := by
    intro j
    rw [accepted_snoc, accepts_eq_nil (by simp), List.append_nil]
  have hreturned : ∀ j, returned b q j (h ++ [(s, c, .call a)]) = returned b q j h := by
    intro j
    rw [returned_snoc, returns_eq_nil (by simp), List.append_nil]
  have hcalls : calls b w q (h ++ [(s, c, .call a)]) = calls b w q h ++ [(s.queue w, c, a)] := by
    unfold calls
    rw [image_snoc]
    simp [entry]
  constructor
  · intro d j hd
    rw [haccepted, hobject, hoffsets]
    by_cases hdc : d = c
    · subst hdc
      rw [Function.update_self, toNat_zero, List.take_zero]
      exact ha.accepted_eq_nil hl hi (pushClaimed_of_move hm hwrite hd)
    · rw [Function.update_of_ne hdc]
      exact ha.push (hcallers hdc ▸ hd)
  · intro d j poisoned hd
    rw [hreturned, hobject, hoffsets]
    by_cases hdc : d = c
    · subst hdc
      rw [Function.update_self, toNat_zero, List.take_zero]
      exact ha.returned_eq_nil hl hi (handsOut_of_move hm hwrite hd).1
    · rw [Function.update_of_ne hdc]
      exact ha.pop (hcallers hdc ▸ hd)
  · intro e j he hdrops
    rw [haccepted, hreturned]
    rw [hcalls, List.mem_append, List.mem_singleton] at he
    rcases he with he | rfl
    · exact ha.left he hdrops
    · -- the guard is dropped now
      have hguard : s.callers c = .pushGuard j := hdrops.1
      rw [ha.push hguard, ha.returned_eq_nil_of_push hl hi hguard]
      exact ⟨List.take_prefix _ _, List.nil_prefix⟩
  · intro j hne
    rw [haccepted] at hne
    rw [hcalls]
    rcases ha.begun hne with ⟨e, he, hdrops⟩ | ⟨d, hd⟩
    · exact .inl ⟨e, List.mem_append_left _ he, hdrops⟩
    · by_cases hdc : d = c
      · subst hdc
        exact .inl ⟨_, List.mem_append_right _ (.head _), dropsPush_of_move hm hwrite hd⟩
      · exact .inr ⟨d, (hcallers hdc).trans hd⟩
  · intro j hne
    rw [hreturned] at hne
    obtain ⟨e, he, hout⟩ := ha.handed hne
    rw [hcalls]
    exact ⟨e, List.mem_append_left _ he, hout⟩

/-- A push guard is written to. -/
theorem write (ha : Account b w q h s) {chunk : Chunk p} {content : List UInt8} {offset : Usize p}
    (hl : Ledger w.itemCount (calls b w q h) (s.queue w)) (hi : Inv w.itemCount (s.queue w))
    (hpc : s.callers c = .pushGuard j) (hlength : content.length = w.itemSize.toNat)
    (hentry : entry b q (s, c, .write chunk) = some (c, .write content))
    (haccepts : (w.bytes s.object (slot w.itemCount j)).take (s.offsets c).toNat
      ++ accepts b q j (s, c, .write chunk) = content.take offset.toNat) :
    Account b w q (h ++ [(s, c, .write chunk)]) { s with
      object := w.put s.object (slot w.itemCount j) content
      offsets := Function.update s.offsets c offset } := by
  have hreturned : ∀ i, returned b q i (h ++ [(s, c, .write chunk)]) = returned b q i h := by
    intro i
    rw [returned_snoc, returns_eq_nil (by simp), List.append_nil]
  have haccepted : ∀ {i}, i ≠ j →
      accepted b q i (h ++ [(s, c, .write chunk)]) = accepted b q i h := by
    intro i hij
    rw [accepted_snoc, accepts_eq_nil, List.append_nil]
    intro hi
    exact absurd (Caller.pushGuard.inj (hi.symm.trans hpc)) hij
  have hcalls : calls b w q (h ++ [(s, c, .write chunk)])
      = calls b w q h ++ [(s.queue w, c, .write content)] := by
    unfold calls
    rw [image_snoc, hentry]
    rfl
  -- the slots of the other guards are not this one
  have hother : ∀ {d i}, d ≠ c → (s.callers d).guardIndex = some i →
      w.bytes (w.put s.object (slot w.itemCount j) content) (slot w.itemCount i)
        = w.bytes s.object (slot w.itemCount i) := by
    intro d i hdc hd
    refine Site.bytes_put_of_ne hlength ?_
    exact hi.slotsDistinct d c i j hd (by simp [queue, hpc, Caller.guardIndex]) hdc
  constructor
  · intro d i hd
    change s.callers d = .pushGuard i at hd
    dsimp only
    by_cases hdc : d = c
    · subst hdc
      obtain rfl := Caller.pushGuard.inj (hd.symm.trans hpc)
      rw [accepted_snoc, ha.push hd, haccepts, Function.update_self, Site.bytes_put_self hlength]
    · have hij : i ≠ j := by
        rintro rfl
        exact hdc (hi.sends.inj (i := i.toNat) (by simp [queue, hd, Caller.sendTicket])
          (by simp [queue, hpc, Caller.sendTicket]))
      rw [haccepted hij, ha.push hd, Function.update_of_ne hdc,
        hother hdc (by simp [hd, Caller.guardIndex])]
  · intro d i poisoned hd
    change s.callers d = .popGuard i poisoned at hd
    dsimp only
    have hdc : d ≠ c := by
      rintro rfl
      rw [hpc] at hd
      cases hd
    rw [hreturned, ha.pop hd, Function.update_of_ne hdc,
      hother hdc (by simp [hd, Caller.guardIndex])]
  · intro e i he hdrops
    rw [hcalls, List.mem_append, List.mem_singleton] at he
    rcases he with he | rfl
    · have hij : i ≠ j := by
        rintro rfl
        exact hl.not_dropsPush (c := c) hi (by simp [queue, hpc, Caller.sendTicket])
          (by simp [queue, hpc, Caller.dropping]) e he hdrops
      rw [haccepted hij, hreturned]
      exact ha.left he hdrops
    · obtain ⟨-, panicking, hdrop⟩ := hdrops
      cases hdrop
  · intro i hne
    by_cases hij : i = j
    · exact .inr ⟨c, hij ▸ hpc⟩
    · rw [haccepted hij] at hne
      rw [hcalls]
      rcases ha.begun hne with ⟨e, he, hdrops⟩ | hlive
      · exact .inl ⟨e, List.mem_append_left _ he, hdrops⟩
      · exact .inr hlive
  · intro i hne
    rw [hreturned] at hne
    obtain ⟨e, he, hout⟩ := ha.handed hne
    rw [hcalls]
    exact ⟨e, List.mem_append_left _ he, hout⟩

/-- A pop guard is read from. -/
theorem read (ha : Account b w q h s) {poisoned : Bool} {buffer : Chunk p} {offset : Usize p}
    (hl : Ledger w.itemCount (calls b w q h) (s.queue w)) (hi : Inv w.itemCount (s.queue w))
    (hpc : s.callers c = .popGuard j poisoned)
    (hreturns : (w.bytes s.object (slot w.itemCount j)).take (s.offsets c).toNat
      ++ returns b q j (s, c, .read buffer)
      = (w.bytes s.object (slot w.itemCount j)).take offset.toNat) :
    Account b w q (h ++ [(s, c, .read buffer)])
      { s with offsets := Function.update s.offsets c offset } := by
  have haccepted : ∀ i, accepted b q i (h ++ [(s, c, .read buffer)]) = accepted b q i h := by
    intro i
    rw [accepted_snoc, accepts_eq_nil (by simp), List.append_nil]
  have hreturned : ∀ {i}, i ≠ j →
      returned b q i (h ++ [(s, c, .read buffer)]) = returned b q i h := by
    intro i hij
    rw [returned_snoc, returns_eq_nil, List.append_nil]
    intro poisoned' hi
    exact absurd (Caller.popGuard.inj (hi.symm.trans hpc)).1 hij
  have hcontent : returned b q j (h ++ [(s, c, .read buffer)])
      = (w.bytes s.object (slot w.itemCount j)).take offset.toNat := by
    rw [returned_snoc, ha.pop hpc, hreturns]
  have hcalls : calls b w q (h ++ [(s, c, .read buffer)]) = calls b w q h := by
    unfold calls
    rw [image_snoc]
    simp [entry]
  have hgrant : ((s.queue w).callers c).recvGrant = some j.toNat := by
    simp [queue, hpc, Caller.recvGrant]
  constructor
  · intro d i hd
    change s.callers d = .pushGuard i at hd
    dsimp only
    have hdc : d ≠ c := by
      rintro rfl
      rw [hpc] at hd
      cases hd
    rw [haccepted, ha.push hd, Function.update_of_ne hdc]
  · intro d i poisoned' hd
    change s.callers d = .popGuard i poisoned' at hd
    dsimp only
    by_cases hdc : d = c
    · subst hdc
      obtain ⟨rfl, -⟩ := Caller.popGuard.inj (hd.symm.trans hpc)
      rw [hcontent, Function.update_self]
    · have hij : i ≠ j := by
        rintro rfl
        exact hdc (hi.recvs.inj (i := i.toNat) (by simp [queue, hd, Caller.recvTicket])
          (by simp [queue, hpc, Caller.recvTicket]))
      rw [hreturned hij, ha.pop hd, Function.update_of_ne hdc]
  · intro e i he hdrops
    rw [hcalls] at he
    rw [haccepted]
    by_cases hij : i = j
    · -- the slot still holds what the push guard has left there
      subst hij
      have hslot := hl.intact he hdrops (hi.recvGrant_bounds hgrant).1
      refine ⟨(ha.left he hdrops).1, ?_⟩
      rw [hcontent, ← hslot]
      exact List.take_prefix _ _
    · rw [hreturned hij]
      exact ha.left he hdrops
  · intro i hne
    rw [haccepted] at hne
    rw [hcalls]
    exact ha.begun hne
  · intro i hne
    rw [hcalls]
    by_cases hij : i = j
    · subst hij
      exact (hl.taken i).mp (.inr ⟨c, by simp [queue, hpc, Caller.handed]⟩)
    · rw [hreturned hij] at hne
      exact ha.handed hne

end Account

theorem account_of_run [Fintype ι] (hq : ∀ c, Attached w (q c))
    (hr : Run (system b w q object) h s) (hcalm : ∀ e ∈ calls b w q h, Calm w.itemCount e) :
    Account b w q h s := by
  revert hcalm
  refine hr.history (fun _ => True)
    (fun h s => (∀ e ∈ calls b w q h, Calm w.itemCount e) → Account b w q h s) ?_ ?_
    fun _ _ => trivial
  · rintro s ⟨-, -, hidle, -⟩ -
    constructor
    · intro c j hc; simp [hidle] at hc
    · intro c j poisoned hc; simp [hidle] at hc
    · intro e j he; cases he
    · intro j hne; exact absurd rfl hne
    · intro j hne; exact absurd rfl hne
  · rintro h s ⟨c, a⟩ s' hr - ih - hs hcalm
    have hpre : ∀ e ∈ calls b w q h, Calm w.itemCount e := by
      intro e he
      refine hcalm e ?_
      unfold calls
      rw [image_snoc]
      exact List.mem_append_left _ he
    have hl := ledger_of_run (run_queue hq hr) hpre
    have hi := inv_of_run (run_queue hq hr) hpre
    cases move_of_run hq hr hs with
    | call hwrite hstep hobject hoffsets => exact (ih hpre).call hl hi hwrite hstep hobject hoffsets
    | write hpc hlength _ hentry haccepts => exact (ih hpre).write hl hi hpc hlength hentry haccepts
    | read hpc _ hreturns => exact (ih hpre).read hl hi hpc hreturns

/-- Only the slots are written to. -/
theorem object_of_run (hq : ∀ c, Attached w (q c)) (hr : Run (system b w q object) h s) {k : Nat}
    (hk : ¬ w.InSlot k) : s.object k = object k := by
  refine hr.history (fun _ => True) (fun _ s => s.object k = object k) ?_ ?_ fun _ _ => trivial
  · rintro s ⟨-, hobject, -, -⟩
    rw [hobject]
  · rintro h s ⟨c, a⟩ s' hr - ih - hs
    cases move_of_run hq hr hs with
    | call _ _ hobject => rw [hobject, ih]
    | @write j chunk content offset hpc hlength =>
      refine (Site.put_of_notMem ?_).trans ih
      by_contra hmem
      have hslot : slot w.itemCount j < w.itemCount.toNat := by
        rw [slot_eq]
        exact Nat.mod_lt _ w.itemCount.pos
      exact hk ⟨slot w.itemCount j, hslot, by omega, by omega⟩
    | read => exact ih

/-- What the memory does for the queue. -/
structure Faithful (b : Build) (w : Site p) (q : ι → Queue p) (object : Nat → UInt8)
    (h : List (Entry p ι)) (s : InMemory p ι) : Prop where
  /-- To the queue the slots are single values that change in one step. -/
  refines : Run (Queue.system w.itemCount ι (List UInt8)) (calls b w q h) (s.queue w)
  /-- What is read is what was written, as far as both go. -/
  agree : ∀ j, accepted b q j h <+: returned b q j h ∨ returned b q j h <+: accepted b q j h
  /-- A guard never panics. It accepts what there is room for. -/
  writes : ∀ {c j}, s.callers c = .pushGuard j → ∀ chunk,
    (∃ s', step b w q s (c, .write chunk) = some s') ∧
      accepts b q j (s, c, .write chunk)
        = chunk.bytes.take (w.itemSize.toNat - (accepted b q j h).length)
  /-- It returns what there is. -/
  reads : ∀ {c j poisoned}, s.callers c = .popGuard j poisoned → ∀ buffer,
    (∃ s', step b w q s (c, .read buffer) = some s') ∧
      (returns b q j (s, c, .read buffer)).length
        = min (w.itemSize.toNat - (returned b q j h).length) buffer.bytes.length
  /-- Nothing but the slots is touched. -/
  rest : ∀ {k}, ¬ w.InSlot k → s.object k = object k
  /-- The control block lies behind the slots. -/
  control : ∀ {k}, w.start w.itemCount.toNat ≤ k → s.object k = object k

/--
The queue over the bytes of a shared memory object.

Each caller has an instance of its own, and the run of the queue claims no index `usize::MAX` and is
never crowded.
-/
theorem through_memory [Fintype ι] (hq : ∀ c, Opened w (q c))
    (hr : Run (system b w q object) h s) (hcalm : ∀ e ∈ calls b w q h, Calm w.itemCount e) :
    Faithful b w q object h s := by
  have hq : ∀ c, Attached w (q c) := fun c => attached_of_opened (hq c)
  have hrun := run_queue hq hr
  have hl := ledger_of_run hrun hcalm
  have hi := inv_of_run hrun hcalm
  have ha := account_of_run hq hr hcalm
  have hbounded := bounded_of_run hq hr
  have hlength : ∀ c j, ((w.bytes s.object (slot w.itemCount j)).take (s.offsets c).toNat).length
      = (s.offsets c).toNat := by
    intro c j
    rw [List.length_take, Site.length_bytes]
    exact Nat.min_eq_left (hbounded c)
  refine ⟨hrun, fun j => ?_, fun {c j} hpc chunk => ?_, fun {c j poisoned} hpc buffer => ?_,
    object_of_run hq hr, fun hk => object_of_run hq hr (Site.not_inSlot_of_le hk)⟩
  · -- both begin what the push guard has left in its slot
    by_cases hnone : returned b q j h = []
    · rw [hnone]
      exact .inr List.nil_prefix
    · obtain ⟨e, he, hout⟩ := ha.handed hnone
      obtain ⟨e', he', hdrops⟩ := hl.exists_dropsPush hi he hout
      obtain ⟨haccepted, hreturned⟩ := ha.left he' hdrops
      exact List.prefix_or_prefix_of_prefix haccepted hreturned
  · obtain ⟨content, offset, -, -, hstep, -, haccepts, -⟩ :=
      step_write (b := b) (hq c) hpc (hbounded c) chunk
    refine ⟨⟨_, hstep⟩, ?_⟩
    rw [haccepts, ha.push hpc, hlength]
  · obtain ⟨offset, -, hstep, hreturns, -⟩ := step_read (b := b) (hq c) hpc (hbounded c) buffer
    refine ⟨⟨_, hstep⟩, ?_⟩
    rw [hreturns, ha.pop hpc, hlength]

end Runs

/-! ## Two processes -/

theorem page_in_object :
    (0 : Usize .w64).toNat + (4096 : Usize .w64).toNat < 2 ^ PointerWidth.w64.bits := by decide

/-- A page of an object, mapped by two processes. -/
def pageAt (pointer : Usize .w64) (h : pointer.toNat + 4096 ≤ 2 ^ PointerWidth.w64.bits) :
    SharedMemMap .w64 where
  pointer
  len := 4096
  access := .readWrite
  offset := 0
  token := 0
  in_object := page_in_object
  in_space := h

theorem low_in_space : (0x10000 : Usize .w64).toNat + 4096 ≤ 2 ^ PointerWidth.w64.bits := by decide

theorem high_in_space : (0x20000 : Usize .w64).toNat + 4096 ≤ 2 ^ PointerWidth.w64.bits := by decide

/-- A queue of two items of four bytes at the start of the page. -/
def pageSite : Site .w64 := ⟨0, 4, twoSlots⟩

/-- One process has made the queue. -/
def maker : Queue .w64 :=
  ⟨pageAt 0x10000 low_in_space, 0, 0x10000 + 128, 0x10000, 4, 64, 2⟩

/-- The other one has attached to it. -/
def guest : Queue .w64 :=
  ⟨pageAt 0x20000 high_in_space, 0, 0x20000 + 128, 0x20000, 4, 64, 2⟩

/-- The instance of the caller `true` and that of the caller `false`. -/
def makerAndGuest : Bool → Queue .w64
  | true => maker
  | false => guest

theorem opened_makerAndGuest (c : Bool) : Opened pageSite (makerAndGuest c) := by
  cases c with
  | true =>
    have hnew : newWithMemory .debug 4 2 (pageAt 0x10000 low_in_space) 0 = .ok maker := rfl
    exact .new hnew (by decide) rfl
  | false =>
    have hfrom : fromHandle .debug maker.handle (pageAt 0x20000 high_in_space) = .ok guest := rfl
    exact .attached hfrom (by decide) rfl rfl rfl

theorem length_take_lt (bytes : List UInt8) :
    (bytes.take 8).length < 2 ^ PointerWidth.w64.bits :=
  Nat.lt_of_le_of_lt (List.length_take_le 8 bytes) (by decide)

/-- A chunk of up to eight bytes. -/
def chunkOf (bytes : List UInt8) : Chunk .w64 := ⟨bytes.take 8, length_take_lt bytes⟩

def pageStart : InMemory .w64 Bool where
  control := Ctrl.new
  object := fun _ => 0
  callers := fun _ => .idle
  offsets := fun _ => 0

/-- Six bytes are written in two chunks, of which four fit, and read in two other chunks. -/
def meeting : List (Bool × Act .w64) :=
  [(true, .call .tryPush), (true, .call .load), (true, .write (chunkOf [1, 2, 3])),
    (true, .write (chunkOf [4, 5, 6])), (true, .call (.drop false)),
    (true, .call (.publish false)), (false, .call .tryPop), (false, .call .load),
    (false, .call .load), (false, .read (chunkOf [0])), (false, .read (chunkOf [0, 0, 0, 0]))]

/-- The history of `meeting` and the state it ends in. -/
def meetingRun : List (Entry .w64 Bool) × InMemory .w64 Bool :=
  ((system .debug pageSite makerAndGuest fun _ => 0).replay pageStart meeting).getD ([], pageStart)

theorem run_meeting :
    Run (system .debug pageSite makerAndGuest fun _ => 0) meetingRun.1 meetingRun.2 := by
  have hsome : ((system .debug pageSite makerAndGuest fun _ => 0).replay pageStart
      meeting).isSome = true := by decide +kernel
  obtain ⟨r, hr⟩ := Option.isSome_iff_exists.mp hsome
  have heq : meetingRun = r := by
    unfold meetingRun
    rw [hr]
    rfl
  rw [heq]
  exact Run.of_replay meeting ⟨rfl, rfl, fun _ => rfl, fun _ => rfl⟩ hr

theorem through_memory_meeting : ∃ h s,
    Run (system .debug pageSite makerAndGuest fun _ => 0) h s ∧
    accepted .debug makerAndGuest 0 h = [1, 2, 3, 4] ∧
    returned .debug makerAndGuest 0 h = [1, 2, 3, 4] ∧
    Faithful .debug pageSite makerAndGuest (fun _ => 0) h s :=
  ⟨_, _, run_meeting, by decide +kernel, by decide +kernel,
    through_memory opened_makerAndGuest run_meeting (by decide +kernel)⟩

end InMemory

end Queue

end SandboxIpc
