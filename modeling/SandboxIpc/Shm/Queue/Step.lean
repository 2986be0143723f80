import SandboxIpc.Infra.Run
import SandboxIpc.Machine
import Mathlib.Logic.Function.Basic

/-!
# The shared memory queue, one atomic step at a time

`shm/queue.rs`. Any number of callers in any number of processes work on one control block. Every
atomic operation on the control block is one step, together with the local computation up to the
next one, and the steps of different callers interleave freely.

A *caller* is one `try_push` or `try_pop` call and the guard it returns. A thread that keeps a guard
while it makes the next call is two callers.

* `Act` — what a caller does next; the weak compare-exchanges may fail spuriously
* `step` — the step function
* `Move` — the same relation, one constructor for each thing a step can do
-/

namespace SandboxIpc.Queue

open Infra

variable {p : PointerWidth} {ι α : Type}

/-- An `item_count` that passes the assertions of `required_size`. -/
structure ItemCount (p : PointerWidth) where
  val : Usize p
  pos : 0 < val.toNat
  lt : val.toNat < (isizeMax p).toNat

/-- The atomics of `SharedMemQueueCtrl`. -/
@[ext] structure Ctrl (p : PointerWidth) where
  nextSendIndex : Usize p
  lastSentIndex : Usize p
  nextRecvIndex : Usize p
  lastRecvdIndex : Usize p
  poison : Bool

/-- The control block `new_with_memory` writes. -/
def Ctrl.new : Ctrl p where
  nextSendIndex := 0
  lastSentIndex := usizeMax p
  nextRecvIndex := 0
  lastRecvdIndex := usizeMax p
  poison := false

/-- Where a caller stands. -/
inductive Caller (p : PointerWidth)
  | idle
  /-- In `try_push`, about to load `last_recvd_index` at the head of `'check_send_clear`. -/
  | pushClaimed (sendIndex : Usize p)
  /-- In `try_push`, found the queue full, about to put the index back. -/
  | pushFull (sendIndex : Usize p)
  /-- Owns a `PushGuard`. -/
  | pushGuard (sendIndex : Usize p)
  /-- In the loop of `PushGuard::drop`. -/
  | pushDropping (sendIndex : Usize p)
  /-- In `try_pop`, about to load `last_sent_index` at the head of `'check_recv_clear`. -/
  | popClaimed (recvIndex : Usize p)
  /-- In `try_pop`, found the queue empty, about to put the index back. -/
  | popEmpty (recvIndex : Usize p)
  /-- In `try_pop`, past the check, about to load the poison flag. -/
  | popReady (recvIndex : Usize p)
  /-- Owns a `PopGuard`, inside a `PoisonError` if `poisoned`. -/
  | popGuard (recvIndex : Usize p) (poisoned : Bool)
  /-- In the loop of `PopGuard::drop`. -/
  | popDropping (recvIndex : Usize p)
  /-- Hit the `unimplemented!()` of the wrap-around branch. -/
  | panicked
  deriving DecidableEq

/-- The whole system: the control block, the contents of the slots, and every caller. -/
@[ext] structure State (p : PointerWidth) (ι α : Type) where
  control : Ctrl p
  slots : Nat → α
  callers : ι → Caller p

/-- What a caller does in one step. -/
inductive Act (α : Type)
  | tryPush
  | tryPop
  /-- The load a call waits to make. -/
  | load
  /-- `compare_exchange_weak` on the next index; `fails` is a spurious failure. -/
  | putBack (fails : Bool)
  /-- The owner of a `PushGuard` changes its slot. -/
  | write (contents : α)
  /-- `drop` begins; `panicking` is `thread::panicking()`. -/
  | drop (panicking : Bool)
  /-- `compare_exchange_weak` on the last index; `fails` is a spurious failure. -/
  | publish (fails : Bool)
  deriving DecidableEq

/-- The slot an index stands for: `index % self.item_count`. -/
def slot (n : ItemCount p) (index : Usize p) : Nat := (index % n.val).toNat

/-- The queue is not full for the owner of `sendIndex`. -/
def sendClear (n : ItemCount p) (sendIndex lastRecvdIndex : Usize p) : Bool :=
  decide ((sendIndex - (lastRecvdIndex + 1)).toInt < n.val.toInt)

/-- The queue is not empty for the owner of `recvIndex`. -/
def recvClear (recvIndex lastSentIndex : Usize p) : Bool :=
  decide (0 ≤ (lastSentIndex - recvIndex).toInt)

variable [DecidableEq ι]

def State.setCaller (s : State p ι α) (c : ι) (x : Caller p) : State p ι α :=
  { s with callers := Function.update s.callers c x }

/-- One step of caller `c`. -/
def step (n : ItemCount p) (s : State p ι α) (e : ι × Act α) : Option (State p ι α) :=
  let c := e.1
  match s.callers c, e.2 with
  | .idle, .tryPush =>
    let sendIndex := s.control.nextSendIndex
    some <| { s with control.nextSendIndex := sendIndex + 1 }.setCaller c
      (if sendIndex = usizeMax p then .panicked else .pushClaimed sendIndex)
  | .pushClaimed sendIndex, .load =>
    some <| s.setCaller c
      (if sendClear n sendIndex s.control.lastRecvdIndex then .pushGuard sendIndex
        else .pushFull sendIndex)
  | .pushFull sendIndex, .putBack fails =>
    if fails = false ∧ s.control.nextSendIndex = sendIndex + 1 then
      some <| { s with control.nextSendIndex := sendIndex }.setCaller c .idle
    -- the whole check is repeated: there may be room by now
    else some <| s.setCaller c (.pushClaimed sendIndex)
  | .pushGuard sendIndex, .write contents =>
    some { s with slots := Function.update s.slots (slot n sendIndex) contents }
  | .pushGuard sendIndex, .drop panicking =>
    some <| { s with control.poison := s.control.poison || panicking }.setCaller c
      (.pushDropping sendIndex)
  | .pushDropping sendIndex, .publish fails =>
    if fails = false ∧ s.control.lastSentIndex = sendIndex - 1 then
      some <| { s with control.lastSentIndex := sendIndex }.setCaller c .idle
    -- an earlier push is not finished yet: the loop goes round once more
    else some s
  | .idle, .tryPop =>
    let recvIndex := s.control.nextRecvIndex
    some <| { s with control.nextRecvIndex := recvIndex + 1 }.setCaller c
      (if recvIndex = usizeMax p then .panicked else .popClaimed recvIndex)
  | .popClaimed recvIndex, .load =>
    some <| s.setCaller c
      (if recvClear recvIndex s.control.lastSentIndex then .popReady recvIndex
        else .popEmpty recvIndex)
  | .popEmpty recvIndex, .putBack fails =>
    if fails = false ∧ s.control.nextRecvIndex = recvIndex + 1 then
      some <| { s with control.nextRecvIndex := recvIndex }.setCaller c .idle
    else some <| s.setCaller c (.popClaimed recvIndex)
  | .popReady recvIndex, .load =>
    -- a poisoned queue hands out the guard all the same
    some <| s.setCaller c (.popGuard recvIndex s.control.poison)
  | .popGuard recvIndex _, .drop panicking =>
    some <| { s with control.poison := s.control.poison || panicking }.setCaller c
      (.popDropping recvIndex)
  | .popDropping recvIndex, .publish fails =>
    if fails = false ∧ s.control.lastRecvdIndex = recvIndex - 1 then
      some <| { s with control.lastRecvdIndex := recvIndex }.setCaller c .idle
    else some s
  | _, _ => none

/-- The queue `new_with_memory` makes, with whatever the slots held before. -/
def Fresh (s : State p ι α) : Prop := s.control = Ctrl.new ∧ ∀ c, s.callers c = .idle

/-- A fresh queue over memory `slots`. -/
def fresh (p : PointerWidth) (ι : Type) (slots : Nat → α) : State p ι α :=
  { control := Ctrl.new, slots, callers := fun _ => .idle }

omit [DecidableEq ι] in
theorem fresh_fresh (slots : Nat → α) : Fresh (fresh p ι slots) := ⟨rfl, fun _ => rfl⟩

/-- The queue as a transition system. -/
def system (n : ItemCount p) (ι α : Type) [DecidableEq ι] :
    System (State p ι α) (ι × Act α) where
  init := Fresh
  step := step n

/-! ## What a step can do -/

/-- `Move n s c a s'`: by action `a`, caller `c` takes `s` to `s'`. -/
inductive Move (n : ItemCount p) (s : State p ι α) (c : ι) : Act α → State p ι α → Prop
  | claimSend : s.callers c = .idle → s.control.nextSendIndex ≠ usizeMax p →
      Move n s c .tryPush
        ({ s with control.nextSendIndex := s.control.nextSendIndex + 1 }.setCaller c
          (.pushClaimed s.control.nextSendIndex))
  | wrapSend : s.callers c = .idle → s.control.nextSendIndex = usizeMax p →
      Move n s c .tryPush
        ({ s with control.nextSendIndex := s.control.nextSendIndex + 1 }.setCaller c .panicked)
  | grantPush {i} : s.callers c = .pushClaimed i →
      sendClear n i s.control.lastRecvdIndex = true →
      Move n s c .load (s.setCaller c (.pushGuard i))
  | refusePush {i} : s.callers c = .pushClaimed i →
      sendClear n i s.control.lastRecvdIndex = false →
      Move n s c .load (s.setCaller c (.pushFull i))
  | handBackSend {i} : s.callers c = .pushFull i → s.control.nextSendIndex = i + 1 →
      Move n s c (.putBack false) ({ s with control.nextSendIndex := i }.setCaller c .idle)
  | retryPush {i fails} : s.callers c = .pushFull i →
      ¬ (fails = false ∧ s.control.nextSendIndex = i + 1) →
      Move n s c (.putBack fails) (s.setCaller c (.pushClaimed i))
  | write {i contents} : s.callers c = .pushGuard i →
      Move n s c (.write contents)
        { s with slots := Function.update s.slots (slot n i) contents }
  | dropPush {i panicking} : s.callers c = .pushGuard i →
      Move n s c (.drop panicking)
        ({ s with control.poison := s.control.poison || panicking }.setCaller c (.pushDropping i))
  | publishSend {i} : s.callers c = .pushDropping i → s.control.lastSentIndex = i - 1 →
      Move n s c (.publish false) ({ s with control.lastSentIndex := i }.setCaller c .idle)
  | spinPush {i fails} : s.callers c = .pushDropping i →
      ¬ (fails = false ∧ s.control.lastSentIndex = i - 1) → Move n s c (.publish fails) s
  | claimRecv : s.callers c = .idle → s.control.nextRecvIndex ≠ usizeMax p →
      Move n s c .tryPop
        ({ s with control.nextRecvIndex := s.control.nextRecvIndex + 1 }.setCaller c
          (.popClaimed s.control.nextRecvIndex))
  | wrapRecv : s.callers c = .idle → s.control.nextRecvIndex = usizeMax p →
      Move n s c .tryPop
        ({ s with control.nextRecvIndex := s.control.nextRecvIndex + 1 }.setCaller c .panicked)
  | grantPop {i} : s.callers c = .popClaimed i → recvClear i s.control.lastSentIndex = true →
      Move n s c .load (s.setCaller c (.popReady i))
  | refusePop {i} : s.callers c = .popClaimed i → recvClear i s.control.lastSentIndex = false →
      Move n s c .load (s.setCaller c (.popEmpty i))
  | handBackRecv {i} : s.callers c = .popEmpty i → s.control.nextRecvIndex = i + 1 →
      Move n s c (.putBack false) ({ s with control.nextRecvIndex := i }.setCaller c .idle)
  | retryPop {i fails} : s.callers c = .popEmpty i →
      ¬ (fails = false ∧ s.control.nextRecvIndex = i + 1) →
      Move n s c (.putBack fails) (s.setCaller c (.popClaimed i))
  | handOut {i} : s.callers c = .popReady i →
      Move n s c .load (s.setCaller c (.popGuard i s.control.poison))
  | dropPop {i poisoned panicking} : s.callers c = .popGuard i poisoned →
      Move n s c (.drop panicking)
        ({ s with control.poison := s.control.poison || panicking }.setCaller c (.popDropping i))
  | publishRecv {i} : s.callers c = .popDropping i → s.control.lastRecvdIndex = i - 1 →
      Move n s c (.publish false) ({ s with control.lastRecvdIndex := i }.setCaller c .idle)
  | spinPop {i fails} : s.callers c = .popDropping i →
      ¬ (fails = false ∧ s.control.lastRecvdIndex = i - 1) → Move n s c (.publish fails) s

theorem move_of_step {n : ItemCount p} {s s' : State p ι α} {c : ι} {a : Act α}
    (h : step n s (c, a) = some s') : Move n s c a s' := by
  unfold step at h
  dsimp only at h
  split at h
  · next hpc =>
    obtain rfl := Option.some.inj h
    split
    · next hmax => exact .wrapSend hpc hmax
    · next hmax => exact .claimSend hpc hmax
  · next hpc =>
    obtain rfl := Option.some.inj h
    split
    · next hclear => exact .grantPush hpc hclear
    · next hclear => exact .refusePush hpc (by simpa using hclear)
  · next hpc =>
    split at h <;> obtain rfl := Option.some.inj h
    · next hcas => rw [hcas.1]; exact .handBackSend hpc hcas.2
    · next hcas => exact .retryPush hpc hcas
  · next hpc => obtain rfl := Option.some.inj h; exact .write hpc
  · next hpc => obtain rfl := Option.some.inj h; exact .dropPush hpc
  · next hpc =>
    split at h <;> obtain rfl := Option.some.inj h
    · next hcas => rw [hcas.1]; exact .publishSend hpc hcas.2
    · next hcas => exact .spinPush hpc hcas
  · next hpc =>
    obtain rfl := Option.some.inj h
    split
    · next hmax => exact .wrapRecv hpc hmax
    · next hmax => exact .claimRecv hpc hmax
  · next hpc =>
    obtain rfl := Option.some.inj h
    split
    · next hclear => exact .grantPop hpc hclear
    · next hclear => exact .refusePop hpc (by simpa using hclear)
  · next hpc =>
    split at h <;> obtain rfl := Option.some.inj h
    · next hcas => rw [hcas.1]; exact .handBackRecv hpc hcas.2
    · next hcas => exact .retryPop hpc hcas
  · next hpc => obtain rfl := Option.some.inj h; exact .handOut hpc
  · next hpc => obtain rfl := Option.some.inj h; exact .dropPop hpc
  · next hpc =>
    split at h <;> obtain rfl := Option.some.inj h
    · next hcas => rw [hcas.1]; exact .publishRecv hpc hcas.2
    · next hcas => exact .spinPop hpc hcas
  · exact absurd h (by simp)

theorem step_iff_move {n : ItemCount p} {s s' : State p ι α} {c : ι} {a : Act α} :
    step n s (c, a) = some s' ↔ Move n s c a s' := by
  refine ⟨move_of_step, fun h => ?_⟩
  cases h <;> simp_all [step]

/-- A step moves no caller but its own. -/
theorem callers_of_move {n : ItemCount p} {s s' : State p ι α} {c d : ι} {a : Act α}
    (h : Move n s c a s') (hd : d ≠ c) : s'.callers d = s.callers d := by
  cases h with
  | write | spinPush | spinPop => rfl
  | _ => exact Function.update_of_ne hd ..

/-! ## Fields after a step -/

section Fields

variable (s : State p ι α) (c : ι) (x : Caller p)

@[simp] theorem setCaller_control : (s.setCaller c x).control = s.control := rfl

@[simp] theorem setCaller_slots : (s.setCaller c x).slots = s.slots := rfl

@[simp] theorem setCaller_callers :
    (s.setCaller c x).callers = Function.update s.callers c x := rfl

theorem setCaller_self : (s.setCaller c x).callers c = x := Function.update_self ..

theorem setCaller_of_ne {d : ι} (h : d ≠ c) : (s.setCaller c x).callers d = s.callers d :=
  Function.update_of_ne h ..

end Fields

end SandboxIpc.Queue
