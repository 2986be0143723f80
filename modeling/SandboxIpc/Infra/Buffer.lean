import SandboxIpc.Infra.Census
import SandboxIpc.Infra.Refinement

/-!
# A bounded buffer

What a bounded first-in-first-out buffer does for any number of clients, each operation in one
indivisible step. A client *offers* an item: it is admitted while there is room for all that are
admitted, then it puts its item. A client *asks* for an item: it is served the oldest one, receives
it and gives it back. An offer may be turned away only while there is no room for all that offer,
and an ask only while there are fewer items than clients that ask.

What is seen is the beginning and the end of each call; when an item is served is not.

* `Buffer.step` — the operations
* `Buffer.see` — what is seen of them
* `Buffer.Orderly` — no more than `size` items, and they are served in the order they were put in
* `Buffer.orderly_of_run` — it holds in every run
-/

namespace Infra

variable {ι α : Type*}

namespace Buffer

/-- Where a client stands. -/
inductive Client (α : Type*)
  | idle
  | offering
  | turnedAway
  /-- There is room for the item it is about to put. -/
  | admitted
  | asking
  | unserved
  /-- Has been served `x` and does not know yet. -/
  | owed (x : α)
  | holding (x : α)

/-- What a client does. -/
inductive Op (α : Type*)
  | offer
  | letIn
  | turnAway
  | offerAgain
  | giveUp
  | put (x : α)
  | ask
  | serve
  | refuse
  | askAgain
  | leave
  | receive
  | giveBack

/-- What is seen. -/
inductive Event (ι α : Type*)
  | offers (c : ι)
  | isAdmitted (c : ι)
  | givesUp (c : ι)
  | puts (c : ι) (x : α)
  | asks (c : ι)
  | leaves (c : ι)
  | receives (c : ι) (x : α)
  | givesBack (c : ι)

/-- Wants to put an item. -/
def Client.offers : Client α → Bool
  | .offering | .turnedAway | .admitted => true
  | _ => false

def Client.isAdmitted : Client α → Bool
  | .admitted => true
  | _ => false

/-- Wants an item and has none. -/
def Client.asks : Client α → Bool
  | .asking | .unserved => true
  | _ => false

/-- The item it has been served and not yet received. -/
def Client.due : Client α → Option α
  | .owed x => some x
  | _ => none

end Buffer

open Buffer

/-- The items that wait, oldest first, the number of those that were served and not given back, and
the clients. -/
@[ext] structure Buffer (ι α : Type*) where
  waiting : List α
  held : Nat
  clients : ι → Client α

namespace Buffer

variable [DecidableEq ι]

def move (t : Buffer ι α) (c : ι) (x : Client α) : Buffer ι α :=
  { t with clients := Function.update t.clients c x }

@[simp] theorem move_waiting (t : Buffer ι α) (c : ι) (x : Client α) :
    (t.move c x).waiting = t.waiting := rfl

@[simp] theorem move_held (t : Buffer ι α) (c : ι) (x : Client α) :
    (t.move c x).held = t.held := rfl

@[simp] theorem move_clients (t : Buffer ι α) (c : ι) (x : Client α) :
    (t.move c x).clients = Function.update t.clients c x := rfl

theorem move_self (t : Buffer ι α) (c : ι) : t.move c (t.clients c) = t := by
  unfold move
  rw [Function.update_eq_self]

variable [Fintype ι]

/-- One operation of client `e.1`. -/
def step (size : Nat) (t : Buffer ι α) (e : ι × Op α) : Option (Buffer ι α) :=
  match t.clients e.1, e.2 with
  | .idle, .offer => some (t.move e.1 .offering)
  | .offering, .letIn =>
    if t.waiting.length + t.held + census Client.isAdmitted t.clients < size then
      some (t.move e.1 .admitted)
    else none
  | .offering, .turnAway =>
    if size < t.waiting.length + t.held + census Client.offers t.clients then
      some (t.move e.1 .turnedAway)
    else none
  | .turnedAway, .offerAgain => some (t.move e.1 .offering)
  | .turnedAway, .giveUp => some (t.move e.1 .idle)
  | .admitted, .put x => some ({ t with waiting := t.waiting ++ [x] }.move e.1 .idle)
  | .idle, .ask => some (t.move e.1 .asking)
  | .asking, .serve =>
    t.waiting.head?.map fun x =>
      { t with waiting := t.waiting.tail, held := t.held + 1 }.move e.1 (.owed x)
  | .asking, .refuse =>
    if t.waiting.length < census Client.asks t.clients then some (t.move e.1 .unserved) else none
  | .unserved, .askAgain => some (t.move e.1 .asking)
  | .unserved, .leave => some (t.move e.1 .idle)
  | .owed x, .receive => some (t.move e.1 (.holding x))
  | .holding _, .giveBack => some ({ t with held := t.held - 1 }.move e.1 .idle)
  | _, _ => none

/-- What is seen of an operation. -/
def see (e : Buffer ι α × ι × Op α) : Option (Event ι α) :=
  match e.2.2, e.1.clients e.2.1 with
  | .offer, _ => some (.offers e.2.1)
  | .letIn, _ => some (.isAdmitted e.2.1)
  | .giveUp, _ => some (.givesUp e.2.1)
  | .put x, _ => some (.puts e.2.1 x)
  | .ask, _ => some (.asks e.2.1)
  | .leave, _ => some (.leaves e.2.1)
  | .receive, .owed x => some (.receives e.2.1 x)
  | .giveBack, _ => some (.givesBack e.2.1)
  | _, _ => none

/-- Nothing waits and nobody calls. -/
def Empty (t : Buffer ι α) : Prop := t.waiting = [] ∧ t.held = 0 ∧ ∀ c, t.clients c = .idle

/-- A buffer for `size` items. -/
def system (size : Nat) (ι α : Type*) [DecidableEq ι] [Fintype ι] :
    System (Buffer ι α) (ι × Op α) where
  init := Empty
  step := step size

/-- A client that asks can be served the oldest item, whether or not it has just been refused. -/
theorem goes_served (size : Nat) {t : Buffer ι α} {c : ι} {x : α} {rest : List α}
    (hwaiting : t.waiting = x :: rest) (hc : (t.clients c).asks = true) :
    (system size ι α).Goes see t []
      ({ t with waiting := rest, held := t.held + 1 }.move c (.owed x)) := by
  cases hpc : t.clients c with
  | asking =>
    refine .unseen (b := (c, .serve)) ?_ rfl (.refl _)
    simp [system, step, hpc, hwaiting]
  | unserved =>
    have hagain : (system size ι α).step t (c, .askAgain) = some (t.move c .asking) := by
      simp [system, step, hpc]
    refine .unseen hagain rfl (.unseen (b := (c, .serve)) ?_ rfl (.refl _))
    simp [system, step, hwaiting, move]
  | _ => simp [hpc, Client.asks] at hc

/-! ## What a buffer promises -/

/-- The items that were put, oldest first. -/
def puts (seen : List (Event ι α)) : List α :=
  seen.filterMap fun w => match w with | .puts _ x => some x | _ => none

/-- The items that `c` received, oldest first. -/
def receipts (c : ι) (seen : List (Event ι α)) : List α :=
  seen.filterMap fun w => match w with | .receives d x => if d = c then some x else none | _ => none

/-- Which client is served which item by this operation. -/
def served (e : Buffer ι α × ι × Op α) : Option (ι × α) :=
  match e.2.2 with
  | .serve => e.1.waiting.head?.map fun x => (e.2.1, x)
  | _ => none

/-- The items that were served to `c`, oldest first. -/
def portion (c : ι) (order : List (ι × α)) : List α :=
  order.filterMap fun e => if e.1 = c then some e.2 else none

/--
First in, first out.

There is an order in which all items are served. It is the order in which they were put, and each
client receives its items in this order.
-/
structure Orderly (size : Nat) (h : List (Buffer ι α × ι × Op α)) (t : Buffer ι α) : Prop where
  /-- Everything that waits, is held or may still be put has room. -/
  fits : t.waiting.length + t.held + census Client.isAdmitted t.clients ≤ size
  ordered : puts (trace see h) = (h.filterMap served).map Prod.snd ++ t.waiting
  own : ∀ c, portion c (h.filterMap served)
    = receipts c (trace see h) ++ (t.clients c).due.toList

section Promise

variable {size : Nat} {h : List (Buffer ι α × ι × Op α)} {t t' : Buffer ι α}

omit [DecidableEq ι] [Fintype ι] in
theorem puts_append (k k' : List (Event ι α)) : puts (k ++ k') = puts k ++ puts k' :=
  List.filterMap_append ..

omit [Fintype ι] in
theorem receipts_append (c : ι) (k k' : List (Event ι α)) :
    receipts c (k ++ k') = receipts c k ++ receipts c k' :=
  List.filterMap_append ..

omit [Fintype ι] in
theorem portion_append (c : ι) (k k' : List (ι × α)) :
    portion c (k ++ k') = portion c k ++ portion c k' :=
  List.filterMap_append ..

omit [DecidableEq ι] [Fintype ι] in
theorem served_snoc (h : List (Buffer ι α × ι × Op α)) (e : Buffer ι α × ι × Op α) :
    (h ++ [e]).filterMap served = h.filterMap served ++ (served e).toList := by
  rw [List.filterMap_append]
  exact congrArg _ (trace_singleton ..)

/-- What has to be shown for one operation. -/
theorem Orderly.snoc (ho : Orderly size h t) {e : ι × Op α}
    (hfits : t'.waiting.length + t'.held + census Client.isAdmitted t'.clients ≤ size)
    (hordered : t.waiting ++ puts (see (t, e)).toList
      = (served (t, e)).toList.map Prod.snd ++ t'.waiting)
    (hown : ∀ c, (t.clients c).due.toList ++ portion c (served (t, e)).toList
      = receipts c (see (t, e)).toList ++ (t'.clients c).due.toList) :
    Orderly size (h ++ [(t, e)]) t' where
  fits := hfits
  ordered := by
    rw [trace_append, trace_singleton, puts_append, ho.ordered, List.append_assoc, hordered,
      served_snoc, List.map_append, List.append_assoc]
  own c := by
    rw [trace_append, trace_singleton, receipts_append, List.append_assoc, ← hown, served_snoc,
      portion_append, ho.own, List.append_assoc]

/-- A client moves without an item being put, served or received. -/
theorem Orderly.quiet (ho : Orderly size h t) {c : ι} {a : Op α} {x : Client α}
    (hfits : t.waiting.length + t.held + census Client.isAdmitted t.clients
      + x.isAdmitted.toNat ≤ size + (t.clients c).isAdmitted.toNat)
    (hputs : puts (see (t, c, a)).toList = []) (hserved : served (t, c, a) = none)
    (hreceipts : ∀ d, receipts d (see (t, c, a)).toList = [])
    (hold : (t.clients c).due = none) (hnew : x.due = none) :
    Orderly size (h ++ [(t, c, a)]) (t.move c x) := by
  refine ho.snoc ?_ ?_ fun d => ?_
  · have hcensus := census_update Client.isAdmitted t.clients c x
    simp only [move_waiting, move_held, move_clients]
    omega
  · simp [hputs, hserved]
  · rw [hserved, hreceipts]
    by_cases hd : d = c
    · subst hd; simp [portion, hold, hnew]
    · simp [portion, hd]

theorem Orderly.step (ho : Orderly size h t) {e : ι × Op α} (hs : step size t e = some t') :
    Orderly size (h ++ [(t, e)]) t' := by
  obtain ⟨c, a⟩ := e
  have hcensus := fun x => census_update Client.isAdmitted t.clients c x
  have hfits := ho.fits
  unfold Buffer.step at hs
  dsimp only at hs
  split at hs
  case h_1 hpc | h_4 hpc | h_5 hpc | h_7 hpc | h_10 hpc | h_11 hpc =>
    obtain rfl := Option.some.inj hs
    exact ho.quiet (by simp [hpc, Client.isAdmitted]; omega) rfl rfl (fun _ => rfl)
      (by simp [hpc, Client.due]) rfl
  case h_2 hpc =>
    -- the room was there
    obtain ⟨hroom, rfl⟩ : _ ∧ t.move c .admitted = t' := by simpa using hs
    exact ho.quiet (by simp [hpc, Client.isAdmitted]; omega) rfl rfl (fun _ => rfl)
      (by simp [hpc, Client.due]) rfl
  case h_3 hpc =>
    obtain ⟨-, rfl⟩ : _ ∧ t.move c .turnedAway = t' := by simpa using hs
    exact ho.quiet (by simp [hpc, Client.isAdmitted]; omega) rfl rfl (fun _ => rfl)
      (by simp [hpc, Client.due]) rfl
  case h_9 hpc =>
    obtain ⟨-, rfl⟩ : _ ∧ t.move c .unserved = t' := by simpa using hs
    exact ho.quiet (by simp [hpc, Client.isAdmitted]; omega) rfl rfl (fun _ => rfl)
      (by simp [hpc, Client.due]) rfl
  case h_6 x hpc =>
    -- the room it was admitted for is taken by the item
    obtain rfl := Option.some.inj hs
    have hc := hcensus .idle
    simp only [hpc, Client.isAdmitted, Bool.toNat_true, Bool.toNat_false] at hc
    refine ho.snoc ?_ rfl fun d => ?_
    · simp only [move_waiting, move_held, move_clients, List.length_append, List.length_singleton]
      omega
    · by_cases hd : d = c
      · subst hd; simp [served, portion, see, receipts, hpc, Client.due]
      · simp [served, portion, see, receipts, hd]
  case h_8 hpc =>
    -- the oldest item goes from those that wait to those that are held
    obtain ⟨x, hx, rfl⟩ := Option.map_eq_some_iff.mp hs
    obtain ⟨rest, hwaiting⟩ := List.head?_eq_some_iff.mp hx
    have hc := hcensus (.owed x)
    simp only [hpc, Client.isAdmitted, Bool.toNat_false] at hc
    refine ho.snoc ?_ ?_ fun d => ?_
    · simp only [move_waiting, move_held, move_clients, hwaiting, List.tail_cons]
      rw [hwaiting, List.length_cons] at hfits
      omega
    · simp [served, hwaiting, puts, see]
    · by_cases hd : d = c
      · subst hd; simp [served, hwaiting, portion, see, receipts, hpc, Client.due]
      · simp [served, hwaiting, portion, see, receipts, hd, Ne.symm hd]
  case h_12 x hpc =>
    obtain rfl := Option.some.inj hs
    have hc := hcensus (.holding x)
    simp only [hpc, Client.isAdmitted, Bool.toNat_false] at hc
    refine ho.snoc ?_ ?_ fun d => ?_
    · simp only [move_waiting, move_held, move_clients]
      omega
    · simp [served, see, hpc, puts]
    · by_cases hd : d = c
      · subst hd; simp [served, portion, see, receipts, hpc, Client.due]
      · simp [served, portion, see, receipts, hpc, hd, Ne.symm hd]
  case h_13 hpc =>
    obtain rfl := Option.some.inj hs
    have hc := hcensus .idle
    simp only [hpc, Client.isAdmitted, Bool.toNat_false] at hc
    refine ho.snoc ?_ ?_ fun d => ?_
    · simp only [move_waiting, move_held, move_clients]
      omega
    · simp [served, see, puts]
    · by_cases hd : d = c
      · subst hd; simp [served, portion, see, receipts, hpc, Client.due]
      · simp [served, portion, see, receipts, hd]
  case h_14 => cases hs

theorem orderly_of_run (hr : Run (system size ι α) h t) : Orderly size h t := by
  refine hr.ledger (Orderly size) (fun t h0 => ?_) (fun _ _ _ _ ho hs => ho.step hs)
  obtain ⟨hwaiting, hheld, hidle⟩ := h0
  have hnone : census Client.isAdmitted t.clients = 0 :=
    census_eq_zero.mpr fun c => by rw [hidle]; rfl
  exact ⟨by simp [hwaiting, hheld, hnone], by simp [puts, hwaiting],
    fun c => by simp [portion, receipts, hidle, Client.due]⟩

end Promise

end Buffer

end Infra
