import SandboxIpc.Shm.Queue.Exclusive

/-!
# First in, first out

What the history of a run says about the items: which push guard left which contents, which pop call
was handed which item.

* `Ledger` — the invariant that ties the history to the slots
* `fifo` — nothing is lost, duplicated or reordered in an uncrowded run
* `lost_or_overtaken` — a crowd of producers can overwrite an item that was published, and two
  `try_pop` calls that overlap may return in either order
-/

namespace SandboxIpc.Queue

open Infra

variable {p : PointerWidth} {ι α : Type}

/-- One step of a run: the state it started from, the caller and the action. -/
abbrev Entry (p : PointerWidth) (ι α : Type) := State p ι α × ι × Act α

/-! ## What an entry of the history is -/

section Entries

variable (j : Usize p) (e : Entry p ι α)

/-- `drop` is called on the push guard with index `j`. -/
def DropsPush : Prop := e.1.callers e.2.1 = .pushGuard j ∧ ∃ panicking, e.2.2 = .drop panicking

/-- The drop of the push guard with index `j` finishes: its compare-exchange succeeds. -/
def PublishesPush : Prop :=
  e.1.callers e.2.1 = .pushDropping j ∧ e.2.2 = .publish false ∧
    e.1.control.lastSentIndex = j - 1

/-- A `try_pop` call returns the pop guard with index `j`. -/
def HandsOut : Prop := e.1.callers e.2.1 = .popReady j ∧ e.2.2 = .load

/-- A `try_push` call begins and claims index `j`. -/
def BeginsPush : Prop :=
  e.1.callers e.2.1 = .idle ∧ e.2.2 = .tryPush ∧ e.1.control.nextSendIndex = j

/-- A `try_pop` call begins and claims index `j`. -/
def BeginsPop : Prop :=
  e.1.callers e.2.1 = .idle ∧ e.2.2 = .tryPop ∧ e.1.control.nextRecvIndex = j

end Entries

/-- The index of a push guard whose drop has begun. -/
def Caller.dropping : Caller p → Option (Usize p)
  | .pushDropping i => some i
  | _ => none

/-- The index of a pop guard that has been returned. -/
def Caller.handed : Caller p → Option (Usize p)
  | .popGuard i _ | .popDropping i => some i
  | _ => none

theorem sendGrant_of_dropping {x : Caller p} {i : Usize p} (h : x.dropping = some i) :
    x.sendGrant = some i.toNat := by
  cases x <;> simp_all [Caller.dropping, Caller.sendGrant]

theorem recvGrant_of_handed {x : Caller p} {i : Usize p} (h : x.handed = some i) :
    x.recvGrant = some i.toNat := by
  cases x <;> simp_all [Caller.handed, Caller.recvGrant]

/-! ## The ledger -/

/-- The push guard with index `j` has been dropped: its item is published or about to be. -/
def State.Left (s : State p ι α) (j : Usize p) : Prop :=
  j.toNat < s.sent ∨ ∃ c, (s.callers c).dropping = some j

/-- The pop guard with index `j` has been returned. -/
def State.Taken (s : State p ι α) (j : Usize p) : Prop :=
  j.toNat < s.recvd ∨ ∃ c, (s.callers c).handed = some j

/-- What the history `h` says about the state `s` it ends in. -/
structure Ledger (n : ItemCount p) (h : List (Entry p ι α)) (s : State p ι α) : Prop where
  left : ∀ j, s.Left j ↔ ∃ e ∈ h, DropsPush j e
  taken : ∀ j, s.Taken j ↔ ∃ e ∈ h, HandsOut j e
  published : ∀ {e j}, e ∈ h → PublishesPush j e → j.toNat < s.sent
  /-- Until its item has been received, the slot holds what the push guard left there. -/
  intact : ∀ {e j}, e ∈ h → DropsPush j e → s.recvd ≤ j.toNat →
    s.slots (slot n j) = e.1.slots (slot n j)

theorem ledger_fresh {n : ItemCount p} {s : State p ι α} (h : Fresh s) : Ledger n [] s := by
  obtain ⟨hctrl, hidle⟩ := h
  have hsent : s.sent = 0 := by rw [State.sent, hctrl]; exact toNat_usizeMax_add_one
  have hrecvd : s.recvd = 0 := by rw [State.recvd, hctrl]; exact toNat_usizeMax_add_one
  constructor
  · intro j; simp [State.Left, hsent, hidle, Caller.dropping]
  · intro j; simp [State.Taken, hrecvd, hidle, Caller.handed]
  · intro e j he; simp at he
  · intro e j he; simp at he

namespace Ledger

variable {n : ItemCount p} {h : List (Entry p ι α)} {s s' : State p ι α} {c : ι} {a : Act α}

/-- What a step has to respect for the ledger to stay right. -/
theorem step (hl : Ledger n h s)
    (hleft : ∀ j, s'.Left j ↔ s.Left j ∨ DropsPush j (s, c, a))
    (htaken : ∀ j, s'.Taken j ↔ s.Taken j ∨ HandsOut j (s, c, a))
    (hsent : s.sent ≤ s'.sent) (hpub : ∀ j, PublishesPush j (s, c, a) → j.toNat < s'.sent)
    (hrecvd : s.recvd ≤ s'.recvd)
    (hslots : ∀ j, s'.Left j → s'.recvd ≤ j.toNat →
      s'.slots (slot n j) = s.slots (slot n j)) :
    Ledger n (h ++ [(s, c, a)]) s' where
  left j := by rw [hleft, hl.left, exists_mem_snoc]
  taken j := by rw [htaken, hl.taken, exists_mem_snoc]
  published {x j} hx hd := by
    rcases List.mem_append.mp hx with hx | hx
    · exact Nat.lt_of_lt_of_le (hl.published hx hd) hsent
    · obtain rfl := List.mem_singleton.mp hx
      exact hpub j hd
  intact {x j} hx hd hle := by
    rcases List.mem_append.mp hx with hx | hx
    · rw [hslots j ((hleft j).mpr (.inl ((hl.left j).mpr ⟨x, hx, hd⟩))) hle]
      exact hl.intact hx hd (Nat.le_trans hrecvd hle)
    · obtain rfl := List.mem_singleton.mp hx
      exact hslots j ((hleft j).mpr (.inr hd)) hle

/-- A step that neither publishes, drops, hands out nor writes only adds an entry. -/
theorem quiet (hl : Ledger n h s) (hsent : s'.sent = s.sent) (hrecvd : s'.recvd = s.recvd)
    (hslots : s'.slots = s.slots)
    (hdropping : ∀ d, (s'.callers d).dropping = (s.callers d).dropping)
    (hhanded : ∀ d, (s'.callers d).handed = (s.callers d).handed)
    (he : ∀ j, ¬ DropsPush j (s, c, a) ∧ ¬ PublishesPush j (s, c, a) ∧ ¬ HandsOut j (s, c, a)) :
    Ledger n (h ++ [(s, c, a)]) s' := by
  refine hl.step (fun j => ?_) (fun j => ?_) (by omega) (fun j hp => absurd hp (he j).2.1)
    (by omega) (fun j _ _ => by rw [hslots])
  · simp only [State.Left, hsent, hdropping, (he j).1, or_false]
  · simp only [State.Taken, hrecvd, hhanded, (he j).2.2, or_false]

/-- The owner of a push guard writes to its slot, which holds no item left by anybody. -/
theorem write (hl : Ledger n h s) (hi : Inv n s) {i : Usize p} {v : α}
    (hpc : s.callers c = .pushGuard i) :
    Ledger n (h ++ [(s, c, .write v)])
      { s with slots := Function.update s.slots (slot n i) v } := by
  have hgrant : (s.callers c).sendGrant = some i.toNat := by simp [hpc, Caller.sendGrant]
  have hb := hi.sendGrant_bounds hgrant
  have hcap := hi.sent_le
  have hle := hi.recvd_le_sent
  refine hl.step (fun j => ?_) (fun j => ?_) (Nat.le_refl _) (fun j hp => ?_) (Nat.le_refl _) ?_
  · simp [State.Left, State.sent, DropsPush]
  · simp [State.Taken, State.recvd, HandsOut]
  · simp [PublishesPush] at hp
  · intro j hleft hj
    refine Function.update_of_ne (fun hslot => ?_) _ _
    rcases hleft with hsent | ⟨d, hd⟩
    · have hsent' : j.toNat < s.sent := hsent
      have heq : j = i := Inv.eq_of_slot_eq (s := s) ⟨hj, by omega⟩ (by omega) hslot
      rw [heq] at hsent'
      omega
    · have hd' : (s.callers d).dropping = some j := hd
      have hjb := hi.sendGrant_bounds (sendGrant_of_dropping hd')
      have heq : j = i := Inv.eq_of_slot_eq (s := s) ⟨hj, hjb.2⟩ (by omega) hslot
      rw [heq] at hd'
      have hdc := hi.sends.inj (sendTicket_of_sendGrant (sendGrant_of_dropping hd'))
        (sendTicket_of_sendGrant hgrant)
      rw [hdc, hpc] at hd'
      simp [Caller.dropping] at hd'

variable [DecidableEq ι]

section Classes

variable {f : Caller p → Option (Usize p)} {g : ι → Caller p} {x : Caller p} {i j : Usize p}

/-- A caller enters a class. -/
theorem exists_update_enter (hc : f (g c) = none) :
    (∃ d, f (Function.update g c x d) = some j) ↔ (∃ d, f (g d) = some j) ∨ f x = some j := by
  constructor
  · rintro ⟨d, hd⟩
    by_cases hdc : d = c
    · subst hdc
      exact .inr (by simpa using hd)
    · exact .inl ⟨d, by rwa [Function.update_of_ne hdc] at hd⟩
  · rintro (⟨d, hd⟩ | hx)
    · have hdc : d ≠ c := by rintro rfl; rw [hc] at hd; simp at hd
      exact ⟨d, by rwa [Function.update_of_ne hdc]⟩
    · exact ⟨c, by rwa [Function.update_self]⟩

/-- The caller with index `i` leaves a class, and the counter that stood at `i` moves past it. -/
theorem exists_update_leave {m m' : Nat} (hc : f (g c) = some i) (hx : f x = none)
    (hm : m = i.toNat) (hm' : m' = i.toNat + 1) :
    (j.toNat < m' ∨ ∃ d, f (Function.update g c x d) = some j)
      ↔ (j.toNat < m ∨ ∃ d, f (g d) = some j) := by
  constructor
  · rintro (hj | ⟨d, hd⟩)
    · -- the index the counter has just passed is the one the caller held
      by_cases hji : j.toNat = i.toNat
      · exact .inr ⟨c, by rw [hc, BitVec.eq_of_toNat_eq hji]⟩
      · exact .inl (by omega)
    · have hdc : d ≠ c := by rintro rfl; simp [hx] at hd
      exact .inr ⟨d, by rwa [Function.update_of_ne hdc] at hd⟩
  · rintro (hj | ⟨d, hd⟩)
    · exact .inl (by omega)
    · by_cases hdc : d = c
      · subst hdc
        obtain rfl : i = j := by simpa [hc] using hd
        exact .inl (by omega)
      · exact .inr ⟨d, by rwa [Function.update_of_ne hdc]⟩

end Classes

theorem dropPush (hl : Ledger n h s) {i : Usize p} {b : Bool} (hpc : s.callers c = .pushGuard i) :
    Ledger n (h ++ [(s, c, .drop b)])
      ({ s with control.poison := s.control.poison || b }.setCaller c (.pushDropping i)) := by
  refine hl.step (fun j => ?_) (fun j => ?_) (Nat.le_refl _) (fun j hp => ?_) (Nat.le_refl _)
    (fun _ _ _ => rfl)
  · simp only [State.Left, setCaller_callers]
    rw [exists_update_enter (by simp [hpc, Caller.dropping]), ← or_assoc]
    simp [State.sent, DropsPush, hpc, Caller.dropping]
  · simp only [State.Taken, setCaller_callers]
    rw [exists_update_enter (by simp [hpc, Caller.handed])]
    simp [State.recvd, HandsOut, hpc, Caller.handed]
  · simp [PublishesPush] at hp

theorem publishSend (hl : Ledger n h s) (hi : Inv n s) {i : Usize p}
    (hpc : s.callers c = .pushDropping i) (hlast : s.control.lastSentIndex = i - 1) :
    Ledger n (h ++ [(s, c, .publish false)])
      ({ s with control.lastSentIndex := i }.setCaller c .idle) := by
  obtain ⟨hsent, hsucc⟩ := hi.sent_publish hpc hlast
  refine hl.step (fun j => ?_) (fun j => ?_) ?_ (fun j hp => ?_) (Nat.le_refl _)
    (fun _ _ _ => rfl)
  · rw [show DropsPush j (s, c, Act.publish false) ↔ False by simp [DropsPush], or_false]
    exact exists_update_leave (by simp [hpc, Caller.dropping]) rfl hsent hsucc
  · simp only [State.Taken, setCaller_callers]
    rw [exists_update_enter (by simp [hpc, Caller.handed])]
    simp [State.recvd, HandsOut, Caller.handed]
  · show s.sent ≤ (i + 1).toNat
    omega
  · obtain rfl : i = j := by simpa [PublishesPush, hpc] using hp.1
    show i.toNat < (i + 1).toNat
    omega

theorem handOut (hl : Ledger n h s) {i : Usize p} (hpc : s.callers c = .popReady i) :
    Ledger n (h ++ [(s, c, .load)]) (s.setCaller c (.popGuard i s.control.poison)) := by
  refine hl.step (fun j => ?_) (fun j => ?_) (Nat.le_refl _) (fun j hp => ?_) (Nat.le_refl _)
    (fun _ _ _ => rfl)
  · simp only [State.Left, setCaller_callers]
    rw [exists_update_enter (by simp [hpc, Caller.dropping])]
    simp [State.sent, DropsPush, Caller.dropping]
  · simp only [State.Taken, setCaller_callers]
    rw [exists_update_enter (by simp [hpc, Caller.handed]), ← or_assoc]
    simp [State.recvd, HandsOut, hpc, Caller.handed]
  · simp [PublishesPush] at hp

theorem publishRecv (hl : Ledger n h s) (hi : Inv n s) {i : Usize p}
    (hpc : s.callers c = .popDropping i) (hlast : s.control.lastRecvdIndex = i - 1) :
    Ledger n (h ++ [(s, c, .publish false)])
      ({ s with control.lastRecvdIndex := i }.setCaller c .idle) := by
  obtain ⟨hrecvd, hsucc⟩ := hi.recvd_publish hpc hlast
  refine hl.step (fun j => ?_) (fun j => ?_) (Nat.le_refl _) (fun j hp => ?_) ?_
    (fun _ _ _ => rfl)
  · simp only [State.Left, setCaller_callers]
    rw [exists_update_enter (by simp [hpc, Caller.dropping])]
    simp [State.sent, DropsPush, Caller.dropping]
  · rw [show HandsOut j (s, c, Act.publish false) ↔ False by simp [HandsOut], or_false]
    exact exists_update_leave (by simp [hpc, Caller.handed]) rfl hrecvd hsucc
  · simp [PublishesPush, hpc] at hp
  · show s.recvd ≤ (i + 1).toNat
    omega

/-- The classes of the other callers are not affected when `c` moves between states outside. -/
theorem update_class {κ : Type} {f : Caller p → κ} {g : ι → Caller p} {x : Caller p}
    (h : f x = f (g c)) (d : ι) : f (Function.update g c x d) = f (g d) := by
  by_cases hdc : d = c
  · subst hdc; simpa using h
  · rw [Function.update_of_ne hdc]

theorem move (hl : Ledger n h s) (hi : Inv n s) (hm : Move n s c a s') :
    Ledger n (h ++ [(s, c, a)]) s' := by
  cases hm with
  | write hpc => exact hl.write hi hpc
  | dropPush hpc => exact hl.dropPush hpc
  | publishSend hpc hlast => exact hl.publishSend hi hpc hlast
  | handOut hpc => exact hl.handOut hpc
  | publishRecv hpc hlast => exact hl.publishRecv hi hpc hlast
  | spinPush hpc hno =>
    refine hl.quiet rfl rfl rfl (fun _ => rfl) (fun _ => rfl) (fun j => ?_)
    -- only a failed exchange spins, and that publishes nothing
    refine ⟨by simp [DropsPush], ?_, by simp [HandsOut]⟩
    rintro ⟨hj, hfails, hlast⟩
    obtain rfl := by simpa [hpc] using hj
    exact hno ⟨by simpa using hfails, hlast⟩
  | spinPop hpc =>
    exact hl.quiet rfl rfl rfl (fun _ => rfl) (fun _ => rfl)
      (fun j => by simp [DropsPush, PublishesPush, HandsOut, hpc])
  | claimSend hpc | wrapSend hpc | grantPush hpc | refusePush hpc | handBackSend hpc
  | retryPush hpc | claimRecv hpc | wrapRecv hpc | grantPop hpc | refusePop hpc
  | handBackRecv hpc | retryPop hpc | dropPop hpc =>
    exact hl.quiet rfl rfl rfl (update_class (by simp [hpc, Caller.dropping]))
      (update_class (by simp [hpc, Caller.handed]))
      (fun j => by simp [DropsPush, PublishesPush, HandsOut, hpc])

end Ledger

/-! ## First in, first out -/

/-- A published item nobody was handed yet is still in its slot. -/
def ItemsIntact (n : ItemCount p) (h : List (Entry p ι α)) (s : State p ι α) : Prop :=
  ∀ j e, (∃ e' ∈ h, PublishesPush j e') → (∀ e' ∈ h, ¬ HandsOut j e') → e ∈ h → DropsPush j e →
    s.slots (slot n j) = e.1.slots (slot n j)

/-- The items of a run come out as they went in. -/
structure Fifo (n : ItemCount p) (h : List (Entry p ι α)) (s : State p ι α) : Prop where
  /-- The slot of a live pop guard holds what the push guard with its index left when dropped. -/
  reads : ∀ {c j poisoned}, s.callers c = .popGuard j poisoned →
    (∃ e ∈ h, DropsPush j e) ∧
      ∀ e ∈ h, DropsPush j e → s.slots (slot n j) = e.1.slots (slot n j)
  /-- No item is handed out twice. -/
  once : ∀ {h₁ e h₂ j}, h = h₁ ++ e :: h₂ → HandsOut j e → ∀ e' ∈ h₂, ¬ HandsOut j e'
  intact : ItemsIntact n h s
  /-- A push that begins after another finished has the larger index. -/
  indexOrder : ∀ {h₁ e h₂ e' x y}, h = h₁ ++ e :: h₂ → PublishesPush x e → e' ∈ h₂ →
    BeginsPush y e' → x.toNat < y.toNat
  /-- No pop that begins after an item was handed out is handed a smaller index. -/
  deliveryOrder : ∀ {h₁ e h₂ e' x y}, h = h₁ ++ e :: h₂ → HandsOut y e → e' ∈ h₂ →
    BeginsPop x e' → y.toNat < x.toNat

section Runs

variable [Fintype ι] [DecidableEq ι] {n : ItemCount p} {h : List (Entry p ι α)} {s : State p ι α}

theorem ledger_of_run (hr : Run (system n ι α) h s) (hcalm : ∀ e ∈ h, Calm n e) :
    Ledger n h s :=
  hr.history (Calm n) (Ledger n) (fun _ h0 => ledger_fresh h0)
    (fun _ _ _ _ hr hcalm hl _ hs => hl.move (inv_of_run hr hcalm) (move_of_step hs)) hcalm

/-- What is known at an entry `e'` that comes after the entry `e`. -/
theorem ledger_at {h₁ h₂ : List (Entry p ι α)} {e e' : Entry p ι α}
    (hr : Run (system n ι α) (h₁ ++ e :: h₂) s) (hcalm : ∀ x ∈ h₁ ++ e :: h₂, Calm n x)
    (he' : e' ∈ h₂) : ∃ g, e ∈ g ∧ Ledger n g e'.1 ∧ Inv n e'.1 := by
  obtain ⟨a, b, rfl⟩ := List.append_of_mem he'
  rw [← List.cons_append, ← List.append_assoc] at hr hcalm
  have hpre : ∀ x ∈ h₁ ++ e :: a, Calm n x := fun x hx => hcalm x (List.mem_append_left _ hx)
  exact ⟨h₁ ++ e :: a, by simp, ledger_of_run hr.split.1 hpre, inv_of_run hr.split.1 hpre⟩

/--
First in, first out, with no loss and no duplication.

The run claims no index `usize::MAX` and is never crowded.
-/
theorem fifo (hr : Run (system n ι α) h s) (hcalm : ∀ e ∈ h, Calm n e) : Fifo n h s where
  reads {c j poisoned} hc := by
    have hl := ledger_of_run hr hcalm
    have hb := (inv_of_run hr hcalm).recvGrant_bounds (c := c) (i := j.toNat)
      (by simp [hc, Caller.recvGrant])
    exact ⟨(hl.left j).mp (.inl hb.2), fun e he hd => hl.intact he hd hb.1⟩
  once {h₁ e h₂ j} heq hout e' he' hout' := by
    subst heq
    obtain ⟨g, he, hl, hi⟩ := ledger_at hr hcalm he'
    have hgrant : (e'.1.callers e'.2.1).recvGrant = some j.toNat := by
      simp [hout'.1, Caller.recvGrant]
    -- handed out once, the index has been received or its guard is still live
    rcases (hl.taken j).mpr ⟨e, he, hout⟩ with hj | ⟨d, hd⟩
    · have := (hi.recvGrant_bounds hgrant).1
      omega
    · have hdc := hi.recvs.inj (recvTicket_of_recvGrant (recvGrant_of_handed hd))
        (recvTicket_of_recvGrant hgrant)
      rw [hdc, hout'.1] at hd
      simp [Caller.handed] at hd
  intact j e hpub hno he hd := by
    have hl := ledger_of_run hr hcalm
    refine hl.intact he hd (Nat.le_of_not_lt fun hlt => ?_)
    obtain ⟨e', he', hout⟩ := (hl.taken j).mp (.inl hlt)
    exact hno e' he' hout
  indexOrder {h₁ e h₂ e' x y} heq hpub he' hbegin := by
    subst heq
    obtain ⟨g, he, hl, hi⟩ := ledger_at hr hcalm he'
    have hx := hl.published he hpub
    have hle := hi.sends.le
    rw [hbegin.2.2] at hle
    omega
  deliveryOrder {h₁ e h₂ e' x y} heq hout he' hbegin := by
    subst heq
    obtain ⟨g, he, hl, hi⟩ := ledger_at hr hcalm he'
    have hle := hi.recvs.le
    rcases (hl.taken y).mpr ⟨e, he, hout⟩ with hy | ⟨d, hd⟩
    · rw [hbegin.2.2] at hle
      omega
    · have hb := hi.recvs.bounds (recvTicket_of_recvGrant (recvGrant_of_handed hd))
      rw [hbegin.2.2] at hb
      exact hb.2

end Runs

/-- Two items go through the queue: the second is published while the first is being read. -/
theorem fifo_two : ∃ h s, Run (system twoSlots (Fin 3) Bool) h s ∧
    s.callers 2 = .popGuard 0 false ∧ s.slots 0 = true ∧ Fifo twoSlots h s := by
  have hr : Run (system twoSlots (Fin 3) Bool) _ _ :=
    Run.of_replay
      [(0, .tryPush), (0, .load), (1, .tryPush), (0, .write true), (0, .drop false),
        (0, .publish false), (2, .tryPop), (2, .load), (1, .load), (2, .load), (1, .drop false),
        (1, .publish false)]
      (fresh_fresh fun _ => false) rfl
  exact ⟨_, _, hr, by decide, by decide, fifo hr (by decide)⟩

/-! ## What the bound is for, and what the order does not say -/

/-- Where push `x` finished before push `y` began, `x` is handed out before `y`. -/
def HandedInOrder (h : List (Entry p ι α)) : Prop :=
  ∀ h₁ e h₂ e' x y, h = h₁ ++ e :: h₂ → PublishesPush x e → e' ∈ h₂ → BeginsPush y e' →
    ∀ k₁ d k₂, h = k₁ ++ d :: k₂ → HandsOut y d → ∀ d' ∈ k₂, ¬ HandsOut x d'

/-- Items 0 and 1 are published in that order; the pop call with index 1 overtakes the other. -/
def overtaking : List (Fin 4 × Act Unit) :=
  [(0, .tryPush), (0, .load), (0, .drop false), (0, .publish false),
    (1, .tryPush), (1, .load), (1, .drop false), (1, .publish false),
    (2, .tryPop), (3, .tryPop), (3, .load), (3, .load), (2, .load), (2, .load)]

/-- The history of `overtaking` and the state it ends in. -/
def overtakingRun : List (Entry .w64 (Fin 4) Unit) × State .w64 (Fin 4) Unit :=
  ((system twoSlots (Fin 4) Unit).replay (fresh _ _ fun _ => ()) overtaking).getD
    ([], fresh _ _ fun _ => ())

theorem run_overtaking :
    Run (system twoSlots (Fin 4) Unit) overtakingRun.1 overtakingRun.2 :=
  Run.of_replay overtaking (fresh_fresh fun _ => ()) rfl

theorem overtakingRun_not_in_order : ¬ HandedInOrder overtakingRun.1 := by
  intro hord
  refine hord (overtakingRun.1.take 3) _ (overtakingRun.1.drop 4) _ 0 1 rfl ?_ (.head _) ?_
    (overtakingRun.1.take 11) _ (overtakingRun.1.drop 12) rfl ?_ _ (.tail _ (.head _)) ?_
  · exact ⟨by decide, by decide, by decide⟩
  · exact ⟨by decide, by decide, by decide⟩
  · exact ⟨by decide, by decide⟩
  · exact ⟨by decide, by decide⟩

/-- The crowd, after the first has dropped its guard, and after it has published its item. -/
def crowdDropped : State .w32 Crowd Bool :=
  { crowdGranted fun _ => false with
    control.poison := (crowdGranted fun _ => false).control.poison || false }.setCaller first
    (.pushDropping 0)

def crowdPublished : State .w32 Crowd Bool :=
  { crowdDropped with control.lastSentIndex := 0 }.setCaller first .idle

theorem crowdDropped_first : crowdDropped.callers first = .pushDropping 0 := by
  rw [crowdDropped, setCaller_callers, Function.update_self]

theorem crowdPublished_last :
    crowdPublished.callers last = .pushGuard (BitVec.ofNat _ (2 ^ 31)) := by
  rw [crowdPublished, setCaller_callers, Function.update_of_ne last_ne_first]
  show crowdDropped.callers last = _
  rw [crowdDropped, setCaller_callers, Function.update_of_ne last_ne_first]
  exact crowdGranted_last _

theorem crowd_drop : (system oneSlot Crowd Bool).step (crowdGranted fun _ => false)
    (first, .drop false) = some crowdDropped := by
  rw [show (system oneSlot Crowd Bool).step = step oneSlot from rfl]
  exact step_iff_move.mpr (.dropPush (crowdGranted_first fun _ => false))

theorem crowd_publish : (system oneSlot Crowd Bool).step crowdDropped (first, .publish false)
    = some crowdPublished := by
  rw [show (system oneSlot Crowd Bool).step = step oneSlot from rfl]
  exact step_iff_move.mpr (.publishSend crowdDropped_first rfl)

/-- The first of the crowd publishes `false`; then the last writes to the same slot. -/
theorem crowd_item_lost : ∃ h s, Run (system oneSlot Crowd Bool) h s ∧ (∀ e ∈ h, BelowMax e) ∧
    ¬ ItemsIntact oneSlot h s := by
  obtain ⟨h, hr, hh⟩ := run_crowdGranted fun _ => false
  have hwrite : (system oneSlot Crowd Bool).step _ (last, .write true) = some _ :=
    step_iff_move.mpr (.write crowdPublished_last)
  refine ⟨_, _, ((hr.snoc crowd_drop).snoc crowd_publish).snoc hwrite, fun e he => ?_, fun hintact => ?_⟩
  · simp only [List.mem_append, List.mem_singleton] at he
    rcases he with ((he | rfl) | rfl) | rfl
    · exact (hh e he).1
    all_goals exact trivial
  · have hlost := hintact 0 (crowdGranted fun _ => false, first, .drop false)
      ⟨(crowdDropped, first, .publish false), by simp, crowdDropped_first, rfl, rfl⟩
      (fun e he hout => ?_) (by simp) ⟨crowdGranted_first _, false, rfl⟩
    · -- there is one slot, so the last guard writes over item 0
      have hslot : slot oneSlot (BitVec.ofNat _ (2 ^ 31)) = slot oneSlot 0 := by decide
      rw [hslot] at hlost
      simp [crowdGranted, crowd] at hlost
    · simp only [List.mem_append, List.mem_singleton] at he
      rcases he with ((he | rfl) | rfl) | rfl
      · exact (hh e he).2 _ _ hout.1
      all_goals exact absurd hout.2 (by simp)

/--
Two ways to break the order of the items.

A crowd of producers overwrites an item that was published and not handed out. And even in a calm
run `try_pop` calls that overlap return in either order.
-/
theorem lost_or_overtaken :
    (∃ h s, Run (system oneSlot Crowd Bool) h s ∧ (∀ e ∈ h, BelowMax e) ∧
      ¬ ItemsIntact oneSlot h s) ∧
    ∃ h s, Run (system twoSlots (Fin 4) Unit) h s ∧ (∀ e ∈ h, Calm twoSlots e) ∧
      ¬ HandedInOrder h :=
  ⟨crowd_item_lost, _, _, run_overtaking, by decide, overtakingRun_not_in_order⟩

end SandboxIpc.Queue
