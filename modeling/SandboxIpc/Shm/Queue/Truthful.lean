import SandboxIpc.Shm.Queue.Holes

/-!
# How far full and empty answers can be trusted

A call that fails decides on a load that may be out of date by the time it puts its index back, and
until then other calls see the index as taken. What is true of both kinds of calls is stated once,
for a `Side` of the queue.

* `Truthful` — while the call was in progress, every index the check would have passed for belonged
  to a call that does not fail
* `Sleeps` — the exception: a call that has loaded before, takes no step during the whole of this one,
  and puts its index back afterwards
* `TruthfulAtOnce` — but for that exception it is so as soon as the call has its index
* `answers_truthful` — every failing call of a calm run is truthful in this way
* `false_answers` — the exception is needed, and so is the bound on the calls in progress
-/

namespace SandboxIpc.Queue

open Infra

variable {p : PointerWidth} {ι α : Type}

/-- One of the two sides, `try_push` or `try_pop`. -/
structure Side (p : PointerWidth) (ι α : Type) where
  /-- What a call begins with. -/
  claims : Act α
  /-- In a call, with an index that has not passed the check. -/
  waits : Caller p → Bool
  ticket : Caller p → Option Nat
  /-- The index of a call that is about to put it back. -/
  refused : Caller p → Option Nat
  /-- The check passes for the index. -/
  clear : State p ι α → Nat → Prop
  /-- The index has been published by a guard of this side. -/
  done : State p ι α → Nat → Prop
  /-- The call returns nothing. -/
  fails : Entry p ι α → Prop

def Caller.pushRefused : Caller p → Option Nat
  | .pushFull i => some i.toNat
  | _ => none

def Caller.popRefused : Caller p → Option Nat
  | .popEmpty i => some i.toNat
  | _ => none

/-- There is room for the `item_count` indices above `last_recvd_index`. -/
def pushSide (n : ItemCount p) (ι α : Type) : Side p ι α where
  claims := .tryPush
  waits := Caller.pushing
  ticket := Caller.sendTicket
  refused := Caller.pushRefused
  clear s j := j < s.recvd + n.toNat
  done s j := j < s.sent
  fails := ReturnsFull

/-- There are items at the indices up to `last_sent_index`. -/
def popSide (p : PointerWidth) (ι α : Type) : Side p ι α where
  claims := .tryPop
  waits := Caller.popping
  ticket := Caller.recvTicket
  refused := Caller.popRefused
  clear s j := j < s.sent
  done s j := j < s.recvd
  fails := ReturnsEmpty

namespace Side

variable (side : Side p ι α)

/-- The call `c` is in returns nothing in what is to come. -/
def Fails (c : ι) (future : List (Entry p ι α)) : Prop :=
  ∃ during e after, future = during ++ e :: after ∧ e.2.1 = c ∧ side.fails e ∧
    ∀ x ∈ during, side.waits (x.1.callers c) = true

/-- Caller `c` puts its index back right after a load it made when the check did not pass for `j`
yet. -/
def Stale (past future : List (Entry p ι α)) (c : ι) (j : Nat) : Prop :=
  ∃ earlier l since during e after, past = earlier ++ l :: since ∧ future = during ++ e :: after ∧
    l.2 = (c, .load) ∧ e.2.1 = c ∧ side.fails e ∧ (∀ x ∈ since ++ during, x.2.1 ≠ c) ∧
    ¬ side.clear l.1 j

/-- Caller `c` takes no step during `call`. It has loaded before, when the check did not pass for `j`
yet, and what it does next, after `call`, is to put its index back. -/
def Sleeps (past call after : List (Entry p ι α)) (c : ι) (j : Nat) : Prop :=
  side.Stale past (call ++ after) c j ∧ ∀ x ∈ call, x.2.1 ≠ c

/-- Index `j` has been published, or belongs to a call that does not fail or is excused. -/
def Taken (excused : ι → Prop) (s : State p ι α) (future : List (Entry p ι α)) (j : Nat) : Prop :=
  side.done s j ∨ ∃ c, side.ticket (s.callers c) = some j ∧ (side.Fails c future → excused c)

/-- For every call that returns nothing there is an instant during the call at which all the indices
the check passes for are taken. -/
def Truthful (excused : List (Entry p ι α) → List (Entry p ι α) → ι → Nat → Prop)
    (h : List (Entry p ι α)) : Prop :=
  ∀ before e after, h = before ++ e :: after → side.fails e →
    ∃ past now during, before ++ [e] = past ++ now :: during ∧
      (∀ x ∈ now :: during, side.waits (x.1.callers e.2.1) = true) ∧
      ∀ j, side.clear now.1 j →
        side.Taken (excused past (now :: during ++ after) · j) now.1 (now :: during ++ after) j

/-- For every call that returns nothing, all the indices the check passes for are taken as soon as the
call has its own. `start` is the `fetch_add` of the call, and `now.1` the state it leads to. -/
def TruthfulAtOnce (h : List (Entry p ι α)) : Prop :=
  ∀ before e after, h = before ++ e :: after → side.fails e →
    ∃ past start now during, before ++ [e] = past ++ start :: now :: during ∧
      start.2 = (e.2.1, side.claims) ∧
      (∀ x ∈ now :: during, side.waits (x.1.callers e.2.1) = true) ∧
      ∀ j, side.clear now.1 j →
        side.Taken (side.Sleeps past (start :: now :: during) after · j) now.1
          (now :: during ++ after) j

/-- What both sides have in common. -/
structure Sound [DecidableEq ι] [Fintype ι] (n : ItemCount p) : Prop where
  claims_ne : side.claims ≠ .load
  waits_idle : side.waits .idle = false
  refused_idle : side.refused .idle = none
  refused_of_fails : ∀ {e : Entry p ι α}, side.fails e →
    ∃ i, side.refused (e.1.callers e.2.1) = some i
  waits_of_refused : ∀ {x : Caller p} {i : Nat}, side.refused x = some i →
    side.waits x = true ∧ side.ticket x = some i
  /-- Only a load that finds the index beyond the check makes a call put it back. -/
  refuses : ∀ {s s' : State p ι α} {c : ι} {a : Act α} {i : Nat}, Inv n s → Uncrowded n s →
    Move n s c a s' → side.refused (s'.callers c) = some i →
    a = .load ∧ side.waits (s.callers c) = true ∧ side.ticket (s.callers c) = some i ∧
      ¬ side.clear s i
  claims_of_idle : ∀ {s s' : State p ι α} {c : ι}, Move n s c side.claims s' →
    side.waits (s.callers c) = false
  /-- A call that is waiting has just begun, or was waiting before with the same index. -/
  stays : ∀ {s s' : State p ι α} {c : ι} {a : Act α}, Move n s c a s' →
    side.waits (s'.callers c) = true →
    a = side.claims ∨
      side.waits (s.callers c) = true ∧ side.ticket (s'.callers c) = side.ticket (s.callers c)
  mono : ∀ {s s' : State p ι α} {c : ι} {a : Act α} {j : Nat}, Inv n s → Move n s c a s' →
    side.clear s j → side.clear s' j
  below : ∀ {s : State p ι α} {c : ι} {i j : Nat}, Inv n s → side.ticket (s.callers c) = some i →
    j < i → side.done s j ∨ ∃ d, side.ticket (s.callers d) = some j
  clear_of_le : ∀ {s : State p ι α} {i j : Nat}, i ≤ j → side.clear s j → side.clear s i
  /-- Only the index drawn last can be put back. -/
  newest : ∀ {e : Entry p ι α} {c : ι} {i j : Nat}, Inv n e.1 → side.fails e →
    side.ticket (e.1.callers e.2.1) = some i → side.ticket (e.1.callers c) = some j → j ≤ i

end Side

section Sides

variable [DecidableEq ι] [Fintype ι]

theorem pushSide_sound (n : ItemCount p) : (pushSide n ι α).Sound n where
  claims_ne := nofun
  waits_idle := rfl
  refused_idle := rfl
  refused_of_fails := by
    rintro e ⟨i, hpc, -⟩
    exact ⟨i.toNat, by rw [hpc]; rfl⟩
  waits_of_refused {x i} h := by
    cases x with
    | pushFull j => exact ⟨rfl, h⟩
    | _ => cases h
  refuses {s s' c a i} hi hu hm h := by
    cases hm with
    | @refusePush j hpc hclear =>
      rw [setCaller_callers, Function.update_self] at h
      obtain rfl := Option.some.inj h
      rw [hpc]
      refine ⟨rfl, rfl, rfl, fun hlt => ?_⟩
      rw [(hi.sendClear_iff hu hpc).mpr hlt] at hclear
      cases hclear
    | write hpc | spinPush hpc | spinPop hpc =>
      simp only [hpc] at h
      cases h
    | _ =>
      rw [setCaller_callers, Function.update_self] at h
      cases h
  claims_of_idle {s s' c} hm := by
    cases hm with
    | claimSend hpc | wrapSend hpc =>
      rw [hpc]
      rfl
  stays {s s' c a} hm hw := by
    cases hm with
    | claimSend => exact .inl rfl
    | refusePush hpc | retryPush hpc =>
      rw [setCaller_callers, Function.update_self, hpc]
      exact .inr ⟨rfl, rfl⟩
    | write | spinPush | spinPop => exact .inr ⟨hw, rfl⟩
    | _ =>
      rw [setCaller_callers, Function.update_self] at hw
      cases hw
  mono {s s' c a j} hi hm h := by
    have hle := (sent_move hi hm).2
    show j < s'.recvd + n.toNat
    have h : j < s.recvd + n.toNat := h
    omega
  below {s c i j} hi ht hlt := by
    have hb := hi.sends.bounds ht
    by_cases hj : j < s.sent
    · exact .inl hj
    · exact .inr (hi.sends.cover (Nat.le_of_not_lt hj) (by omega))
  clear_of_le hle h := Nat.lt_of_le_of_lt hle h
  newest {e c i j} hi hfail ht hj := by
    obtain ⟨k, hpc, -, hnext⟩ := hfail
    have hk : (e.1.callers e.2.1).sendTicket = some k.toNat := by rw [hpc]; rfl
    obtain rfl := Option.some.inj (ht.symm.trans hk)
    have hsucc := toNat_index_succ (hi.sends.bounds hk).2
    have hlt := (hi.sends.bounds hj).2
    rw [hnext, hsucc] at hlt
    exact Nat.le_of_lt_succ hlt

theorem popSide_sound (n : ItemCount p) : (popSide p ι α).Sound n where
  claims_ne := nofun
  waits_idle := rfl
  refused_idle := rfl
  refused_of_fails := by
    rintro e ⟨i, hpc, -⟩
    exact ⟨i.toNat, by rw [hpc]; rfl⟩
  waits_of_refused {x i} h := by
    cases x with
    | popEmpty j => exact ⟨rfl, h⟩
    | _ => cases h
  refuses {s s' c a i} hi hu hm h := by
    cases hm with
    | @refusePop j hpc hclear =>
      rw [setCaller_callers, Function.update_self] at h
      obtain rfl := Option.some.inj h
      rw [hpc]
      refine ⟨rfl, rfl, rfl, fun hlt => ?_⟩
      rw [(hi.recvClear_iff hu hpc).mpr hlt] at hclear
      cases hclear
    | write hpc | spinPush hpc | spinPop hpc =>
      simp only [hpc] at h
      cases h
    | _ =>
      rw [setCaller_callers, Function.update_self] at h
      cases h
  claims_of_idle {s s' c} hm := by
    cases hm with
    | claimRecv hpc | wrapRecv hpc =>
      rw [hpc]
      rfl
  stays {s s' c a} hm hw := by
    cases hm with
    | claimRecv => exact .inl rfl
    | refusePop hpc | retryPop hpc =>
      rw [setCaller_callers, Function.update_self, hpc]
      exact .inr ⟨rfl, rfl⟩
    | write | spinPush | spinPop => exact .inr ⟨hw, rfl⟩
    | _ =>
      rw [setCaller_callers, Function.update_self] at hw
      cases hw
  mono {s s' c a j} hi hm h := by
    have hle := (sent_move hi hm).1
    show j < s'.sent
    have h : j < s.sent := h
    omega
  below {s c i j} hi ht hlt := by
    have hb := hi.recvs.bounds ht
    by_cases hj : j < s.recvd
    · exact .inl hj
    · exact .inr (hi.recvs.cover (Nat.le_of_not_lt hj) (by omega))
  clear_of_le hle h := Nat.lt_of_le_of_lt hle h
  newest {e c i j} hi hfail ht hj := by
    obtain ⟨k, hpc, -, hnext⟩ := hfail
    have hk : (e.1.callers e.2.1).recvTicket = some k.toNat := by rw [hpc]; rfl
    obtain rfl := Option.some.inj (ht.symm.trans hk)
    have hsucc := toNat_index_succ (hi.recvs.bounds hk).2
    have hlt := (hi.recvs.bounds hj).2
    rw [hnext, hsucc] at hlt
    exact Nat.le_of_lt_succ hlt

end Sides

/-- An entry that the rest of a split does not contain lies before it. -/
theorem split_after {β : Type} {a b past during : List β} {x now : β}
    (h : a ++ x :: b = past ++ now :: during) (hx : x ∉ now :: during) :
    ∃ t, past = a ++ x :: t ∧ b = t ++ now :: during := by
  rcases List.append_eq_append_iff.mp h with ⟨t, rfl, ht⟩ | ⟨t, rfl, ht⟩
  · cases t with
    | nil =>
      rw [List.nil_append] at ht
      rw [← ht] at hx
      exact absurd (List.mem_cons_self ..) hx
    | cons y t =>
      obtain ⟨rfl, rfl⟩ := List.cons.inj ht
      exact ⟨t, rfl, rfl⟩
  · rw [ht] at hx
    exact absurd (List.mem_append_right t (List.mem_cons_self ..)) hx

/-! ## The last step a caller made -/

section Runs

variable [DecidableEq ι] [Fintype ι] {n : ItemCount p} {h : List (Entry p ι α)} {s : State p ι α}

omit [Fintype ι] in
/-- A caller that takes no step stays where it is. -/
theorem callers_unmoved {past between : List (Entry p ι α)} {now : Entry p ι α}
    (hr : Run (system n ι α) (past ++ now :: between) s) {c : ι}
    (hc : ∀ x ∈ now :: between, x.2.1 ≠ c) : s.callers c = now.1.callers c := by
  refine hr.carry (C := fun x => x.2.1 ≠ c) (I := fun u => u.callers c = now.1.callers c) ?_ hc rfl
  rintro u ⟨d, a⟩ u' hu hd hs
  rw [callers_of_move (move_of_step hs) (Ne.symm hd), hu]

omit [Fintype ι] in
/-- A caller that is not idle is where its own last step has put it. -/
theorem last_step (hr : Run (system n ι α) h s) {c : ι} (hc : s.callers c ≠ .idle) :
    ∃ earlier l since s', h = earlier ++ l :: since ∧ l.2.1 = c ∧ Move n l.1 c l.2.2 s' ∧
      s'.callers c = s.callers c ∧ ∀ x ∈ since, x.2.1 ≠ c ∧ x.1.callers c = s.callers c := by
  induction hr with
  | nil hfresh => exact absurd (hfresh.2 c) hc
  | @snoc h s s' e hr hs ih =>
    obtain ⟨d, a⟩ := e
    have hm := move_of_step hs
    by_cases hd : c = d
    · subst hd
      exact ⟨h, (s, c, a), [], s', rfl, rfl, hm, rfl, nofun⟩
    · have hsame := callers_of_move hm hd
      rw [hsame] at hc ⊢
      obtain ⟨earlier, l, since, s₁, rfl, hl, hm₁, hs₁, hsince⟩ := ih hc
      refine ⟨earlier, l, since ++ [(s, d, a)], s₁, by simp, hl, hm₁, hs₁, fun x hx => ?_⟩
      rcases List.mem_append.mp hx with hx | hx
      · exact hsince x hx
      · obtain rfl := List.mem_singleton.mp hx
        exact ⟨fun heq => hd heq.symm, rfl⟩

namespace Side.Sound

variable {side : Side p ι α}

/-- The call that puts index `i` back has loaded last when the check did not pass for `i`. -/
theorem last_load (hside : side.Sound n) (hr : Run (system n ι α) h s) (hcalm : ∀ e ∈ h, Calm n e)
    {c : ι} {i : Nat} (hc : side.refused (s.callers c) = some i) :
    ∃ earlier l since, h = earlier ++ l :: since ∧ l.2 = (c, .load) ∧
      side.waits (l.1.callers c) = true ∧ side.ticket (l.1.callers c) = some i ∧
      ¬ side.clear l.1 i ∧ ∀ x ∈ since, x.2.1 ≠ c ∧ x.1.callers c = s.callers c := by
  have hbusy : s.callers c ≠ .idle := by
    intro hidle
    rw [hidle, hside.refused_idle] at hc
    cases hc
  obtain ⟨earlier, ⟨u, d, a⟩, since, s', rfl, rfl, hm, hs', hsince⟩ := last_step hr hbusy
  have hinv := inv_of_run hr.split.1 fun e he => hcalm e (List.mem_append_left _ he)
  rw [← hs'] at hc
  obtain ⟨rfl, hw, ht, hnot⟩ := hside.refuses hinv (hcalm (u, d, a) (by simp)).2 hm hc
  exact ⟨earlier, _, since, rfl, rfl, hw, ht, hnot, hsince⟩

/-- While it waits, a call keeps its index. -/
theorem keeps_of_move (hside : side.Sound n) {s' : State p ι α} {c d : ι} {a : Act α} {i : Nat}
    (hm : Move n s c a s') (hw : side.waits (s.callers d) = true)
    (ht : side.ticket (s.callers d) = some i) (hw' : side.waits (s'.callers d) = true) :
    side.ticket (s'.callers d) = some i := by
  by_cases hd : d = c
  · subst hd
    rcases hside.stays hm hw' with rfl | ⟨-, hsame⟩
    · rw [hside.claims_of_idle hm] at hw
      cases hw
    · rw [hsame, ht]
  · rwa [callers_of_move hm hd]

/-- A call that is waiting has begun, and has had its index since then. -/
theorem began (hside : side.Sound n) (hr : Run (system n ι α) h s) {c : ι}
    (hc : side.waits (s.callers c) = true) :
    ∃ past start during, h = past ++ start :: during ∧ start.2 = (c, side.claims) ∧
      ∀ x ∈ during, side.waits (x.1.callers c) = true ∧
        side.ticket (x.1.callers c) = side.ticket (s.callers c) := by
  induction hr with
  | nil hfresh =>
    rw [hfresh.2 c, hside.waits_idle] at hc
    cases hc
  | @snoc h s s' e hr hs ih =>
    obtain ⟨d, a⟩ := e
    have hm := move_of_step hs
    have hsnoc : side.waits (s.callers c) = true →
        side.ticket (s.callers c) = side.ticket (s'.callers c) →
        ∃ past start during, h ++ [(s, d, a)] = past ++ start :: during ∧
          start.2 = (c, side.claims) ∧ ∀ x ∈ during, side.waits (x.1.callers c) = true ∧
            side.ticket (x.1.callers c) = side.ticket (s'.callers c) := by
      intro hw hsame
      obtain ⟨past, start, during, rfl, hstart, hduring⟩ := ih hw
      refine ⟨past, start, during ++ [(s, d, a)], by simp, hstart, fun x hx => ?_⟩
      rcases List.mem_append.mp hx with hx | hx
      · rw [← hsame]
        exact hduring x hx
      · obtain rfl := List.mem_singleton.mp hx
        exact ⟨hw, hsame⟩
    by_cases hd : c = d
    · subst hd
      rcases hside.stays hm hc with rfl | ⟨hw, hsame⟩
      · exact ⟨h, _, [], rfl, rfl, nofun⟩
      · exact hsnoc hw hsame.symm
    · have hsame := callers_of_move hm hd
      rw [hsame] at hc
      exact hsnoc hc (by rw [hsame])

/-- What the check has passed for it passes for ever, and a waiting call keeps its index. -/
theorem clear_later (hside : side.Sound n) {past between : List (Entry p ι α)} {now : Entry p ι α}
    (hr : Run (system n ι α) (past ++ now :: between) s)
    (hcalm : ∀ e ∈ past ++ now :: between, Calm n e) {c : ι} {j : Nat}
    (hwaits : ∀ x ∈ now :: between, side.waits (x.1.callers c) = true)
    (ht : side.ticket (now.1.callers c) = some j) (hclear : side.clear now.1 j) :
    side.clear s j ∧ (side.waits (s.callers c) = true → side.ticket (s.callers c) = some j) := by
  have hinv := inv_of_run hr.split.1 fun e he => hcalm e (List.mem_append_left _ he)
  have hcarry := hr.carry (C := fun x => Calm n x ∧ side.waits (x.1.callers c) = true)
    (I := fun u => Inv n u ∧ side.clear u j ∧
      (side.waits (u.callers c) = true → side.ticket (u.callers c) = some j)) ?_
    (fun x hx => ⟨hcalm x (List.mem_append_right _ hx), hwaits x hx⟩) ⟨hinv, hclear, fun _ => ht⟩
  · exact hcarry.2
  · rintro u ⟨d, a⟩ u' ⟨hiu, hcl, htu⟩ ⟨hcalmu, hwu⟩ hs
    have hm := move_of_step hs
    exact ⟨hiu.move hcalmu.2 hcalmu.1 hm, hside.mono hiu hm hcl,
      hside.keeps_of_move hm hwu (htu hwu)⟩

/-- A call that fails although the check passes for its index now is about to put it back, after a
load that came too early. -/
theorem stale_of_fails (hside : side.Sound n) {past rest : List (Entry p ι α)} {now : Entry p ι α}
    (hr : Run (system n ι α) (past ++ now :: rest) s) (hcalm : ∀ e ∈ past ++ now :: rest, Calm n e)
    {c : ι} {j : Nat} (ht : side.ticket (now.1.callers c) = some j) (hclear : side.clear now.1 j)
    (hfails : side.Fails c (now :: rest)) : side.Stale past (now :: rest) c j := by
  obtain ⟨during, e, after, hfuture, rfl, hfail, hwaits⟩ := hfails
  rw [hfuture, ← List.append_assoc] at hr hcalm
  obtain ⟨i, hi⟩ := hside.refused_of_fails hfail
  have hcalm' : ∀ x ∈ past ++ during, Calm n x := fun x hx => hcalm x (List.mem_append_left _ hx)
  obtain ⟨earlier, l, since, hsplit, hl, hlw, hlt, hnot, hsince⟩ :=
    hside.last_load hr.split.1 hcalm' hi
  have hafter : ∀ t, during = t ++ l :: since → False := by
    -- a load after the instant would have found that the check passes
    rintro t rfl
    cases t with
    | nil =>
      obtain ⟨rfl, -⟩ := List.cons.inj hfuture
      obtain rfl := Option.some.inj (ht.symm.trans hlt)
      exact hnot hclear
    | cons x t =>
      obtain ⟨rfl, -⟩ := List.cons.inj hfuture
      have hrun : Run (system n ι α) ((past ++ now :: t) ++ l :: since) e.1 := by
        simpa using hr.split.1
      have hpre : ∀ x ∈ past ++ now :: t, Calm n x := by
        intro x hx
        refine hcalm' x ?_
        simp only [List.mem_append, List.mem_cons] at hx ⊢
        tauto
      have hlater := hside.clear_later hrun.split.1 hpre
        (fun x hx => hwaits x (List.mem_append_left _ hx)) ht hclear
      obtain rfl := Option.some.inj ((hlater.2 hlw).symm.trans hlt)
      exact hnot hlater.1
  rcases List.append_eq_append_iff.mp hsplit with ⟨t, -, hduring⟩ | ⟨t, hpast, hlsince⟩
  · exact (hafter t hduring).elim
  · cases t with
    | nil => exact (hafter [] hlsince.symm).elim
    | cons x t =>
      obtain ⟨rfl, rfl⟩ := List.cons.inj hlsince
      -- since that load nothing has happened to the call
      have hsame : now.1.callers e.2.1 = e.1.callers e.2.1 := by
        cases during with
        | nil =>
          obtain ⟨rfl, -⟩ := List.cons.inj hfuture
          rfl
        | cons x during =>
          obtain ⟨rfl, -⟩ := List.cons.inj hfuture
          exact (hsince now (List.mem_append_right _ (.head _))).2
      rw [hsame, (hside.waits_of_refused hi).2] at ht
      obtain rfl := Option.some.inj ht
      exact ⟨earlier, l, t, during, e, after, hpast, hfuture, hl, rfl, hfail,
        fun x hx => (hsince x hx).1, hnot⟩

/-- A call that fails later on, with a lower index than `call` has all the time, sleeps during `call`. -/
theorem sleeps_of_stale (hside : side.Sound n) {past during after : List (Entry p ι α)}
    {start now e : Entry p ι α}
    (hr : Run (system n ι α) (past ++ start :: now :: during ++ after) s)
    (hcalm : ∀ x ∈ past ++ start :: now :: during ++ after, Calm n x)
    (hstart : start.2 = (e.2.1, side.claims)) {i j : Nat} (hlt : j < i)
    (hticket : ∀ x ∈ now :: during, side.ticket (x.1.callers e.2.1) = some i) {d : ι}
    (hd : side.ticket (now.1.callers d) = some j)
    (hstale : side.Stale (past ++ [start]) (now :: during ++ after) d j) :
    side.Sleeps past (start :: now :: during) after d j := by
  obtain ⟨earlier, l, since, slept, e', later, hpast, hfuture, hl, he', hfail, hnone, hnot⟩ := hstale
  have hne : e.2.1 ≠ d := by
    rintro rfl
    have heq := Option.some.inj ((hticket now (.head _)).symm.trans hd)
    exact absurd heq (Nat.ne_of_gt hlt)
  -- the load of `d` is not the beginning of the call
  obtain ⟨since, rfl, rfl⟩ : ∃ since', since = since' ++ [start] ∧ past = earlier ++ l :: since' := by
    rcases List.eq_nil_or_concat since with rfl | ⟨since', x, rfl⟩
    · obtain ⟨-, hx⟩ := List.append_inj' hpast rfl
      obtain rfl := List.singleton_inj.mp hx
      rw [hl] at hstart
      exact absurd (Prod.ext_iff.mp hstart).2.symm hside.claims_ne
    · rw [List.concat_eq_append, ← List.cons_append, ← List.append_assoc] at hpast
      obtain ⟨rfl, hx⟩ := List.append_inj' hpast rfl
      obtain rfl := List.singleton_inj.mp hx
      exact ⟨since', List.concat_eq_append, rfl⟩
  -- `d` cannot put its index back as long as the call has a higher one
  have hout : e' ∉ now :: during := by
    intro hmem
    have hmem' : e' ∈ earlier ++ l :: since ++ start :: now :: during ++ after := by
      simp only [List.mem_append, List.mem_cons] at hmem ⊢
      tauto
    have hrun : Run (system n ι α)
        ((earlier ++ l :: since ++ [start]) ++ (slept ++ e' :: later)) s := by
      rw [← hfuture]
      simpa using hr
    have hsame : e'.1.callers d = now.1.callers d := by
      cases slept with
      | nil =>
        obtain ⟨rfl, -⟩ := List.cons.inj hfuture
        rfl
      | cons x slept =>
        obtain ⟨rfl, -⟩ := List.cons.inj hfuture
        rw [← List.append_assoc] at hrun
        exact callers_unmoved hrun.split.1 fun x hx => hnone x (List.mem_append_right _ hx)
    obtain ⟨pre, hpre, hsub, -⟩ := hr.of_mem hmem'
    have hinv := inv_of_run hpre fun x hx => hcalm x (hsub x hx)
    have hle := hside.newest hinv hfail (by rw [he', hsame, hd]) (hticket e' hmem)
    omega
  obtain ⟨rest, rfl, -⟩ : ∃ rest, slept = now :: during ++ rest ∧ after = rest ++ e' :: later := by
    rcases List.append_eq_append_iff.mp hfuture with ⟨rest, hslept, hafter⟩ | ⟨rest, hslept, hrest⟩
    · exact ⟨rest, hslept, hafter⟩
    · cases rest with
      | nil => exact ⟨[], by rw [hslept, List.append_nil, List.append_nil], hrest.symm⟩
      | cons x rest =>
        obtain ⟨rfl, -⟩ := List.cons.inj hrest
        rw [hslept] at hout
        exact absurd (List.mem_append_right slept (.head _)) hout
  refine ⟨⟨earlier, l, since, start :: (now :: during ++ rest), e', later, rfl, ?_, hl, he', hfail,
    fun x hx => hnone x ?_, hnot⟩, fun x hx => ?_⟩
  · rw [List.cons_append, hfuture]
    rfl
  · simpa using hx
  · rcases List.mem_cons.mp hx with rfl | hx
    · rw [hstart]
      exact hne
    · exact hnone x (List.mem_append_right _ (List.mem_append_left rest hx))

/-- A call that fails has found everything taken when it began. -/
theorem truthful (hside : side.Sound n) (hr : Run (system n ι α) h s)
    (hcalm : ∀ e ∈ h, Calm n e) : side.TruthfulAtOnce h := by
  rintro before e after rfl hfail
  have hcalm' : ∀ x ∈ before, Calm n x := fun x hx => hcalm x (List.mem_append_left _ hx)
  obtain ⟨i, hi⟩ := hside.refused_of_fails hfail
  obtain ⟨hwe, hte⟩ := hside.waits_of_refused hi
  obtain ⟨past, start, during, rfl, hstart, hduring⟩ := hside.began hr.split.1 hwe
  obtain ⟨earlier, l, since, hsplit, hl, hlw, hlt, hnot, hsince⟩ :=
    hside.last_load hr.split.1 hcalm' hi
  -- the last load of the call comes after its beginning
  obtain ⟨t, rfl, rfl⟩ : ∃ t, earlier = past ++ start :: t ∧ during = t ++ l :: since := by
    refine split_after hsplit fun hmem => ?_
    rcases List.mem_cons.mp hmem with rfl | hmem
    · rw [hl] at hstart
      exact hside.claims_ne (Prod.ext_iff.mp hstart).2.symm
    · exact (hsince start hmem).1 (by rw [hstart])
  obtain ⟨now, rest, hrest⟩ := List.exists_cons_of_ne_nil (List.append_ne_nil_of_right_ne_nil t
    (List.cons_ne_nil l since))
  rw [hrest] at hr hcalm hcalm' hduring ⊢
  have hwaits : ∀ x ∈ now :: (rest ++ [e]), side.waits (x.1.callers e.2.1) = true ∧
      side.ticket (x.1.callers e.2.1) = some i := by
    intro x hx
    rcases List.mem_append.mp (List.cons_append ▸ hx) with hx | hx
    · rw [← hte]
      exact hduring x hx
    · obtain rfl := List.mem_singleton.mp hx
      exact ⟨hwe, hte⟩
  have hrun : Run (system n ι α) ((past ++ [start]) ++ now :: (rest ++ [e] ++ after)) s := by
    simpa using hr
  have hall : ∀ x ∈ (past ++ [start]) ++ now :: (rest ++ [e] ++ after), Calm n x := by
    simpa using hcalm
  have hinv := inv_of_run hrun.split.1 fun x hx => hall x (List.mem_append_left _ hx)
  have hbeyond : ¬ side.clear now.1 i := by
    -- what the check has passed for at the beginning it passes for at the last load
    intro hclear
    cases t with
    | nil =>
      obtain ⟨rfl, -⟩ := List.cons.inj hrest
      exact hnot hclear
    | cons x t =>
      rw [List.cons_append] at hrest
      obtain ⟨rfl, rfl⟩ := List.cons.inj hrest
      have hrun' : Run (system n ι α) ((past ++ [start]) ++ x :: t ++ l :: (since ++ [e] ++ after))
          s := by simpa using hrun
      refine hnot (hside.clear_later hrun'.split.1 (fun y hy => hall y ?_) (fun y hy => ?_)
        (hwaits x (.head _)).2 hclear).1
      · simp only [List.mem_append, List.mem_cons] at hy ⊢
        tauto
      · refine (hwaits y ?_).1
        simp only [List.mem_append, List.mem_cons] at hy ⊢
        tauto
  refine ⟨past, start, now, rest ++ [e], by simp, hstart, fun x hx => (hwaits x hx).1, ?_⟩
  intro j hj
  have hlower : j < i := Nat.lt_of_not_le fun hle => hbeyond (hside.clear_of_le hle hj)
  rcases hside.below hinv (hwaits now (.head _)).2 hlower with hdone | ⟨d, hd⟩
  · exact .inl hdone
  · refine .inr ⟨d, hd, fun hfails => ?_⟩
    have hstale := hside.stale_of_fails hrun hall hd hj hfails
    exact hside.sleeps_of_stale (s := s) (by simpa using hrun) (by simpa using hall) hstart hlower
      (fun x hx => (hwaits x hx).2) hd hstale

end Side.Sound

/--
Full and empty answers are truthful, but for what a load that was made too early does.

For every `try_pop` of a calm run that returns no item, right after it has claimed its index every item
published belongs to a `try_pop` that does not end so, or to one that takes no step during the whole of
this call, having loaded before, when that item was not published yet. The same for `try_push` and the
`item_count` indices above `last_recvd_index`.
-/
theorem answers_truthful (hr : Run (system n ι α) h s) (hcalm : ∀ e ∈ h, Calm n e) :
    (popSide p ι α).TruthfulAtOnce h ∧ (pushSide n ι α).TruthfulAtOnce h :=
  ⟨(popSide_sound n).truthful hr hcalm, (pushSide_sound n).truthful hr hcalm⟩

end Runs

/-! ## An item nobody takes

Caller 0 finds the queue empty and is about to put its index back. Caller 1 publishes an item with
that index. Caller 2 gets the next index, finds the queue empty and says so; then caller 0 puts its
index back and says so as well.
-/

def holdingUp : List (Fin 3 × Act Unit) :=
  [(0, .tryPop), (0, .load), (1, .tryPush), (1, .load), (1, .drop false), (1, .publish false),
    (2, .tryPop), (2, .load), (2, .putBack false), (0, .putBack false)]

def holdingUpRun : List (Entry .w64 (Fin 3) Unit) × State .w64 (Fin 3) Unit :=
  ((system twoSlots (Fin 3) Unit).replay (fresh _ _ fun _ => ()) holdingUp).getD
    ([], fresh _ _ fun _ => ())

theorem run_holdingUp : Run (system twoSlots (Fin 3) Unit) holdingUpRun.1 holdingUpRun.2 :=
  Run.of_replay holdingUp (fresh_fresh fun _ => ()) rfl

/-- Both empty answers are of the kind the theorem admits. -/
theorem answers_truthful_two : Run (system twoSlots (Fin 3) Unit) holdingUpRun.1 holdingUpRun.2 ∧
    (popSide _ _ _).TruthfulAtOnce holdingUpRun.1 ∧
    (pushSide twoSlots _ _).TruthfulAtOnce holdingUpRun.1 :=
  ⟨run_holdingUp, answers_truthful run_holdingUp (by decide)⟩

/-- Nothing is excused. -/
def never (_ _ : List (Entry p ι α)) (_ : ι) (_ : Nat) : Prop := False

/-- In a calm run both empty answers are false: the item is there all the time, and nobody takes
it. -/
theorem holdingUp_false : ¬ (popSide _ _ _).Truthful never holdingUpRun.1 := by
  intro htruthful
  obtain ⟨past, now, during, hsplit, hwaits, htaken⟩ :=
    htruthful (holdingUpRun.1.take 8) _ (holdingUpRun.1.drop 9) rfl ⟨1, by decide, rfl, by decide⟩
  -- the call of caller 2 has two steps after its beginning
  have hbegin : holdingUpRun.1.take 8 ++ [holdingUpRun.1.get ⟨8, by decide⟩]
      = holdingUpRun.1.take 6 ++ holdingUpRun.1.get ⟨6, by decide⟩ :: (holdingUpRun.1.drop 7).take 2 :=
    rfl
  obtain ⟨t, -, ht⟩ := split_after (hbegin.symm.trans hsplit) fun hmem =>
    absurd (hwaits _ hmem) (by decide)
  have hin : ∀ x ∈ now :: during, x ∈ (holdingUpRun.1.drop 7).take 2 := fun x hx => by
    rw [ht]
    exact List.mem_append_right t hx
  have hall : ∀ x ∈ (holdingUpRun.1.drop 7).take 2, x.1.sent = 1 ∧ x.1.recvd = 0 ∧
      (x.1.callers 0).popping = true ∧ ∀ c, (x.1.callers c).recvTicket = some 0 → c = 0 := by
    decide
  obtain ⟨hsent, hrecvd, -, honly⟩ := hall now (hin now (.head _))
  rcases htaken 0 (show 0 < now.1.sent by omega) with hdone | ⟨c, hc, hexcused⟩
  · exact absurd (show 0 < now.1.recvd from hdone) (by omega)
  · obtain rfl := honly c hc
    refine hexcused ⟨now :: during, _, [], rfl, rfl, ⟨0, by decide, rfl, by decide⟩, ?_⟩
    intro x hx
    exact (hall x (hin x hx)).2.2.1

/-- In the overfull queue an empty answer is false, whatever is excused: nobody has claimed the item
at index 3. -/
theorem overfilled_false (excused) (h : List (Entry .w32 (Fin 6) Unit)) :
    ¬ (popSide _ _ _).Truthful excused (h ++ overfilledRun.1) := by
  intro htruthful
  have hlast : h ++ overfilledRun.1 = (h ++ overfilledRun.1.take 32) ++
      overfilledRun.1.get ⟨32, by decide⟩ :: [] := by
    rw [List.append_assoc]
    rfl
  obtain ⟨past, now, during, hsplit, hwaits, htaken⟩ :=
    htruthful _ _ _ hlast ⟨2, by decide, rfl, by decide⟩
  have hbegin : (h ++ overfilledRun.1.take 32) ++ [overfilledRun.1.get ⟨32, by decide⟩]
      = (h ++ overfilledRun.1.take 30) ++ overfilledRun.1.get ⟨30, by decide⟩ ::
        overfilledRun.1.drop 31 := by
    rw [List.append_assoc, List.append_assoc]
    rfl
  obtain ⟨t, -, ht⟩ := split_after (hbegin.symm.trans hsplit) fun hmem =>
    absurd (hwaits _ hmem) (by decide)
  have hall : ∀ x ∈ overfilledRun.1.drop 31, 3 < x.1.sent ∧ x.1.recvd = 2 ∧
      ∀ c, (x.1.callers c).recvTicket ≠ some 3 := by
    decide
  obtain ⟨hsent, hrecvd, hnone⟩ := hall now (by
    rw [ht]
    exact List.mem_append_right t (.head _))
  rcases htaken 3 hsent with hdone | ⟨c, hc, -⟩
  · exact absurd (show 3 < now.1.recvd from hdone) (by omega)
  · exact hnone c hc

/--
Two ways an empty answer can be false.

In a calm run, because another call that fails as well is holding the index; and in a crowded run
without any such call.
-/
theorem false_answers :
    (∃ h s, Run (system twoSlots (Fin 3) Unit) h s ∧ (∀ e ∈ h, Calm twoSlots e) ∧
      ¬ (popSide _ _ _).Truthful never h) ∧
    ∃ h s, Run (system nearlyAll (Fin 6) Unit) h s ∧ (∀ e ∈ h, BelowMax e) ∧
      ∀ excused, ¬ (popSide _ _ _).Truthful excused h := by
  refine ⟨⟨_, _, run_holdingUp, by decide, holdingUp_false⟩, ?_⟩
  obtain ⟨h, hr, hmax⟩ := run_filled
  refine ⟨_, _, hr.append run_overfilled, ?_, fun excused => overfilled_false excused h⟩
  intro e he
  exact (List.mem_append.mp he).elim (hmax e) (overfilled_belowMax e)

end SandboxIpc.Queue
