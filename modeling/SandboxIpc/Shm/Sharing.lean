import SandboxIpc.Infra.Leases
import SandboxIpc.Infra.Sharing
import SandboxIpc.Shm.Mapping

/-!
# Maps of shared memory over whole runs

Any number of processes map windows of any objects, clone and drop the maps, and read and write
through their pointers. An access goes through the page table of its process. Other code of a
process maps and unmaps other pages all the time.

* `World`, `World.step` — the page tables, the objects and the maps
* `World.Kept` — every map has its pages, nobody else has them, and no page of a dropped map is left
* `kept_of_run` — it holds in every state that is reached
* `World.Sound` — every map shows a window of its object, if the handles are honest
* `translate_window` — what the page table makes of an address in a window
* `refines_sharing` — the processes share the bytes of the objects, and no access to a window faults
* `pages_accounted` — the pages that are mapped are those of the maps that are left
-/

namespace SandboxIpc.Maps

open Infra

variable {p : PointerWidth} {H O Proc κ : Type}

/-! ## The world -/

/-- What an address space has at a page. -/
inductive Entry (O : Type)
  | shared (object : O) (page : Nat) (access : Access)
  /-- Of other code. -/
  | other
  deriving DecidableEq

/-- A `SharedMemMap` that has not been dropped. -/
structure Mapping (p : PointerWidth) (O Proc : Type) where
  proc : Proc
  object : O
  view : View p
  access : Access
  /-- How many pages the system has mapped. -/
  pages : Nat
  /-- The strong count of its `Arc`. -/
  strong : Nat

/-- What the maps are about. -/
structure Setting (p : PointerWidth) (H O : Type) where
  platform : Platform p H
  /-- The object that a `SharedMem` refers to. -/
  object : H → O
  /-- How large an object is. -/
  size : O → Nat

@[ext] structure World (p : PointerWidth) (O Proc κ : Type) where
  table : Registry (Proc × Nat) (Entry O)
  bytes : O → Nat → UInt8
  maps : κ → Option (Mapping p O Proc)

inductive Act (p : PointerWidth) (H Proc κ : Type)
  /-- `map`, with the address and the number of pages that the system answers. -/
  | map (id : κ) (proc : Proc) (handle : H) (range : RangeArgument p) (access : Access)
    (answer : Except IoError (Usize p × Nat))
  | clone (id : κ)
  | drop (id : κ)
  /-- An access to the byte `i` of the slice that the pointer and the length of a map make. -/
  | write (id : κ) (i : Nat) (byte : UInt8)
  | read (id : κ) (i : Nat)
  /-- Other code maps a page, or unmaps one of its own. -/
  | other (proc : Proc) (page : Nat)

/-- The entries of a map in the page table. -/
def Mapping.entries (page : Nat) (m : Mapping p O Proc) : List ((Proc × Nat) × Entry O) :=
  (List.range m.pages).map fun i =>
    ((m.proc, m.view.mappingPointer.toNat / page + i),
      .shared m.object (m.view.mappingOffset / page + i) m.access)

/-- The pages that are unmapped when a map is dropped. -/
def Mapping.unmapped (P : Platform p H) (m : Mapping p O Proc) : List (Proc × Nat) :=
  (List.range (P.unmaps m.view m.pages)).map fun i =>
    (m.proc, m.view.mappingPointer.toNat / P.page + i)

def Mapping.window (m : Mapping p O Proc) : Window O where
  object := m.object
  first := m.view.userOffset.toNat
  length := m.view.userLen.toNat
  writable := m.access = .readWrite

/-- The address of the byte `i` of the slice. -/
def Mapping.pointerTo (m : Mapping p O Proc) (i : Nat) : Usize p :=
  m.view.userPointer + BitVec.ofNat p.bits i

/-- What is true of a map as long as it is there. -/
structure Mapping.Sound (S : Setting p H O) (m : Mapping p O Proc) : Prop where
  lawful : m.view.Lawful S.platform.page
  inside : m.view.userOffset.toNat + m.view.userLen.toNat ≤ S.size m.object
  fits : m.view.userOffset.toNat + m.view.userLen.toNat < 2 ^ p.bits
  covered : m.view.mappingLen.toNat ≤ m.pages * S.platform.page
  aligned : S.platform.page ∣ m.view.mappingPointer.toNat
  in_space : m.view.mappingPointer.toNat + m.pages * S.platform.page ≤ 2 ^ p.bits

namespace World

variable (S : Setting p H O)

section Step

variable [DecidableEq O] [DecidableEq Proc] [DecidableEq κ]

/-- What the page table makes of an address. There is nothing behind the last page of an object. -/
def translate (w : World p O Proc κ) (proc : Proc) (addr : Usize p) : Option (O × Nat × Access) :=
  match w.table (proc, addr.toNat / S.platform.page) with
  | some (.shared object page access) =>
    if page * S.platform.page < S.size object then
      some (object, page * S.platform.page + addr.toNat % S.platform.page, access)
    else none
  | _ => none

/-- The map that a call of `map` makes, if it does. -/
def newMap (proc : Proc) (handle : H) (range : RangeArgument p) (access : Access)
    (answer : Except IoError (Usize p × Nat)) : Option (Mapping p O Proc) :=
  match S.platform.request handle range access, answer with
  | .ok q, .ok (ptr, pages) =>
    some { proc, object := S.object handle, view := q.view ptr, access, pages, strong := 1 }
  | _, _ => none

/-- The system maps pages that are free, as many as it has been asked for. -/
def CanPlace (w : World p O Proc κ) (m : Mapping p O Proc) : Prop :=
  S.platform.maps m.view.mappingLen m.pages = true ∧
    S.platform.page ∣ m.view.mappingPointer.toNat ∧
    m.view.mappingPointer.toNat + m.pages * S.platform.page ≤ 2 ^ p.bits ∧
    w.table.Free ((m.entries S.platform.page).map Prod.fst)

instance (w : World p O Proc κ) (m : Mapping p O Proc) : Decidable (w.CanPlace S m) :=
  inferInstanceAs (Decidable (_ ∧ _ ∧ _ ∧ _))

def step (w : World p O Proc κ) : Act p H Proc κ → Option (World p O Proc κ)
  | .map id proc handle range access answer =>
    if (w.maps id).isSome then none
    else match newMap S proc handle range access answer with
      -- an error: nothing has been mapped
      | none => some w
      | some m =>
        if w.CanPlace S m then
          some { w with
            table := w.table.put (m.entries S.platform.page)
            maps := Function.update w.maps id (some m) }
        else none
  | .clone id => (w.maps id).map fun m =>
    { w with maps := Function.update w.maps id (some { m with strong := m.strong + 1 }) }
  | .drop id => (w.maps id).map fun m =>
    if m.strong = 1 then
      { w with
        table := w.table.close (m.unmapped S.platform)
        maps := Function.update w.maps id none }
    else { w with maps := Function.update w.maps id (some { m with strong := m.strong - 1 }) }
  | .write id i byte => (w.maps id).bind fun m =>
    if m.access = .readWrite ∧ i < m.view.userLen.toNat then
      match w.translate S m.proc (m.pointerTo i) with
      | some (object, place, .readWrite) =>
        some { w with bytes := Sharing.store w.bytes object place byte }
      | _ => some w
    else none
  | .read id i => (w.maps id).bind fun m =>
    if i < m.view.userLen.toNat then some w else none
  | .other proc page =>
    match w.table (proc, page) with
    | none => some { w with table := w.table.put [((proc, page), .other)] }
    | some .other => some { w with table := w.table.close [(proc, page)] }
    | some (.shared ..) => none

/-- Page tables with nothing but pages of other code. -/
def system (cells : O → Nat → UInt8) : System (World p O Proc κ) (Act p H Proc κ) where
  init w := w.bytes = cells ∧ (∀ id, w.maps id = none) ∧ ∀ k e, w.table k = some e → e = .other
  step := step S

end Step

/-! ## What is seen -/

end World

inductive Seen (O κ : Type)
  | shared (e : Sharing.Event κ O UInt8)
  | fault (id : κ)
  deriving DecidableEq

namespace World

variable (S : Setting p H O)

/-- An access is seen as what the page table makes of it. -/
def see [DecidableEq O] [DecidableEq Proc] :
    World p O Proc κ × Act p H Proc κ → Option (Seen O κ)
  | (_, .map id proc handle range access answer) =>
    (newMap S proc handle range access answer).map fun m => .shared (.added id m.window)
  | (_, .clone _) => none
  | (w, .drop id) =>
    (w.maps id).bind fun m => if m.strong = 1 then some (.shared (.removed id)) else none
  | (w, .write id i byte) => (w.maps id).map fun m =>
    match w.translate S m.proc (m.pointerTo i) with
    | some (object, place, .readWrite) => .shared (.wrote id object place byte)
    | _ => .fault id
  | (w, .read id i) => (w.maps id).map fun m =>
    match w.translate S m.proc (m.pointerTo i) with
    | some (object, place, _) => .shared (.read id object place (w.bytes object place))
    | none => .fault id
  | (_, .other ..) => none

/-- A handle tells the size of its object, and an object is not as large as the address space. -/
def Honest (e : World p O Proc κ × Act p H Proc κ) : Prop :=
  match e.2 with
  | .map _ _ handle _ _ _ =>
    (S.platform.size handle).toNat ≤ S.size (S.object handle) ∧
      (S.platform.size handle).toNat + S.platform.page ≤ 2 ^ p.bits
  | _ => True

instance (e : World p O Proc κ × Act p H Proc κ) : Decidable (Honest S e) :=
  match e with
  | (_, .map ..) => inferInstanceAs (Decidable (_ ∧ _))
  | (_, .clone _) | (_, .drop _) | (_, .write ..) | (_, .read ..) | (_, .other ..) => isTrue trivial

end World

/-! ## A window in the page table -/

section Window

variable {S : Setting p H O} {m : Mapping p O Proc}

/-- Where the byte `i` of the window lies in the mapping. -/
theorem Mapping.Sound.pointerTo_eq (h : m.Sound S) {i : Nat} (hi : i < m.view.userLen.toNat) :
    ∃ d, m.view.mappingOffset + d = m.view.userOffset.toNat + i ∧
      d < m.pages * S.platform.page ∧
      (m.pointerTo i).toNat = m.view.mappingPointer.toNat + d := by
  have hspace := h.in_space
  have hfits := h.fits
  have hcovered := h.covered
  have hisize : (BitVec.ofNat p.bits i).toNat = i := by
    rw [BitVec.toNat_ofNat]
    exact Nat.mod_eq_of_lt (by omega)
  -- the number of the byte in the object
  have hx : (m.view.userOffset + BitVec.ofNat p.bits i).toNat = m.view.userOffset.toNat + i := by
    rw [BitVec.toNat_add_of_lt (by omega), hisize]
  have hwindow : (m.view.userOffset + BitVec.ofNat p.bits i).toNat ∈ m.view.window := by
    rw [hx]
    exact ⟨Nat.le_add_right _ _, Nat.add_lt_add_left hi _⟩
  have haddr : m.view.address (m.view.userOffset + BitVec.ofNat p.bits i) = m.pointerTo i := by
    unfold View.address Mapping.pointerTo
    rw [BitVec.add_comm m.view.userOffset, BitVec.add_sub_cancel]
  have hbyte := h.lawful.byte_address _ hwindow
  have hmapped := (h.lawful.covers hwindow).2
  unfold View.byte at hbyte
  rw [haddr, hx] at hbyte
  rw [hx] at hmapped
  refine ⟨(m.pointerTo i - m.view.mappingPointer).toNat, hbyte, by omega, ?_⟩
  have hback : m.view.mappingPointer + (m.pointerTo i - m.view.mappingPointer) = m.pointerTo i := by
    rw [BitVec.add_comm, BitVec.sub_add_cancel]
  have hsum := BitVec.toNat_add_of_lt (x := m.view.mappingPointer)
    (y := m.pointerTo i - m.view.mappingPointer) (by omega)
  rwa [hback] at hsum

/-- An address in a window is that of a byte of the object. -/
theorem translate_window [DecidableEq O] [DecidableEq Proc] {w : World p O Proc κ} (h : m.Sound S)
    (hheld : ∀ e ∈ m.entries S.platform.page, w.table e.1 = some e.2) {i : Nat}
    (hi : i < m.view.userLen.toNat) :
    w.translate S m.proc (m.pointerTo i)
      = some (m.object, m.view.userOffset.toNat + i, m.access) := by
  obtain ⟨d, hplace, hd, haddr⟩ := h.pointerTo_eq hi
  obtain ⟨base, hbase⟩ := h.aligned
  have hpage := S.platform.page_pos
  have hdvd : S.platform.page ∣ m.view.mappingOffset := h.lawful.greatest.1.1
  have hdiv : (m.pointerTo i).toNat / S.platform.page
      = m.view.mappingPointer.toNat / S.platform.page + d / S.platform.page := by
    rw [haddr, hbase, Nat.mul_add_div hpage, Nat.mul_div_cancel_left _ hpage]
  have hmod : (m.pointerTo i).toNat % S.platform.page = d % S.platform.page := by
    rw [haddr, hbase, Nat.mul_add_mod]
  have hentry := hheld _ (List.mem_map_of_mem (List.mem_range.mpr (Nat.div_lt_of_lt_mul
    (by rwa [Nat.mul_comm] at hd))))
  have hin : (m.view.mappingOffset / S.platform.page + d / S.platform.page) * S.platform.page
      + d % S.platform.page = m.view.userOffset.toNat + i := by
    rw [Nat.add_mul, Nat.div_mul_cancel hdvd, Nat.add_assoc, Nat.div_add_mod', hplace]
  have hinside := h.inside
  unfold World.translate
  rw [hdiv, hentry, hmod]
  dsimp only
  rw [hin, if_pos (by omega)]

end Window

/-! ## The pages of all maps -/

namespace World

variable {S : Setting p H O} {w w' : World p O Proc κ}

/-- The entries of the map `id`. -/
def leases (S : Setting p H O) (w : World p O Proc κ) (id : κ) : List ((Proc × Nat) × Entry O) :=
  (w.maps id).elim [] (·.entries S.platform.page)

theorem leases_some {id : κ} {m : Mapping p O Proc} (h : w.maps id = some m) :
    w.leases S id = m.entries S.platform.page := by
  unfold leases
  rw [h]
  rfl

/-- Every map has its pages, nobody else has them, and there are no others. -/
structure Kept (S : Setting p H O) (w : World p O Proc κ) : Prop where
  unmaps : ∀ id m, w.maps id = some m → S.platform.unmaps m.view m.pages = m.pages
  leased : Leased (· ≠ .other) w.table (w.leases S)

/-- Every map shows a window of its object. -/
def Sound (S : Setting p H O) (w : World p O Proc κ) : Prop :=
  ∀ id m, w.maps id = some m → m.Sound S

theorem Kept.held (h : w.Kept S) {id : κ} {m : Mapping p O Proc} (hm : w.maps id = some m) :
    ∀ e ∈ m.entries S.platform.page, w.table e.1 = some e.2 := by
  have hheld := h.leased.held id
  rwa [leases_some hm] at hheld

/-- What the drop of a map unmaps is what has been mapped. -/
theorem Kept.unmapped_eq (h : w.Kept S) {id : κ} {m : Mapping p O Proc} (hm : w.maps id = some m) :
    m.unmapped S.platform = (m.entries S.platform.page).map Prod.fst := by
  unfold Mapping.unmapped Mapping.entries
  rw [h.unmaps id m hm, List.map_map]
  rfl

section Changes

variable [DecidableEq κ] {id : κ}

theorem leases_update {maps : κ → Option (Mapping p O Proc)}
    {table : Registry (Proc × Nat) (Entry O)} {bytes : O → Nat → UInt8}
    (x : Option (Mapping p O Proc)) :
    leases S ⟨table, bytes, Function.update maps id x⟩
      = Function.update (leases S ⟨table, bytes, maps⟩) id
        (x.elim [] (·.entries S.platform.page)) := by
  funext id'
  unfold leases
  dsimp only
  by_cases hid : id' = id
  · subst hid
    rw [Function.update_self, Function.update_self]
  · rw [Function.update_of_ne hid, Function.update_of_ne hid]

/-- What is true of all maps is true of them if it is of the one that changes. -/
theorem of_update {maps : κ → Option (Mapping p O Proc)} {P : Mapping p O Proc → Prop}
    (h : ∀ id m, maps id = some m → P m) {x : Option (Mapping p O Proc)}
    (hx : ∀ m, x = some m → P m) (id' : κ) (m' : Mapping p O Proc)
    (hm' : Function.update maps id x id' = some m') : P m' := by
  by_cases hid : id' = id
  · subst hid
    rw [Function.update_self] at hm'
    exact hx m' hm'
  · rw [Function.update_of_ne hid] at hm'
    exact h id' m' hm'

/-- A map whose strong count changes keeps its pages. -/
theorem Kept.recount (h : w.Kept S) {m : Mapping p O Proc} (hm : w.maps id = some m)
    (strong : Nat) :
    Kept S { w with maps := Function.update w.maps id (some { m with strong }) } where
  unmaps := of_update h.unmaps fun m' hm' => by
    obtain rfl := Option.some.inj hm'
    exact h.unmaps id m hm
  leased := by
    have hsame : Function.update (w.leases S) id (m.entries S.platform.page) = w.leases S :=
      Function.update_eq_self_iff.mpr (leases_some hm).symm
    rw [leases_update]
    exact (congrArg (Leased _ w.table) hsame).mpr h.leased

theorem Sound.recount (h : w.Sound S) {m : Mapping p O Proc} (hm : w.maps id = some m)
    (strong : Nat) :
    Sound S { w with maps := Function.update w.maps id (some { m with strong }) } :=
  of_update h fun m' hm' => by
    obtain rfl := Option.some.inj hm'
    exact { h id m hm with }

variable [DecidableEq Proc]

/-- A new map gets free pages. -/
theorem Kept.add (h : w.Kept S) (hid : w.maps id = none) {m : Mapping p O Proc}
    (hunmaps : S.platform.unmaps m.view m.pages = m.pages)
    (hfree : w.table.Free ((m.entries S.platform.page).map Prod.fst)) :
    Kept S { w with
      table := w.table.put (m.entries S.platform.page)
      maps := Function.update w.maps id (some m) } where
  unmaps := of_update h.unmaps fun m' hm' => Option.some.inj hm' ▸ hunmaps
  leased := by
    have hnone : w.leases S id = [] := by
      unfold leases
      rw [hid]
      rfl
    rw [leases_update]
    refine h.leased.grant hfree (fun e he => ?_) hnone
    obtain ⟨i, -, rfl⟩ := List.mem_map.mp he
    nofun

/-- A map that is dropped takes its pages with it, and no others. -/
theorem Kept.remove (h : w.Kept S) {m : Mapping p O Proc} (hm : w.maps id = some m) :
    Kept S { w with
      table := w.table.close (m.unmapped S.platform)
      maps := Function.update w.maps id none } where
  unmaps := of_update h.unmaps nofun
  leased := by
    have hrelease := h.leased.release id
    rw [leases_some hm] at hrelease
    rw [leases_update, h.unmapped_eq hm]
    exact hrelease

end Changes

section Steps

/-- The system has placed the map as it was asked to. -/
theorem sound_newMap {proc : Proc} {handle : H} {range : RangeArgument p} {access : Access}
    {answer : Except IoError (Usize p × Nat)} {m : Mapping p O Proc}
    (hm : newMap S proc handle range access answer = some m)
    (hsize : (S.platform.size handle).toNat ≤ S.size (S.object handle))
    (hpage : (S.platform.size handle).toNat + S.platform.page ≤ 2 ^ p.bits)
    (hplace : w.CanPlace S m) : m.Sound S := by
  unfold newMap at hm
  rcases hrequest : S.platform.request handle range access with stop | q
  · rw [hrequest] at hm
    cases hm
  · rw [hrequest] at hm
    rcases answer with e | ⟨ptr, pages⟩
    · cases hm
    · obtain rfl := Option.some.inj hm
      have hq := S.platform.lawful hpage hrequest
      have hinside := hq.inside ptr
      have hpos := S.platform.page_pos
      obtain ⟨hmaps, haligned, hspace, -⟩ := hplace
      exact {
        lawful := hq.lawful ptr
        inside := hinside.trans hsize
        fits := by
          show (q.view ptr).userOffset.toNat + (q.view ptr).userLen.toNat < 2 ^ p.bits
          omega
        covered := S.platform.le_of_maps hmaps
        aligned := haligned
        in_space := hspace }

variable [DecidableEq O] [DecidableEq Proc] [DecidableEq κ]

theorem kept_step {a : Act p H Proc κ} (h : w.Kept S) (hs : w.step S a = some w') : w'.Kept S := by
  cases a with
  | map id proc handle range access answer =>
    dsimp only [step] at hs
    split at hs
    · cases hs
    · next hid =>
      rcases hm : newMap S proc handle range access answer with _ | m
      · rw [hm] at hs
        obtain rfl := Option.some.inj hs
        exact h
      · rw [hm] at hs
        obtain ⟨hplace, hs⟩ := Option.ite_none_right_eq_some.mp hs
        obtain rfl := Option.some.inj hs
        exact h.add (Option.not_isSome_iff_eq_none.mp hid) (S.platform.unmaps_eq hplace.1)
          hplace.2.2.2
  | clone id =>
    obtain ⟨m, hm, rfl⟩ := Option.map_eq_some_iff.mp hs
    exact h.recount hm _
  | drop id =>
    obtain ⟨m, hm, rfl⟩ := Option.map_eq_some_iff.mp hs
    split
    · exact h.remove hm
    · exact h.recount hm _
  | write id i byte =>
    obtain ⟨m, hm, hs⟩ := Option.bind_eq_some_iff.mp hs
    obtain ⟨-, hs⟩ := Option.ite_none_right_eq_some.mp hs
    split at hs
    · obtain rfl := Option.some.inj hs
      exact ⟨h.unmaps, h.leased⟩
    · obtain rfl := Option.some.inj hs
      exact h
  | read id i =>
    obtain ⟨m, hm, hs⟩ := Option.bind_eq_some_iff.mp hs
    obtain ⟨-, hs⟩ := Option.ite_none_right_eq_some.mp hs
    obtain rfl := Option.some.inj hs
    exact h
  | other proc page =>
    dsimp only [step] at hs
    split at hs
    · next hfree =>
      obtain rfl := Option.some.inj hs
      exact ⟨h.unmaps, h.leased.put_other hfree (not_not_intro rfl)⟩
    · next hother =>
      obtain rfl := Option.some.inj hs
      exact ⟨h.unmaps, h.leased.close_other hother (not_not_intro rfl)⟩
    · cases hs

/-- Only `map` makes a map, and a `drop` or a `clone` changes nothing but its strong count. -/
theorem sound_step {a : Act p H Proc κ} (h : w.Sound S) (ha : Honest S (w, a))
    (hs : w.step S a = some w') : w'.Sound S := by
  cases a with
  | map id proc handle range access answer =>
    obtain ⟨hsize, hpage⟩ := ha
    dsimp only [step] at hs
    split at hs
    · cases hs
    · rcases hm : newMap S proc handle range access answer with _ | m
      · rw [hm] at hs
        obtain rfl := Option.some.inj hs
        exact h
      · rw [hm] at hs
        obtain ⟨hplace, hs⟩ := Option.ite_none_right_eq_some.mp hs
        obtain rfl := Option.some.inj hs
        exact of_update h fun m' hm' => Option.some.inj hm' ▸ sound_newMap hm hsize hpage hplace
  | clone id =>
    obtain ⟨m, hm, rfl⟩ := Option.map_eq_some_iff.mp hs
    exact h.recount hm _
  | drop id =>
    obtain ⟨m, hm, rfl⟩ := Option.map_eq_some_iff.mp hs
    split
    · refine of_update h fun m' hm' => ?_
      cases hm'
    · exact h.recount hm _
  | write id i byte =>
    obtain ⟨m, hm, hs⟩ := Option.bind_eq_some_iff.mp hs
    obtain ⟨-, hs⟩ := Option.ite_none_right_eq_some.mp hs
    split at hs <;> obtain rfl := Option.some.inj hs <;> exact h
  | read id i =>
    obtain ⟨m, hm, hs⟩ := Option.bind_eq_some_iff.mp hs
    obtain ⟨-, hs⟩ := Option.ite_none_right_eq_some.mp hs
    obtain rfl := Option.some.inj hs
    exact h
  | other proc page =>
    dsimp only [step] at hs
    split at hs
    · obtain rfl := Option.some.inj hs
      exact h
    · obtain rfl := Option.some.inj hs
      exact h
    · cases hs

theorem kept_of_run {cells : O → Nat → UInt8} {h : List (World p O Proc κ × Act p H Proc κ)}
    (hr : Run (system S cells) h w) : w.Kept S := by
  refine hr.ledger (fun _ w => Kept S w) ?_ fun _ _ _ _ hkept hs => kept_step hkept hs
  rintro w ⟨-, hnone, hother⟩
  have hleases : w.leases S = fun _ => [] := by
    funext id
    unfold leases
    rw [hnone id]
    rfl
  refine ⟨fun id m hm => ?_, ?_⟩
  · rw [hnone id] at hm
    cases hm
  · rw [hleases]
    exact .none fun k e he => not_not_intro (hother k e he)

theorem sound_of_run {cells : O → Nat → UInt8} {h : List (World p O Proc κ × Act p H Proc κ)}
    (hr : Run (system S cells) h w) (hhonest : ∀ e ∈ h, Honest S e) : w.Sound S := by
  refine hr.invariant_of (Honest S) (Sound S) ?_ (fun _ _ _ hsound ha hs => sound_step hsound ha hs)
    hhonest
  rintro w ⟨-, hnone, -⟩ id m hm
  rw [hnone id] at hm
  cases hm

/-! ## The shared bytes -/

/-- The windows of all maps, on the bytes of the objects. -/
structure Shows (w : World p O Proc κ) (t : Sharing κ O UInt8) : Prop where
  cells : t.cells = w.bytes
  windows : ∀ id, t.windows id = (w.maps id).map Mapping.window

/-- What is seen of the windows, as it is seen of the maps. -/
def seeShared (e : Sharing κ O UInt8 × Sharing.Op κ O UInt8) : Option (Seen O κ) :=
  (Sharing.see e).map .shared

omit [DecidableEq O] [DecidableEq Proc] in
theorem Shows.update {t : Sharing κ O UInt8} (h : Shows w t) (id : κ)
    (x : Option (Mapping p O Proc)) (table : Registry (Proc × Nat) (Entry O)) :
    Shows ⟨table, w.bytes, Function.update w.maps id x⟩
      { t with windows := Function.update t.windows id (x.map Mapping.window) } where
  cells := h.cells
  windows id' := by
    dsimp only
    by_cases hid : id' = id
    · subst hid
      rw [Function.update_self, Function.update_self]
    · rw [Function.update_of_ne hid, Function.update_of_ne hid]
      exact h.windows id'

omit [DecidableEq O] [DecidableEq Proc] in
/-- Nobody sees how often a map has been cloned. -/
theorem Shows.recount {t : Sharing κ O UInt8} (h : Shows w t) {id : κ} {m : Mapping p O Proc}
    (hm : w.maps id = some m) (strong : Nat) :
    Shows { w with maps := Function.update w.maps id (some { m with strong }) } t := by
  have hupdate := h.update id (some { m with strong }) w.table
  have hsame : Function.update t.windows id (some (Mapping.window { m with strong }))
      = t.windows := by
    refine Function.update_eq_self_iff.mpr ?_
    rw [h.windows id, hm]
    rfl
  rw [Option.map_some, hsame] at hupdate
  exact hupdate

/-- Every step of the processes is one of the windows, or is not seen. -/
theorem shows_step {cells : O → Nat → UInt8} {t : Sharing κ O UInt8} {a : Act p H Proc κ}
    (hkept : w.Kept S) (hsound : w.Sound S) (h : Shows w t) (hs : w.step S a = some w') :
    ∃ t', (Sharing.system cells).Goes seeShared t (see S (w, a)).toList t' ∧ Shows w' t' := by
  cases a with
  | map id proc handle range access answer =>
    dsimp only [step] at hs
    dsimp only [see]
    split at hs
    · cases hs
    · next hid =>
      rcases hm : newMap S proc handle range access answer with _ | m
      · rw [hm] at hs
        obtain rfl := Option.some.inj hs
        exact ⟨t, .refl t, h⟩
      · rw [hm] at hs
        obtain ⟨-, hs⟩ := Option.ite_none_right_eq_some.mp hs
        obtain rfl := Option.some.inj hs
        have hnone : t.windows id = none := by
          rw [h.windows id, Option.not_isSome_iff_eq_none.mp hid]
          rfl
        have hadd : t.step (.add id m.window)
            = some { t with windows := Function.update t.windows id (some m.window) } :=
          if_pos (Option.isNone_iff_eq_none.mpr hnone)
        have hgoes : (Sharing.system cells).Goes seeShared t
            (seeShared (t, .add id m.window)).toList _ := .step hadd
        exact ⟨_, hgoes, h.update id (some m) _⟩
  | clone id =>
    obtain ⟨m, hm, rfl⟩ := Option.map_eq_some_iff.mp hs
    exact ⟨t, .refl t, h.recount hm _⟩
  | drop id =>
    obtain ⟨m, hm, rfl⟩ := Option.map_eq_some_iff.mp hs
    dsimp only [see]
    rw [hm, Option.bind_some]
    split
    · have hremove : t.step (.remove id)
          = some { t with windows := Function.update t.windows id none } := by
        dsimp only [Sharing.step]
        rw [h.windows id, hm]
        rfl
      have hgoes : (Sharing.system cells).Goes seeShared t
          (seeShared (t, .remove id)).toList _ := .step hremove
      exact ⟨_, hgoes, h.update id none _⟩
    · exact ⟨t, .refl t, h.recount hm _⟩
  | write id i byte =>
    obtain ⟨m, hm, hs⟩ := Option.bind_eq_some_iff.mp hs
    obtain ⟨⟨haccess, hi⟩, hs⟩ := Option.ite_none_right_eq_some.mp hs
    have htranslate := translate_window (hsound id m hm) (hkept.held hm) hi
    have hwindow : t.windows id = some m.window := by
      rw [h.windows id, hm]
      rfl
    rw [haccess] at htranslate
    rw [htranslate] at hs
    obtain rfl := Option.some.inj hs
    have hsee : see S (w, .write id i byte)
        = seeShared (t, .write id i byte) := by
      dsimp only [see, seeShared, Sharing.see]
      rw [hm, Option.map_some, htranslate, hwindow]
      rfl
    have hwrite : t.step (.write id i byte) = some { t with
        cells := Sharing.store t.cells m.object (m.view.userOffset.toNat + i) byte } := by
      dsimp only [Sharing.step]
      rw [hwindow, Option.bind_some]
      exact if_pos ⟨decide_eq_true haccess, hi⟩
    rw [hsee]
    exact ⟨_, .step hwrite, congrArg (Sharing.store · _ _ byte) h.cells, h.windows⟩
  | read id i =>
    obtain ⟨m, hm, hs⟩ := Option.bind_eq_some_iff.mp hs
    obtain ⟨hi, hs⟩ := Option.ite_none_right_eq_some.mp hs
    have htranslate := translate_window (hsound id m hm) (hkept.held hm) hi
    have hwindow : t.windows id = some m.window := by
      rw [h.windows id, hm]
      rfl
    obtain rfl := Option.some.inj hs
    have hsee : see S (w, .read id i) = seeShared (t, .read id i) := by
      dsimp only [see, seeShared, Sharing.see]
      rw [hm, Option.map_some, htranslate, hwindow, h.cells]
      rfl
    have hread : t.step (.read id i) = some t := by
      dsimp only [Sharing.step]
      rw [hwindow, Option.bind_some]
      exact if_pos hi
    rw [hsee]
    exact ⟨t, .step hread, h⟩
  | other proc page =>
    dsimp only [step] at hs
    split at hs
    · obtain rfl := Option.some.inj hs
      exact ⟨t, .refl t, h.cells, h.windows⟩
    · obtain rfl := Option.some.inj hs
      exact ⟨t, .refl t, h.cells, h.windows⟩
    · cases hs

section Runs

variable {cells : O → Nat → UInt8} {h : List (World p O Proc κ × Act p H Proc κ)}
  (hr : Run (system S cells) h w)

include hr

/--
The processes share the bytes of the objects.

What is seen of any maps in any processes is what is seen of windows on the same bytes: no access to
a window faults while its map is there, in whatever order maps are cloned and dropped, and what is
read is what was written last to that byte of the object, through any map of any process.
-/
theorem refines_sharing (hhonest : ∀ e ∈ h, Honest S e) :
    ∃ k t, Run (Sharing.system cells) k t ∧ t.cells = w.bytes ∧
    trace (see S) h = (trace Sharing.see k).map Seen.shared ∧
    Sharing.Coherent cells (trace Sharing.see k) := by
  have hinit : ∀ w : World p O Proc κ, (system S cells).init w →
      ∃ t, (Sharing.system cells).init t ∧ Shows w t := by
    rintro w ⟨rfl, hnone, -⟩
    refine ⟨⟨w.bytes, fun _ => none⟩, rfl, rfl, fun id => ?_⟩
    rw [hnone id, Option.map_none]
  obtain ⟨k, t, hk, hshows, htrace⟩ := hr.simulated (Sharing.system cells) (see S) seeShared
    (Honest S) Shows hinit
    (fun _ _ _ _ _ hr hpre hshows _ hs =>
      shows_step (kept_of_run hr) (sound_of_run hr hpre) hshows hs) hhonest
  refine ⟨k, t, hk, hshows.cells, ?_, (Sharing.coherent hk).2⟩
  rw [← htrace]
  exact List.map_filterMap.symm

/--
The pages that are mapped are those of the maps that are left.

Whatever the handles say, every map has all its pages in the page table of its process, no page
belongs to two of them, and no page is left of one that was dropped.
-/
theorem pages_accounted :
    (∀ id m, w.maps id = some m → ∀ e ∈ m.entries S.platform.page, w.table e.1 = some e.2) ∧
    (∀ id id' m m', id ≠ id' → w.maps id = some m → w.maps id' = some m' →
      ((m.entries S.platform.page).map Prod.fst).Disjoint
        ((m'.entries S.platform.page).map Prod.fst)) ∧
    ∀ key e, w.table key = some e → e ≠ .other →
      ∃ id m, w.maps id = some m ∧ (key, e) ∈ m.entries S.platform.page := by
  have hkept : w.Kept S := kept_of_run hr
  refine ⟨fun id m hm => hkept.held hm, fun id id' m m' hne hm hm' => ?_, fun key e he hkind => ?_⟩
  · have hapart := hkept.leased.apart id id' hne
    rwa [leases_some hm, leases_some hm'] at hapart
  · obtain ⟨id, hid⟩ := hkept.leased.accounted key e he hkind
    rcases hm : w.maps id with _ | m
    · unfold leases at hid
      rw [hm] at hid
      cases hid
    · rw [leases_some hm] at hid
      exact ⟨id, m, hm, hid⟩

end Runs

end Steps

/-! ## Two processes -/

theorem page_pos : 0 < (4096 : Usize .w64).toNat := by decide

/-- One object of two pages, on 64-bit Linux. -/
def twoPages : Setting .w64 (Unix.SharedMem .w64) Unit where
  platform := .unix .release ⟨4096, page_pos⟩
  object _ := ()
  size _ := 8192

def bothMap : List (Act .w64 (Unix.SharedMem .w64) Bool Bool) :=
  let handle : Unix.SharedMem .w64 := ⟨some 3, 4, 8192⟩
  [.map false false handle StdRange.rangeFull.toRangeArgument .readWrite (.ok (0x10000, 2)),
    .map true true handle StdRange.rangeFull.toRangeArgument .read (.ok (0x40000, 2)),
    .write false 4100 7, .other true 0x10, .clone false, .drop false, .drop false, .read true 4100]

def bothSystem : System (World .w64 Unit Bool Bool) (Act .w64 (Unix.SharedMem .w64) Bool Bool) :=
  system twoPages fun _ _ => 0

def unmapped : World .w64 Unit Bool Bool := ⟨fun _ => none, fun _ _ => 0, fun _ => none⟩

/-- What one process writes the other one reads, when the first map has been dropped. -/
theorem bothMap_run : ∃ h w, Run bothSystem h w ∧
    (∀ e ∈ h, Honest twoPages e) ∧ w.maps false = none ∧
    trace (see twoPages) h = [.shared (.added false ⟨(), 0, 8192, true⟩),
      .shared (.added true ⟨(), 0, 8192, false⟩), .shared (.wrote false () 4100 7),
      .shared (.removed false), .shared (.read true () 4100 7)] := by
  have htrace : (bothSystem.replay unmapped bothMap).map
      (fun x => ((x.2.maps false).isNone, trace (see twoPages) x.1))
      = some (true, [.shared (.added false ⟨(), 0, 8192, true⟩),
      .shared (.added true ⟨(), 0, 8192, false⟩), .shared (.wrote false () 4100 7),
      .shared (.removed false), .shared (.read true () 4100 7)]) := by decide +kernel
  obtain ⟨⟨h, w⟩, hreplay, hseen⟩ := Option.map_eq_some_iff.mp htrace
  obtain ⟨hnone, hseen⟩ := Prod.mk.inj hseen
  have hinit : bothSystem.init unmapped :=
    ⟨rfl, fun _ => rfl, fun _ _ he => (Option.some_ne_none _ he.symm).elim⟩
  refine ⟨h, w, Run.of_replay bothMap hinit hreplay, fun e he => ?_,
    Option.isNone_iff_eq_none.mp hnone, hseen⟩
  have hact : e.2 ∈ bothMap := by
    rw [← System.actions_of_replay hreplay]
    exact List.mem_map_of_mem he
  have hall : ∀ a ∈ bothMap, Honest twoPages (unmapped, a) := by decide
  exact hall e.2 hact

theorem refines_sharing_both : ∃ h w k, Run bothSystem h w ∧
    (trace (see twoPages) h).length = 5 ∧
    trace (see twoPages) h = (trace Sharing.see k).map Seen.shared ∧
    Sharing.Coherent (fun _ _ => 0) (trace Sharing.see k) := by
  obtain ⟨h, w, hr, hhonest, -, htrace⟩ := bothMap_run
  obtain ⟨k, t, -, -, hsame, hcoherent⟩ := refines_sharing hr hhonest
  exact ⟨h, w, k, hr, congrArg List.length htrace, hsame, hcoherent⟩

/-- Only the pages of the second map are left. -/
theorem pages_accounted_both : ∃ h w, Run bothSystem h w ∧ w.maps false = none ∧
    ∀ key e, w.table key = some e → e ≠ .other →
      ∃ m, w.maps true = some m ∧ (key, e) ∈ m.entries 4096 := by
  obtain ⟨h, w, hr, -, hnone, -⟩ := bothMap_run
  refine ⟨h, w, hr, hnone, fun key e he hkind => ?_⟩
  obtain ⟨id, m, hm, hmem⟩ := (pages_accounted hr).2.2 key e he hkind
  cases id with
  | true => exact ⟨m, hm, hmem⟩
  | false =>
    rw [hnone] at hm
    cases hm

end World

end SandboxIpc.Maps
