import SandboxIpc.Unix.Host
import Mathlib.Data.List.Flatten

/-!
# Mapped bytes are backed

* `Host.Sound` — what the handles own is open, has one owner, and is as large as they say
* `Host.sound_of_run` — in every run in which what is received describes itself as it is
* `Host.backed_of_run` — no slice of a map then reaches beyond its object
* `Host.boast_exposed` — a size in a message is believed
-/

namespace SandboxIpc.Unix

open Infra

variable {libc : Libc} {p : PointerWidth} {E : Type}

namespace Host

variable {w w' : Host E libc p}

structure Sound (w : Host E libc p) : Prop where
  exist : ∀ fd object, w.fds fd = some object → object < w.objects
  nodup : w.owned.Nodup
  backs : ∀ m ∈ w.shares, w.Backs m

/-! ## Descriptors come and go -/

section Descriptors

variable {m : SharedMem p}

/-- A descriptor that is used for what is not open yet has no owner. -/
theorem Sound.notMem_owned (h : w.Sound) {fds : List RawFd} (hfree : w.fds.Free fds) {fd : RawFd}
    (hfd : fd ∈ fds) : fd ∉ w.owned := by
  intro howned
  obtain ⟨m, hm, hmem⟩ := List.mem_flatMap.mp howned
  obtain ⟨object, hobject, -⟩ := h.backs m hm fd hmem
  rw [hfree.2 fd hfd] at hobject
  cases hobject

/-- Files do not matter. -/
theorem Sound.setFiles (h : w.Sound) (files : List RawFd) : Sound { w with files } :=
  ⟨h.exist, h.nodup, h.backs⟩

/-- What is new belongs to some new handles, or to none. -/
theorem Sound.gain (h : w.Sound) (entries : List (RawFd × Nat)) (shares : List (SharedMem p))
    (hfree : w.fds.Free (entries.map Prod.fst)) (hobjects : ∀ x ∈ entries, x.2 < w.objects)
    (hkeys : ∀ fd ∈ shares.flatMap SharedMem.fds, fd ∈ entries.map Prod.fst)
    (hnodup : (shares.flatMap SharedMem.fds).Nodup)
    (hbacks : ∀ m ∈ shares, ∀ fd ∈ m.fds, ∃ object, (fd, object) ∈ entries ∧
      m.size.toNat ≤ w.sizes object) :
    Sound { w with fds := w.fds.put entries, shares := w.shares ++ shares } := by
  refine ⟨fun fd object hfd => ?_, ?_, fun m hm => ?_⟩
  · rcases Registry.put_cases hfd with hfd | hfd
    · exact h.exist fd object hfd
    · exact hobjects _ hfd
  · unfold owned
    rw [List.flatMap_append]
    refine h.nodup.append hnodup fun fd hold hnew => ?_
    exact h.notMem_owned hfree (hkeys fd hnew) hold
  · intro fd hfd
    rcases List.mem_append.mp hm with hm | hm
    · obtain ⟨object, hobject, hsize⟩ := h.backs m hm fd hfd
      exact ⟨object, Registry.put_of_eq_some hfree hobject, hsize⟩
    · obtain ⟨object, hmem, hsize⟩ := hbacks m hm fd hfd
      exact ⟨object, Registry.put_of_mem hmem hfree.1, hsize⟩

/-- What is new belongs to no handle. -/
theorem Sound.put (h : w.Sound) {entries : List (RawFd × Nat)}
    (hfree : w.fds.Free (entries.map Prod.fst)) (hobjects : ∀ x ∈ entries, x.2 < w.objects) :
    Sound { w with fds := w.fds.put entries } := by
  have hgain := h.gain entries [] hfree hobjects nofun List.nodup_nil nofun
  rwa [List.append_nil] at hgain

/-- Some handles are given up. -/
theorem Sound.give (h : w.Sound) {shares : List (SharedMem p)} (hshares : shares.Sublist w.shares) :
    Sound { w with shares } :=
  ⟨h.exist, h.nodup.sublist (hshares.flatMap _), fun m hm => h.backs m (hshares.subset hm)⟩

/-- What no handle owns may be closed. -/
theorem Sound.close (h : w.Sound) {fds : List RawFd} (hnot : ∀ fd ∈ fds, fd ∉ w.owned) :
    Sound { w with fds := w.fds.close fds } := by
  refine ⟨fun fd object hfd => h.exist fd object (Registry.of_close hfd), h.nodup,
    fun m hm fd hfd => ?_⟩
  have howned : fd ∈ w.owned := List.mem_flatMap.mpr ⟨m, hm, hfd⟩
  dsimp only
  rw [Registry.close_of_notMem fun hmem => hnot fd hmem howned]
  exact h.backs m hm fd hfd

end Descriptors

/-! ## Objects -/

/-- A new object is none that a descriptor refers to. -/
theorem Sound.create (h : w.Sound) (size : Nat) :
    Sound { w with
      sizes := Function.update w.sizes w.objects size
      objects := w.objects + 1 } := by
  refine ⟨fun fd object hfd => Nat.lt_succ_of_lt (h.exist fd object hfd), h.nodup,
    fun m hm fd hfd => ?_⟩
  obtain ⟨object, hobject, hsize⟩ := h.backs m hm fd hfd
  refine ⟨object, hobject, ?_⟩
  dsimp only
  rwa [Function.update_of_ne (Nat.ne_of_lt (h.exist fd object hobject))]

theorem Sound.truncate (h : w.Sound) {object size : Nat}
    (hfits : ∀ m ∈ w.shares, ∀ fd ∈ m.fds, w.fds fd = some object → m.size.toNat ≤ size) :
    Sound { w with sizes := Function.update w.sizes object size } := by
  refine ⟨h.exist, h.nodup, fun m hm fd hfd => ?_⟩
  obtain ⟨object', hobject, hsize⟩ := h.backs m hm fd hfd
  refine ⟨object', hobject, ?_⟩
  dsimp only
  by_cases hsame : object' = object
  · subst hsame
    rw [Function.update_self]
    exact hfits m hm fd hfd hobject
  · rwa [Function.update_of_ne hsame]

/-! ## Handles -/

variable {T : Type} [DecidableEq E]

omit [DecidableEq E] in
theorem Sound.new (h : w.Sound) {size : Usize p} {answers : NewAnswers}
    (hs : w.new size answers = some w') : w'.Sound := by
  unfold Host.new at hs
  cases hnew : SharedMem.new size answers with
  | error e =>
    rw [hnew] at hs
    obtain rfl := Option.some.inj hs
    exact h
  | ok m =>
    rw [hnew] at hs
    obtain ⟨rwFd, roFd, rfl⟩ := SharedMem.new_ok hnew
    obtain ⟨hfree, hs⟩ := Option.ite_none_right_eq_some.mp hs
    obtain rfl := Option.some.inj hs
    -- `ftruncate` has made the object as large as the handle says
    refine (h.create size.toNat).gain ([rwFd, roFd].map (·, w.objects)) [⟨some rwFd, roFd, size⟩]
      hfree (fun x hx => ?_) (fun fd hfd => hfd) hfree.1 fun m hm fd hfd => ?_
    · obtain ⟨fd, -, rfl⟩ := List.mem_map.mp hx
      exact Nat.lt_succ_self _
    · obtain rfl := List.mem_singleton.mp hm
      refine ⟨w.objects, List.mem_map.mpr ⟨fd, hfd, rfl⟩, ?_⟩
      dsimp only
      rw [Function.update_self]

omit [DecidableEq E] in
/-- Duplicates refer to objects that are there. -/
theorem Sound.copied (h : w.Sound) {copies : List (RawFd × RawFd)} :
    ∀ x ∈ w.fds.copied id copies, x.2 < w.objects := by
  intro x hx
  obtain ⟨c, -, object, hobject, rfl⟩ := Registry.of_mem_copied hx
  exact h.exist c.1 object hobject

omit [DecidableEq E] in
theorem Sound.cloneWithAccess (h : w.Sound) {m : SharedMem p} {access : Access}
    {dup : Nat → Except IoError RawFd} (hs : w.cloneWithAccess m access dup = some w') :
    w'.Sound := by
  unfold Host.cloneWithAccess at hs
  rcases hclone : m.clone dup access with ⟨result, copies⟩
  rw [hclone] at hs
  obtain ⟨⟨hm, hcan⟩, hs⟩ := Option.ite_none_right_eq_some.mp hs
  obtain rfl := Option.some.inj hs
  have hfree : w.fds.Free ((w.fds.copied id copies).map Prod.fst) := Registry.free_copied hcan
  cases result with
  | error e =>
    have hput := h.put hfree h.copied
    rw [← List.append_nil w.shares] at hput
    exact hput
  | ok m' =>
    obtain ⟨hfds, hsize⟩ := SharedMem.fds_of_clone hclone
    have hkeys : (w.fds.copied id copies).map Prod.fst = [m'].flatMap SharedMem.fds := by
      rw [Registry.fst_copied hcan.1, List.flatMap_singleton, hfds]
    refine h.gain (w.fds.copied id copies) [m'] hfree h.copied (fun fd hfd => by rwa [hkeys])
      (by rw [← hkeys]; exact hfree.1) fun m'' hm'' fd hfd => ?_
    -- a duplicate refers to the object of the descriptor it was made of
    obtain rfl := List.mem_singleton.mp hm''
    rw [hfds] at hfd
    obtain ⟨c, hc, rfl⟩ := List.mem_map.mp hfd
    have howned : c.1 ∈ m.fds := SharedMem.mem_fds_of_clone (by rw [hclone]; exact hc)
    obtain ⟨object, hobject, hle⟩ := h.backs m hm c.1 howned
    refine ⟨object, Registry.mem_copied hc hobject, ?_⟩
    rw [hsize]
    exact hle

omit [DecidableEq E] in
/-- The descriptors of a handle are not those of the other handles. -/
theorem Sound.drop (h : w.Sound) {m : SharedMem p} (hm : m ∈ w.shares) :
    Sound { w with fds := w.fds.close m.fds, shares := w.shares.erase m } := by
  refine (h.give List.erase_sublist).close fun fd hfd howned => ?_
  have hperm : w.owned.Perm (m.fds ++ (w.shares.erase m).flatMap SharedMem.fds) :=
    (List.perm_cons_erase hm).flatMap_right SharedMem.fds
  exact (List.nodup_append.mp (hperm.nodup_iff.mp h.nodup)).2.2 fd hfd fd howned rfl

/-! ## Slices -/

omit [DecidableEq E] in
theorem Backs.exposes {m : SharedMem p} (h : w.Backs m) {b : Build} {page : PageSize p}
    {mmap : Mmap p} {range : RangeArgument p} {access : Access} {map : SharedMemMap p}
    (hmap : m.map b page mmap range access = .ok map) :
    w.Exposes m access map ⟨map.pointer, map.len⟩ := by
  obtain ⟨prot, fd, _, _, hprot, -⟩ := SharedMem.map_ok hmap
  obtain ⟨object, hobject, hsize⟩ := h fd (SharedMem.mem_fds_of_protection hprot)
  refine ⟨prot, fd, object, hprot, hobject, fun k hk => ?_⟩
  exact Nat.lt_of_lt_of_le (Nat.add_lt_add_left hk _)
    (Nat.le_trans (SharedMem.window_le hmap) hsize)

omit [DecidableEq E] in
theorem Sound.backed (h : w.Sound) : w.Backed := by
  refine ⟨h.backs, fun m hm b page mmap range access map hmap => (h.backs m hm).exposes hmap,
    fun m hm b page mmap map slice hread => ?_,
    fun m hm b page mmap readToEnd bytes slice hbytes hderef => ?_⟩
  · obtain ⟨hmap, rfl⟩ := SendableDataSource.window_of_toRead hread
    exact (h.backs m hm).exposes hmap
  · obtain ⟨map, hmap, hshared, rfl⟩ := SendableDataSource.window_of_toBytes hbytes hderef
    exact ⟨map, hshared, (h.backs m hm).exposes hmap⟩

end Host

/-! ## Receiving -/

/-- What the handles in a message own are the descriptors of its shared memory. -/
theorem Field.owned_shares (fields : List (Field p RawFd)) :
    (fields.filterMap share).flatMap SharedMem.fds = fields.flatMap backing := by
  induction fields with
  | nil => rfl
  | cons f fields ih =>
    cases f with
    | plain | fd => exact ih
    | memory rw ro size token => exact congrArg ((rw.toList ++ [ro]) ++ ·) ih

theorem Field.Rel.backing {D D' : Type} {S : D → D' → Prop} {f : Field p D} {f' : Field p D'}
    (h : f.Rel S f') : List.Forall₂ S f.backing f'.backing := by
  cases f with
  | plain bytes =>
    cases f' with
    | plain => exact .nil
    | memory | fd => exact h.elim
  | memory rw ro size token =>
    cases f' with
    | plain | fd => exact h.elim
    | memory rw' ro' size' token' =>
      obtain ⟨hrw, hro, -⟩ := h
      cases hrw with
      | none => exact .cons hro .nil
      | some hrw => exact .cons hrw (.cons hro .nil)
  | fd d =>
    cases f' with
    | plain | memory => exact h.elim
    | fd d' => exact .nil

theorem Field.backing_rel {D D' : Type} {S : D → D' → Prop} {fields : List (Field p D)}
    {fields' : List (Field p D')} (h : List.Forall₂ (Rel S) fields fields') :
    List.Forall₂ S (fields.flatMap Field.backing) (fields'.flatMap Field.backing) := by
  induction h with
  | nil => exact .nil
  | cons hrel _ ih => exact List.rel_append hrel.backing ih

/-- Entries at different indices are different. -/
theorem nodup_of_indices {l fds : List RawFd} {indices : List Nat}
    (h : List.Forall₂ (fun fd i => l[i]? = some fd) fds indices) (hl : l.Nodup)
    (hindices : indices.Nodup) : fds.Nodup := by
  induction h with
  | nil => exact List.nodup_nil
  | @cons fd i fds indices hfd hrest ih =>
    obtain ⟨hi, hindices⟩ := List.nodup_cons.mp hindices
    refine List.nodup_cons.mpr ⟨fun hmem => ?_, ih hindices⟩
    obtain ⟨j, hj, hget⟩ := exists_of_forall₂ hrest hmem
    obtain ⟨hlt, -⟩ := List.getElem?_eq_some_iff.mp hfd
    obtain rfl := (List.getElem?_inj hlt hl).mp (hfd.trans hget.symm)
    exact hi hj

section Receiving

variable {T : Type} (encode : T → Encoder) {reader : Reader} {w : Host E libc p} {s : State libc}
  {r : ReadAnswers} {answers : Nat → FcntlAnswers} {sizes : Nat → Nat} {objects : List Nat}
  {d : Datagram}

/-- A handle that is received refers to objects that are as large as it says. -/
theorem backs_of_received (hlength : d.fds.length = objects.length)
    {fields : List (Field p RawFd)} {named : List (Field p Nat)}
    (hrel : List.Forall₂ (Field.Rel fun fd i => d.fds[i]? = some fd) fields named)
    (hsized : ∀ f ∈ named, f.Fits sizes objects) {m : SharedMem p}
    (hm : m ∈ fields.filterMap Field.share) {fd : RawFd} (hfd : fd ∈ m.fds) :
    ∃ object, (fd, object) ∈ d.fds.zip objects ∧ m.size.toNat ≤ sizes object := by
  obtain ⟨f, hf, hshare⟩ := List.mem_filterMap.mp hm
  obtain ⟨f', hf', hpair⟩ := exists_of_forall₂ hrel hf
  have hfits := hsized f' hf'
  cases f with
  | plain | fd => cases hshare
  | memory rw ro size token =>
    obtain rfl := Option.some.inj hshare
    cases f' with
    | plain | fd => exact hpair.elim
    | memory rw' ro' size' token' =>
      obtain ⟨i, hi, hget⟩ := exists_of_forall₂ hpair.backing hfd
      obtain ⟨-, -, rfl, -⟩ := hpair
      obtain ⟨hlt, -⟩ := List.getElem?_eq_some_iff.mp hget
      rw [hlength] at hlt
      have hobject : objects[i]? = some objects[i] := List.getElem?_eq_getElem hlt
      exact ⟨objects[i], List.mem_of_getElem? (List.getElem?_zip_eq_some.mpr ⟨hget, hobject⟩),
        hfits i hi _ hobject⟩

variable [Bincode]

/-- What is handed out has come with the datagram, or no handle has it. -/
theorem handed_of_fits (hd : r.outcome = some (.ok d))
    (hfits : reader.Fits answers w s objects d) {fd : RawFd}
    (hfd : fd ∈ handed (recvCalls encode (reader.decoder (p := p) []) (s, .poll r answers))) :
    fd ∈ d.fds ∨ fd ∉ w.owned := by
  obtain ⟨c, hc, hresult⟩ := List.mem_filterMap.mp hfd
  have hok : c.result = .ok fd := by
    cases hr : c.result with
    | error e =>
      rw [hr] at hresult
      cases hresult
    | ok fd' =>
      rw [hr] at hresult
      exact congrArg Except.ok (Option.some.inj hresult)
  by_cases hne : d.bytes.take s.channel.rxBuffer.length = []
  · rw [recvCalls_of_nothing fun d' hd' => by
      obtain rfl := Except.ok.inj (Option.some.inj (hd.symm.trans hd'))
      exact hne] at hc
    cases hc
  · rw [recvCalls_of_datagram hd hne] at hc
    have hvisible := visible_of_datagram s.channel.io.cmsg d
    by_cases hfds : d.fds = []
    · rw [if_pos hfds] at hvisible
      have htakes := hfits.own hfds hne
      rw [← hvisible, Decoder.takes_iff] at htakes
      exact .inr (htakes.1 c hc fd hok)
    · rw [if_neg hfds] at hvisible
      have hget := Decoder.visible_of_mem hc hok
      rw [hvisible] at hget
      exact .inl (List.mem_of_getElem? hget)

/-- The fields of a message that is handed over, by the indices in its bytes, unless there is no
shared memory in it. -/
theorem describes_of_received (hd : r.outcome = some (.ok d))
    (hfits : reader.Fits answers w s objects d) {fields : List (Field p RawFd)}
    (h : s.received (reader.decoder []) r answers = some fields) :
    fields.filterMap Field.share = [] ∨ ∃ named : List (Field p Nat),
      reader.Describes (d.bytes.take s.channel.rxBuffer.length) d.fds.length named ∧
      List.Forall₂ (Field.Rel fun fd i => d.fds[i]? = some fd) fields named := by
  obtain ⟨hne, hrun⟩ := State.received_of_datagram hd h
  have hvisible := visible_of_datagram s.channel.io.cmsg d
  by_cases hfds : d.fds = []
  · rw [if_pos hfds] at hvisible
    have htakes := hfits.own hfds hne
    rw [← hvisible, Decoder.takes_iff] at htakes
    exact .inl (htakes.2 fields hrun)
  · rw [if_neg hfds] at hvisible
    obtain ⟨back, named, hindices, rfl, -, hrel⟩ :=
      Reader.hands_indices reader ([] : List (Field p RawFd)) _ 0 fields hrun
    rw [hvisible] at hrel
    refine .inr ⟨named, ⟨hindices, fun i hi => ?_⟩, hrel⟩
    obtain ⟨fd, -, hget⟩ := exists_of_forall₂ (Field.descriptors_rel hrel).1.flip hi
    exact (List.getElem?_eq_some_iff.mp hget).1

end Receiving

namespace Host

section Calls

variable {w w' : Host E libc p} {T : Type} [DecidableEq E] {e : E}

theorem Sound.setLink (h : w.Sound) (s : State libc) : (w.setLink e s).Sound :=
  ⟨h.exist, h.nodup, h.backs⟩

variable [Bincode] {encode : E → T → Encoder} {reader : E → Reader}

theorem Sound.transmit (h : w.Sound) {a : Unix.Act T}
    (hs : w.transmit encode reader e a = some w') : w'.Sound := by
  obtain ⟨hcan, hs⟩ := Option.ite_none_right_eq_some.mp hs
  obtain rfl := Option.some.inj hs
  exact (h.setLink _).put (Registry.free_copied hcan) h.copied

theorem Sound.receive (h : w.Sound) {r : ReadAnswers} {answers : Nat → FcntlAnswers}
    {objects : List Nat} (hfits : ∀ d, r.outcome = some (.ok d) →
      (reader e).Fits answers w (w.link e) objects d)
    (hs : w.receive encode reader e r answers objects = some w') : w'.Sound := by
  unfold Host.receive at hs
  dsimp only at hs
  split at hs
  · next d hd =>
    obtain ⟨⟨hlength, hobjects, hfree⟩, hs⟩ := Option.ite_none_right_eq_some.mp hs
    have hkeys : (d.fds.zip objects).map Prod.fst = d.fds :=
      List.map_fst_zip (Nat.le_of_eq hlength)
    have hobjects : ∀ x ∈ d.fds.zip objects, x.2 < w.objects :=
      fun x hx => hobjects x.2 (List.of_mem_zip hx).2
    rw [← hkeys] at hfree
    cases hreceived : (w.link e).received (decode reader e) r answers with
    | none =>
      -- what has been made of the message is given up again
      rw [hreceived] at hs
      obtain rfl := Option.some.inj hs
      refine ((h.setLink _).put hfree hobjects).close fun fd hfd => ?_
      rcases handed_of_fits (encode e) hd (hfits d hd) hfd with hmem | hnot
      · refine h.notMem_owned hfree ?_
        rwa [hkeys]
      · exact hnot
    | some fields =>
      rw [hreceived] at hs
      obtain rfl := Option.some.inj hs
      rcases describes_of_received hd (hfits d hd) hreceived with hnone | ⟨named, hdescribes, hrel⟩
      · rw [hnone, List.append_nil]
        exact ((h.setLink _).put hfree hobjects).setFiles _
      · have hbacking := Field.backing_rel hrel
        rw [← Field.owned_shares] at hbacking
        refine ((h.setLink _).gain (d.fds.zip objects) _ hfree hobjects (fun fd hfd => ?_) ?_
          fun m hm fd hfd => ?_).setFiles _
        · obtain ⟨i, -, hget⟩ := exists_of_forall₂ hbacking hfd
          rw [hkeys]
          exact List.mem_of_getElem? hget
        · rw [hkeys] at hfree
          exact nodup_of_indices hbacking hfree.1 ((hfits d hd).distinct named hdescribes)
        · exact backs_of_received hlength hrel ((hfits d hd).sized named hdescribes) hm hfd
  · obtain rfl := Option.some.inj hs
    exact h.setLink _

/-! ## Runs -/

theorem Sound.step (h : w.Sound) {a : Act E T p} (hfits : Fits reader (w, a))
    (hs : w.step encode reader a = some w') : w'.Sound := by
  cases a with
  | new size answers => exact h.new hs
  | cloneWithAccess m access dup => exact h.cloneWithAccess hs
  | drop m =>
    obtain ⟨hm, hs⟩ := Option.ite_none_right_eq_some.mp hs
    obtain rfl := Option.some.inj hs
    exact h.drop hm
  | obtain fd object =>
    obtain ⟨⟨hfree, hobject⟩, hs⟩ := Option.ite_none_right_eq_some.mp hs
    obtain rfl := Option.some.inj hs
    have hput : Sound { w with fds := w.fds.put [(fd, object)] } := by
      refine h.put hfree fun x hx => ?_
      obtain rfl := List.mem_singleton.mp hx
      exact hobject
    exact hput.setFiles _
  | close fd =>
    obtain ⟨-, hs⟩ := Option.ite_none_right_eq_some.mp hs
    obtain rfl := Option.some.inj hs
    refine (h.close fun fd' hfd' => ?_).setFiles _
    obtain rfl := List.mem_singleton.mp hfd'
    exact hfits
  | create size =>
    obtain rfl := Option.some.inj hs
    exact h.create size
  | truncate object size =>
    obtain rfl := Option.some.inj hs
    exact h.truncate hfits
  | startSend e item wa answers => exact h.transmit hs
  | pollComplete e wa =>
    have hs : w.transmit encode reader e (.pollComplete wa) = some w' := hs
    exact h.transmit hs
  | poll e r answers objects => exact h.receive hfits hs

theorem sound_of_run {h : List (Host E libc p × Act E T p)} (hr : Run (system encode reader) h w)
    (hfits : ∀ x ∈ h, Fits reader x) : w.Sound := by
  refine hr.invariant_of (Fits reader) Sound ?_ ?_ hfits
  · rintro w ⟨hshares, -, -, hexist⟩
    have howned : w.owned = [] := by
      unfold owned
      rw [hshares]
      rfl
    refine ⟨hexist, ?_, fun m hm => ?_⟩
    · rw [howned]
      exact List.nodup_nil
    · rw [hshares] at hm
      cases hm
  · intro w a w' h hfits hs
    exact h.step hfits hs

/--
Every byte of shared memory that safe code can see is there.

This is so in every run in which each message describes the shared memory in it as it is, no file is
closed under a handle of the process, and no object is cut down below one.
-/
theorem backed_of_run {h : List (Host E libc p × Act E T p)} (hr : Run (system encode reader) h w)
    (hfits : ∀ x ∈ h, Fits reader x) : w.Backed := (sound_of_run hr hfits).backed

end Calls

/-! ## A message that boasts -/

open LittleEndian

/-- A `SendableDataSource::Memory` with the first descriptor, as it stands in a message. -/
def sourceBytes (size : Usize .w64) : List UInt8 :=
  [1, 0, 0, 0] ++ Field.wire 0 [.memory none () size .nil]

/-- The message arrives with one descriptor. -/
def brings (size : Usize .w64) (fd : RawFd) : ReadAnswers :=
  ⟨.ok true, .ok ⟨sourceBytes size, [fd], Nat.le_of_ble_eq_true rfl⟩, .ok ()⟩

/-- A process with a channel of sources. -/
def freshHost : Host Unit linux .w64 where
  fds fd := if 0 ≤ fd ∧ fd ≤ 3 then some 0 else none
  sizes _ := 0
  objects := 1
  shares := []
  files := [0, 1, 2, 3]
  link _ := freshChannel

def sources (_ : Unit) : Reader := SendableDataSource.reader

theorem init_freshHost : (system (fun _ => SendableFd.encode) sources).init freshHost := by
  refine ⟨rfl, by decide, by decide, fun fd object h => ?_⟩
  obtain ⟨-, h⟩ := Option.ite_none_right_eq_some.mp h
  obtain rfl := Option.some.inj h
  exact Nat.zero_lt_one

/-- An honest peer sends 8192 bytes of shared memory, which are cloned and extended. -/
theorem backed_honest : ∃ h, ∃ w : Host Unit linux .w64,
    Run (system (fun _ => SendableFd.encode) sources) h w ∧
    w.shares = [⟨some 4, 5, 4096⟩, ⟨none, 6, 8192⟩, ⟨none, 7, 8192⟩] ∧ w.Backed := by
  have hr : Run (system (fun _ => SendableFd.encode) sources) _ _ := Run.of_replay (s := freshHost)
    [.new 4096 ⟨.ok 4, .ok 5, .ok (), .ok ()⟩, .create 8192,
      .poll () (brings 8192 6) accepting [2],
      .cloneWithAccess ⟨none, 6, 8192⟩ .read fun _ => .ok 7, .truncate 2 16384]
    init_freshHost rfl
  refine ⟨_, _, hr, rfl, backed_of_run hr ?_⟩
  intro x hx
  rcases List.mem_cons.mp hx with rfl | hx
  · trivial
  rcases List.mem_cons.mp hx with rfl | hx
  · trivial
  rcases List.mem_cons.mp hx with rfl | hx
  · -- the bytes name the descriptor once, with the size of its object
    intro d hd
    obtain rfl : ⟨sourceBytes 8192, [6], Nat.le_of_ble_eq_true rfl⟩ = d :=
      Except.ok.inj (Option.some.inj hd)
    have hnamed : ∀ named : List (Field .w64 Nat), SendableDataSource.reader.Describes
        ((sourceBytes 8192).take 64) 1 named →
        [.plain [1, 0, 0, 0], .memory none 0 8192 .nil] = named :=
      fun named h => Option.some.inj h.1
    refine ⟨nofun, fun named h => ?_, fun named h f hf => ?_⟩
    · obtain rfl := hnamed named h
      exact List.nodup_singleton 0
    · obtain rfl := hnamed named h
      rcases List.mem_cons.mp hf with rfl | hf
      · trivial
      · obtain rfl := List.mem_singleton.mp hf
        intro i hi object hobject
        obtain rfl := List.mem_singleton.mp hi
        obtain rfl := Option.some.inj hobject
        decide
  rcases List.mem_cons.mp hx with rfl | hx
  · trivial
  · obtain rfl := List.mem_singleton.mp hx
    have hsmall : ∀ m ∈ [(⟨some 4, 5, 4096⟩ : SharedMem .w64), ⟨none, 6, 8192⟩, ⟨none, 7, 8192⟩],
        m.size.toNat ≤ 16384 := by decide
    exact fun m hm _ _ _ => hsmall m hm

/-- A peer sends an object of one byte and claims that it has 2 ^ 40. -/
def boasts : List (Act Unit RawFd .w64) := [.create 1, .poll () (brings 0x10000000000 4) accepting [1]]

def boastRun : List (Host Unit linux .w64 × Act Unit RawFd .w64) × Host Unit linux .w64 :=
  ((system (fun _ => SendableFd.encode) sources).replay freshHost boasts).getD ([], freshHost)

def boast : SharedMem .w64 := ⟨none, 4, 0x10000000000⟩

def fourKiB : PageSize .w64 := ⟨4096, by decide⟩

def atPage (_ : MmapArgs .w64) : Except IoError (Usize .w64) := .ok 0x7f0000000000

/-- The claim is believed: the slice that `to_bytes` gives has 2 ^ 40 bytes. -/
theorem boast_exposed : Run (system (fun _ => SendableFd.encode) sources) boastRun.1 boastRun.2 ∧
    boastRun.2.shares = [boast] ∧ boastRun.2.fds 4 = some 1 ∧ boastRun.2.sizes 1 = 1 ∧
    (∃ bytes slice, (SendableDataSource.memory boast).toBytes .release fourKiB atPage
        (fun _ => .ok []) = .ok bytes ∧ bytes.deref = .inr slice ∧ slice.len.toNat = 2 ^ 40) ∧
    ¬ boastRun.2.Backed := by
  refine ⟨Run.of_replay boasts init_freshHost rfl, rfl, rfl, rfl, ⟨_, _, rfl, rfl, rfl⟩,
    fun hbacked => ?_⟩
  obtain ⟨object, hobject, hle⟩ := hbacked.shares boast (.head _) 4 (.head _)
  obtain rfl : 1 = object := Option.some.inj hobject
  have hsize : boastRun.2.sizes 1 = 1 := rfl
  rw [hsize] at hle
  exact absurd hle (by decide)

end Host

end SandboxIpc.Unix
