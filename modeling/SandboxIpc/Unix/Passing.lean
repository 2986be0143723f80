import SandboxIpc.Unix.Descent
import Mathlib.Data.List.Pairwise

/-!
# Handles in messages

* `rel_received` — a message is received as it was sent, with the descriptors that have come with it
* `Link.Sound.transmit` — an item that is accepted is sent with what it is entitled to
* `Link.Clean` — what is left in the control buffer does no harm to read-only handles
* `World.sound_of_run` — the invariant in every run in which it is so whenever a message is taken
-/

namespace SandboxIpc.Unix

open Infra

variable {libc : Libc} {p : PointerWidth}

variable {P E : Type}

/-! ## Descriptors that arrive -/

namespace Descriptors

variable {t : Descriptors} {shares : List (Share p)} {fd : RawFd}

theorem claim_of_notMem (h : ∀ s ∈ shares, fd ∉ s.inner.fds) : t.claim shares fd = t fd := by
  unfold claim
  rw [List.find?_eq_none.mpr]
  intro s hs hfd
  exact h s hs (of_decide_eq_true hfd)

theorem claim_of_mem {s : Share p} {keeper : Keeper} {d : Description}
    (hdistinct : (shares.flatMap fun s => s.inner.fds).Nodup) (hs : s ∈ shares)
    (hfd : fd ∈ s.inner.fds) (h : Refers t keeper fd d) :
    Refers (t.claim shares) (.share s.id) fd d := by
  have hdisjoint := (List.nodup_flatMap.mp hdistinct).2
  unfold Refers claim
  cases hfind : shares.find? fun s => fd ∈ s.inner.fds with
  | none => exact absurd (decide_eq_true hfd) (List.find?_eq_none.mp hfind s hs)
  | some s' =>
    have hs' : s' ∈ shares := List.mem_of_find?_eq_some hfind
    have hfd' : fd ∈ s'.inner.fds := by simpa using List.find?_some hfind
    obtain rfl : s = s' := by
      by_contra hne
      have : Std.Symm (Function.onFun List.Disjoint fun s : Share p => s.inner.fds) :=
        ⟨fun _ _ h => h.symm⟩
      exact hdisjoint.forall hs hs' hne hfd hfd'
    dsimp only
    rw [show t fd = some ⟨d, keeper⟩ from h]
    rfl

theorem fst_arrived {fds : List RawFd} {ds : List Description} (h : fds.length = ds.length) :
    (arrived fds ds).map Prod.fst = fds :=
  List.map_fst_zip (Nat.le_of_eq (h.trans (List.length_map _).symm))

theorem mem_arrived {fds : List RawFd} {ds : List Description} {d : Description}
    (h : Seen fds ds fd d) : (fd, (⟨d, .user⟩ : Slot)) ∈ arrived fds ds := by
  obtain ⟨i, hfd, hd⟩ := h
  refine List.mem_of_getElem? (i := i) (List.getElem?_zip_eq_some.mpr ⟨hfd, ?_⟩)
  rw [List.getElem?_map, hd]
  rfl

end Descriptors

/-! ## Descriptors that are sent -/

theorem descriptions_of_refers {t : Descriptors} {keeper : Keeper} {fds : List RawFd} {ds : List Description}
    (h : List.Forall₂ (Refers t keeper) fds ds) : t.descriptions fds = ds := by
  induction h with
  | nil => rfl
  | cons hrefers _ ih =>
    unfold Descriptors.descriptions at ih ⊢
    rw [List.filterMap_cons, show t _ = some _ from hrefers, ih]
    rfl

/-- Each of these descriptors has its description. -/
theorem Descriptors.descriptions_drop {t : Descriptors} {fds : List RawFd} (hopen : ∀ fd ∈ fds, (t fd).isSome)
    (k : Nat) : (t.descriptions fds).drop k = t.descriptions (fds.drop k) := by
  induction fds generalizing k with
  | nil => rw [List.drop_nil, show t.descriptions [] = [] from rfl, List.drop_nil]
  | cons fd fds ih =>
    obtain ⟨slot, hslot⟩ := Option.isSome_iff_exists.mp (hopen fd (.head _))
    have hcons : t.descriptions (fd :: fds) = slot.description :: t.descriptions fds := by
      unfold descriptions
      rw [List.filterMap_cons, hslot]
      rfl
    cases k with
    | zero => rfl
    | succ k =>
      rw [hcons, List.drop_succ_cons, List.drop_succ_cons]
      exact ih (fun fd hfd => hopen fd (.tail _ hfd)) k

/-! ## Receiving -/

variable [Bincode]

/-- The fields of a message that is handed over are those that were sent, with descriptors that have
come with it. -/
theorem rel_received {net : Net P E} {e : E} {s : State libc} {r : ReadAnswers}
    {answers : Nat → FcntlAnswers} {d : Datagram} (hd : r.outcome = some (.ok d)) {q : Parcel p}
    (hq : q.Honest (net.reader e)) (hbytes : d.bytes = q.bytes)
    (hlength : d.fds.length = q.descriptions.length) {fields : List (Field p RawFd)}
    (hfields : net.received e s r answers = fields) :
    fields = [] ∨ (List.Forall₂ (Field.Rel (Seen d.fds q.descriptions)) fields q.origin ∧
      (Field.descriptors fields).Sublist d.fds) := by
  subst hfields
  unfold Net.received
  cases hreceived : s.received (net.decode e) r answers with
  | none => exact .inl rfl
  | some fields =>
    right
    rw [Option.getD_some]
    obtain ⟨-, hresult⟩ := State.received_of_datagram hd hreceived
    rw [hbytes, hq.bytes] at hresult
    have hsmall : q.descriptions.length ≤ 2 ^ 64 := by
      rw [← hlength]
      exact Nat.le_trans d.fds_le (by decide)
    have hyields : ((net.reader e).decoder []
        ((Field.wire (Field.descriptors q.origin).length q.origin).take
          s.channel.rxBuffer.length)).Yields answers (.ofCmsg (s.channel.io.cmsg.recvmsg (.ok d)))
        (Reader.ReadBack _ q.descriptions _ [] q.origin) :=
      Reader.yields_wire hq.accepts hsmall hq.named [] s.channel.rxBuffer.length
    obtain ⟨back, rfl, hrel, hsub⟩ := hyields 0 fields hresult
    rw [visible_of_datagram] at hrel hsub
    by_cases hfds : d.fds = []
    · -- leftovers are in sight, but a message without descriptors names none
      have hnone : q.descriptions = [] := by
        rw [hfds] at hlength
        exact List.length_eq_zero_iff.mp hlength.symm
      have hnever : ∀ {visible : List RawFd} fd d, ¬ Seen visible q.descriptions fd d := by
        rintro visible fd d ⟨i, -, hget⟩
        rw [hnone] at hget
        cases hget
      refine ⟨hrel.imp fun f f' h => h.imp fun fd _ d hseen => absurd hseen (hnever fd d), ?_⟩
      have hempty : Field.descriptors q.origin = [] := by
        have hnamed := hq.named
        rw [hnone, List.drop_nil] at hnamed
        exact List.prefix_nil.mp hnamed
      have hall := (Field.descriptors_rel hrel).1
      rw [hempty] at hall
      rw [List.forall₂_nil_right_iff.mp hall]
      exact List.nil_sublist _
    · rw [if_neg hfds] at hrel hsub
      exact ⟨hrel, hsub.trans (List.drop_sublist _ _)⟩

/-- What handles are made of the fields of a message. -/
theorem adopt_spec {ds : List Description} {fds : List RawFd} {fields : List (Field p RawFd)}
    {origin : List (Field p Description)} (h : List.Forall₂ (Field.Rel (Seen fds ds)) fields origin)
    (hmade : Made origin) (id : Nat) :
    (∀ s ∈ adopt id fields origin, s.field.Rel (Seen fds ds) s.origin) ∧
    ((adopt id fields origin).flatMap fun s => s.inner.fds).Sublist (Field.descriptors fields) := by
  induction h generalizing id with
  | nil => exact ⟨nofun, .slnil⟩
  | @cons f f' fields origin hrel _ ih =>
    have hmade' : Made origin := fun f hf => hmade f (.tail _ hf)
    cases f with
    | plain bytes =>
      cases f' with
      | plain bytes' => exact ih hmade' id
      | memory | fd => exact hrel.elim
    | fd d =>
      cases f' with
      | fd d' =>
        obtain ⟨hshares, hsub⟩ := ih hmade' id
        exact ⟨hshares, hsub.cons d⟩
      | plain | memory => exact hrel.elim
    | memory rw ro size token =>
      cases f' with
      | memory rw' ro' size' token' =>
        obtain ⟨hshares, hsub⟩ := ih hmade' (id + 1)
        obtain ⟨c, hc⟩ := hmade _ (.head _)
        cases c with
        | plain | fd => cases hc
        | share s =>
          -- the descent of the new handle is that of the handle that was sent
          obtain ⟨rfl, rfl, rfl, rfl⟩ := Field.memory.inj hc
          have hrw : (if (if s.readOnly then none else some (Description.memory s.object true)).isNone
              then none else some (Description.memory s.object true))
              = if s.readOnly then none else some (Description.memory s.object true) := by
            cases s.readOnly <;> rfl
          obtain ⟨hrelRw, hrelRo, -⟩ := hrel
          refine ⟨fun s' hs' => ?_, ?_⟩
          · rcases List.mem_cons.mp hs' with rfl | hs'
            · exact ⟨hrw.symm ▸ hrelRw, hrelRo, rfl, rfl⟩
            · exact hshares s' hs'
          · rw [Field.descriptors_cons, Field.resources_memory]
            exact hsub.append_left _
      | plain | fd => exact hrel.elim

/-- A process gets what has arrived with a message, and the handles that are made of it. -/
theorem Peer.Sound.leads_receive {peer : Peer p} (h : peer.Sound) {fds : List RawFd}
    {ds : List Description} (hlength : fds.length = ds.length) (hfree : peer.fds.Free fds)
    {shares : List (Share p)}
    (hrel : ∀ s ∈ shares, s.field.Rel (Seen fds ds) s.origin)
    (hsub : (shares.flatMap fun s => s.inner.fds).Sublist fds) :
    peer.Leads ⟨Descriptors.claim (peer.fds.put (Descriptors.arrived fds ds)) shares,
      peer.shares ++ shares, peer.made + shares.length⟩ := by
  have hslots : peer.fds.Free ((Descriptors.arrived fds ds).map Prod.fst) := by
    rwa [Descriptors.fst_arrived hlength]
  have hmem : ∀ s ∈ shares, ∀ fd ∈ s.inner.fds, fd ∈ fds := fun s hs fd hfd =>
    hsub.subset (List.mem_flatMap.mpr ⟨s, hs, hfd⟩)
  -- what was open before has another number
  have hkeeps : ∀ keeper fd d, Refers peer.fds keeper fd d →
      Refers (Descriptors.claim (peer.fds.put (Descriptors.arrived fds ds)) shares) keeper fd d := by
    intro keeper fd d hrefers
    have hout : ∀ s ∈ shares, fd ∉ s.inner.fds := by
      intro s hs hfd
      have hnone := hfree.2 fd (hmem s hs fd hfd)
      exact Option.some_ne_none _ (hrefers.symm.trans hnone)
    exact (Descriptors.claim_of_notMem hout).trans (Registry.put_of_eq_some hslots hrefers)
  refine ⟨fun s hs => ?_, hkeeps .message⟩
  rcases List.mem_append.mp hs with hs | hs
  · exact (h s hs).mono (hkeeps _)
  · refine (hrel s hs).imp fun fd hfd d hsee => ?_
    have hfd : fd ∈ s.inner.fds := by
      rwa [Share.field, Field.resources_memory] at hfd
    have harrived := Registry.put_of_mem (t := peer.fds) (Descriptors.mem_arrived hsee) hslots.1
    exact Descriptors.claim_of_mem (hfree.1.sublist hsub) hs hfd harrived

/-! ## Calls of a channel -/

/-- What the next `sendmsg` takes will do for the item, whatever earlier messages and the reads in
between have left there. `t` are the descriptors of the process. -/
structure Link.Clean (t : Descriptors) (link : Link libc p) (i : Item) : Prop where
  /-- The descriptors that the bytes name are in their places. -/
  named : i.message.fds.drop (Field.descriptors link.origin).length
    <+: link.state.channel.io.cmsg.rights.drop (Field.descriptors link.origin).length
  /-- None of the others makes an object writable that the item does not. -/
  writable : ∀ object, .memory object true ∈ t.descriptions link.state.channel.io.cmsg.rights →
    .memory object true ∈ Field.descriptors link.origin

section Calls

variable {net : Net P E} {e : E} {t t' : Descriptors} {link : Link libc p}

/-- A call that accepts nothing leaves the item as it is, but for the reads. -/
theorem Link.Sound.next (h : link.Sound net e t) {a : Net.Call p}
    (hnone : accepted (net.encode e) link.state a = none)
    (hkeeps : ∀ fd d, Refers t .message fd d → Refers t' .message fd d) (incoming : List (Parcel p)) :
    Link.Sound net e t' { link with
      state := net.next e link.state a
      item := Item.step (net.encode e) link.item (link.state, a)
      incoming } := by
  have hitem : ∀ i', Item.step (net.encode e) link.item (link.state, a) = some i' →
      ∃ i, link.item = some i ∧ i'.message = i.message := by
    intro i' hi'
    unfold Item.step at hi'
    dsimp only at hi'
    rw [hnone] at hi'
    obtain ⟨i, hi, rfl⟩ := Option.map_eq_some_iff.mp hi'
    exact ⟨i, hi, rfl⟩
  refine ⟨sized_next h.sized a, h.held.next a, fun i' hi' => ?_, fun i' hi' => ?_, fun i' hi' => ?_⟩
  · obtain ⟨i, hi, hmessage⟩ := hitem i' hi'
    rw [hmessage]
    exact ⟨(h.carries i hi).bytes, (h.carries i hi).fds.imp hkeeps⟩
  · obtain ⟨i, hi, -⟩ := hitem i' hi'
    exact h.made i hi
  · obtain ⟨i, hi, -⟩ := hitem i' hi'
    exact h.accepts i hi

/-- The kernel takes at most one message in a call. -/
theorem Net.taken_cases (net : Net P E) (e : E) (s : State libc) (a : Net.Call p) :
    net.taken e s a = [] ∨
      ∃ m, net.taken e s a = [m] ∧ Takes (net.encode e) (net.decode (p := p) e) (s, a) m := by
  have hflush : ∀ d, Flush s.channel d → d.io.socket.sent = s.channel.io.socket.sent ∨
      ∃ m, d.io.socket.sent = s.channel.io.socket.sent ++ [m] := by
    intro d hf
    cases hf with
    | kept => exact .inl rfl
    | taken => exact .inr ⟨_, rfl⟩
  have hsent : (net.next e s a).channel.io.socket.sent = s.channel.io.socket.sent ∨
      ∃ m, (net.next e s a).channel.io.socket.sent = s.channel.io.socket.sent ++ [m] := by
    have hmove := move_next (net.encode e) (net.decode (p := p) e) s a
    unfold Net.next
    generalize accepted (net.encode e) s a = acc at hmove
    generalize Unix.next (net.encode e) (net.decode (p := p) e) s a = s' at hmove
    cases hmove with
    | flush _ hf => exact hflush _ hf
    | @reject _ d _ _ hf _ => exact hflush d hf
    | @accept _ d _ _ _ _ _ hf _ _ => exact hflush d hf
    | poll => exact .inl rfl
  unfold Net.taken
  rcases hsent with heq | ⟨m, heq⟩
  · rw [heq]
    exact .inl List.drop_length
  · refine .inr ⟨m, ?_, heq⟩
    rw [heq]
    exact List.drop_left

/-- A message that the kernel takes is the item, with the descriptors that it names and none that the
object could be written through. -/
theorem Link.Sound.honest_of_takes (h : link.Sound net e t) {a : Net.Call p} {m : Message}
    (htakes : Takes (net.encode e) (net.decode (p := p) e) (link.state, a) m)
    (hopen : ∀ fd ∈ m.fds, (t fd).isSome)
    (hclean : ∀ i, link.item = some i → link.Clean t i) :
    Parcel.Honest (net.reader (net.other e)) ⟨m.bytes, t.descriptions m.fds, link.origin⟩ := by
  obtain ⟨n, hn, rfl⟩ := pending_of_takes htakes
  obtain ⟨i, -, -, hitem, hbytes, -⟩ := h.held n hn
  obtain ⟨hnamed, hwritable⟩ := hclean i hitem
  have hcarries := h.carries i hitem
  refine ⟨hbytes.trans hcarries.bytes, ?_, hwritable, h.made i hitem, h.accepts i hitem⟩
  have hlast := List.forall₂_drop (Field.descriptors link.origin).length hcarries.fds
  rw [List.drop_left] at hlast
  have hprefix : t.descriptions (i.message.fds.drop (Field.descriptors link.origin).length)
      <+: t.descriptions (link.state.channel.io.cmsg.rights.drop
        (Field.descriptors link.origin).length) := hnamed.filterMap _
  rw [descriptions_of_refers hlast] at hprefix
  dsimp only
  rwa [Descriptors.descriptions_drop hopen]

/-- An item that no read has disturbed is taken with nothing but its own descriptors. -/
theorem Link.Sound.clean_of_intact (h : link.Sound net e t) {n : Nat}
    (hn : link.state.channel.bufferedSend = some n) {i : Item} (hitem : link.item = some i)
    (hintact : i.Intact) : link.Clean t i := by
  obtain ⟨i', old, c, hitem', -, hset, hc⟩ := h.held n hn
  obtain rfl := Option.some.inj (hitem.symm.trans hitem')
  have hrights : link.state.channel.io.cmsg.rights = i.message.fds := by
    rw [hc]
    exact (i.rights_iff hset).mpr hintact
  refine ⟨?_, fun object hd => ?_⟩
  · rw [hrights]
  · rw [hrights, descriptions_of_refers (h.carries i hitem).fds] at hd
    exact (List.mem_append.mp hd).elim id id

/-- What a process has to send refers to what it is entitled to. -/
theorem rel_of_held {peer : Peer p} (hsound : peer.Sound) {item : List (Content p)}
    (hheld : ∀ c ∈ item, c.HeldBy peer) :
    List.Forall₂ (Field.Rel fun fd d => ∃ keeper, Refers peer.fds keeper fd d)
      (item.map Content.field) (item.map Content.origin) := by
  rw [List.forall₂_map_left_iff, List.forall₂_map_right_iff, List.forall₂_same]
  intro c hc
  have hc := hheld c hc
  cases c with
  | plain bytes => exact rfl
  | share s => exact (hsound s hc).imp fun fd _ d h => ⟨_, h⟩
  | fd fd => exact ⟨_, hc⟩

/-- A message that is accepted carries the descriptors of the item. -/
theorem carries_of_accepted {peer : Peer p} (hsound : peer.Sound) {s : State libc}
    (hsized : s.channel.Sized (net.limit e)) {a : Net.Call p} {m : Message} (hacc : accepted (net.encode e) s a = some m)
    (hheld : ∀ item ∈ a.item, ∀ c ∈ item, c.HeldBy peer)
    (hcan : peer.fds.CanCopy (net.copies e s a)) :
    ∃ item, a.item = some item ∧ m.Carries
      (peer.fds.put (peer.fds.copied .message (net.copies e s a))) (item.map Content.origin) := by
  obtain ⟨item, w, answers, writing, sender, rfl, hready, hrun, hsender, rfl⟩ := run_of_accepted hacc
  refine ⟨item, rfl, ?_⟩
  have hrel := rel_of_held hsound (hheld item rfl)
  obtain ⟨hdescriptors, hwire⟩ := Field.descriptors_rel hrel
  obtain ⟨hwritten, sender', hsender', hlength, hcopies⟩ := Encoder.copies_of_run hsized.length hrun
  obtain rfl := Option.some.inj (hsender.symm.trans hsender')
  have heq : net.copies e s (.startSend item w answers)
      = (net.encode e item).copies answers s.channel.txBuffer := by
    unfold Net.copies State.copies
    dsimp only
    rw [hready]
  have htwice := List.rel_append hdescriptors hdescriptors
  refine ⟨?_, ?_⟩
  · rw [← hdescriptors.length_eq, ← hwire]
    exact hwritten
  · refine forall₂_of_zip htwice hlength fun x hx d hd => ?_
    obtain ⟨keeper, hrefers⟩ := hd
    refine refers_copied hcan ?_ hrefers
    rw [heq]
    exact hcopies ▸ hx

end Calls

/-- An end of a channel after a call that may send. -/
theorem Link.Sound.transmit {net : Net P E} {e : E} {link : Link libc p} {peer : Peer p}
    (h : link.Sound net e peer.fds) (hsound : peer.Sound) {a : Net.Call p}
    (hheld : ∀ item ∈ a.item, ∀ c ∈ item, c.HeldBy peer)
    (haccepts : ∀ item ∈ a.item,
      (net.reader (net.other e)).accepts (item.map Content.origin) = true)
    (hcan : peer.fds.CanCopy (net.copies e link.state a)) :
    Link.Sound net e (peer.fds.put (peer.fds.copied .message (net.copies e link.state a))) { link with
      state := net.next e link.state a
      item := Item.step (net.encode e) link.item (link.state, a)
      origin := if (accepted (net.encode e) link.state a).isSome then
        (a.item.getD []).map Content.origin else link.origin } := by
  have hkeeps : ∀ fd d, Refers peer.fds .message fd d → Refers
      (peer.fds.put (peer.fds.copied .message (net.copies e link.state a))) .message fd d :=
    fun fd d => Registry.put_copied_of_eq_some hcan
  cases hacc : accepted (net.encode e) link.state a with
  | none => exact h.next hacc hkeeps link.incoming
  | some m =>
    obtain ⟨item, hitem, hcarries⟩ := carries_of_accepted hsound h.sized hacc hheld hcan
    have hstep : Item.step (net.encode e) link.item (link.state, a) = some ⟨m, []⟩ := by
      unfold Item.step
      rw [hacc]
    have horigin : (a.item.getD []).map Content.origin = item.map Content.origin := by
      rw [hitem]
      rfl
    have hheld' : Held (Item.step (net.encode e) link.item (link.state, a))
        (net.next e link.state a) := h.held.next a
    rw [hstep] at hheld' ⊢
    rw [Option.isSome_some, if_pos rfl, horigin]
    refine ⟨sized_next h.sized a, hheld', fun i hi => ?_, fun i hi => Content.made item,
      fun i hi => haccepts item hitem⟩
    obtain rfl := Option.some.inj hi
    exact hcarries

theorem Link.Sound.withIncoming {net : Net P E} {e : E} {t : Descriptors} {link : Link libc p}
    (h : link.Sound net e t) (incoming : List (Parcel p)) :
    Link.Sound net e t { link with incoming } :=
  ⟨h.sized, h.held, h.carries, h.made, h.accepts⟩

/-- What is sent on behalf of an item is what the item is entitled to. -/
theorem Parcel.Honest.fair {reader : Reader} {q : Parcel p} (h : q.Honest reader) :
    Deed.Fair ⟨q.origin, q.descriptions⟩ := ⟨h.writable, h.made⟩

namespace World

variable {net : Net P E} {w w' : World P E libc p} [DecidableEq P] [DecidableEq E] {e : E}

omit [DecidableEq P] [DecidableEq E] in
/-- What is duplicated on behalf of an item is what the item is entitled to. -/
theorem Sound.fair_copies (h : w.Sound net) (a : Net.Call p)
    (hheld : ∀ item ∈ a.item, ∀ c ∈ item, c.HeldBy (w.peer (net.home e))) :
    Deed.Fair ⟨(a.item.getD []).map Content.origin, (w.peer (net.home e)).fds.descriptions
      ((net.copies e (w.link e).state a).map Prod.fst)⟩ := by
  refine ⟨fun object => ?_, Content.made _⟩
  cases a with
  | pollComplete w => nofun
  | poll r answers => nofun
  | startSend item wa answers =>
    have hrel := (Field.descriptors_rel (rel_of_held (h.peers (net.home e)) (hheld item rfl))).1
    refine Descriptors.descriptions_subset (fun fd hfd slot hslot => ?_) _
    obtain ⟨c, hc, rfl⟩ := List.mem_map.mp hfd
    have hmem : c.1 ∈ Field.descriptors (item.map Content.field) := by
      unfold Net.copies State.copies at hc
      dsimp only at hc
      split at hc
      · exact Encoder.mem_of_copies hc
      · cases hc
    obtain ⟨d, hd, keeper, hrefers⟩ := exists_of_forall₂ hrel hmem
    obtain rfl := Option.some.inj (hslot.symm.trans hrefers)
    exact hd

theorem Sound.transmit (h : w.Sound net) {a : Net.Call p}
    (hcalm : ∀ m, Takes (net.encode e) (net.decode (p := p) e) ((w.link e).state, a) m →
      ∀ i, (w.link e).item = some i → (w.link e).Clean (w.peer (net.home e)).fds i)
    (hs : w.transmit net e a = some w') : w'.Sound net := by
  unfold World.transmit at hs
  dsimp only at hs
  obtain ⟨⟨hhonest, hcan, hopen⟩, hs⟩ := Option.ite_none_right_eq_some.mp hs
  obtain rfl := Option.some.inj hs
  have hheld : ∀ item ∈ a.item, ∀ c ∈ item, c.HeldBy (w.peer (net.home e)) :=
    fun item hitem => (hhonest item hitem).1
  have hparcels : ∀ q ∈ (net.taken e (w.link e).state a).map fun m =>
      (⟨m.bytes, (w.peer (net.home e)).fds.descriptions m.fds, (w.link e).origin⟩ : Parcel p),
      q.Honest (net.reader (net.other e)) := by
    intro q hq
    obtain ⟨m, hm, rfl⟩ := List.mem_map.mp hq
    have hopen := hopen m hm
    rcases net.taken_cases e (w.link e).state a with hnone | ⟨m', hone, htakes⟩
    · rw [hnone] at hm
      cases hm
    · rw [hone] at hm
      obtain rfl := List.mem_singleton.mp hm
      exact (h.links e).honest_of_takes htakes hopen (hcalm m htakes)
  have hleads := (h.peers (net.home e)).leads_put _ [] (w.peer (net.home e)).made
    (Registry.free_copied (f := fun slot => ⟨slot.description, .message⟩) hcan) nofun
  rw [List.append_nil] at hleads
  have hpeer := h.setPeer hleads
  refine Sound.note ?_ ?_
  · have hsender := (h.links e).transmit (h.peers _) hheld
      (fun item hitem => (hhonest item hitem).2) hcan
    have hlink := hpeer.setLink hsender (congrArg Peer.fds (setPeer_self _ _)) (h.parcels e)
    refine hlink.setLink ((hlink.links _).withIncoming _) rfl fun q hq => ?_
    exact (List.mem_append.mp hq).elim (hlink.parcels _ q) (hparcels q)
  · intro deed hdeed
    rcases List.mem_cons.mp hdeed with rfl | hdeed
    · exact h.fair_copies a hheld
    · obtain ⟨q, hq, rfl⟩ := List.mem_map.mp hdeed
      exact (hparcels q hq).fair

theorem Sound.receive (h : w.Sound net) {r : ReadAnswers} {answers : Nat → FcntlAnswers}
    (hs : w.receive net e r answers = some w') : w'.Sound net := by
  have hlink : ∀ incoming, Link.Sound net e (w.peer (net.home e)).fds { w.link e with
      state := net.next e (w.link e).state (.poll r answers)
      item := Item.step (net.encode e) (w.link e).item ((w.link e).state, .poll r answers)
      incoming } := fun incoming => (h.links e).next rfl (fun fd d hfd => hfd) incoming
  unfold World.receive at hs
  dsimp only at hs
  split at hs
  · next d q rest hd hincoming =>
    obtain ⟨⟨hbytes, hlength, hfree⟩, hs⟩ := Option.ite_none_right_eq_some.mp hs
    obtain rfl := Option.some.inj hs
    have hmem : ∀ q' ∈ q :: rest, q'.Honest (net.reader e) := by
      rw [← hincoming]
      exact h.parcels e
    have hq := hmem q (.head _)
    have hleads : (w.peer (net.home e)).Leads
        ⟨Descriptors.claim ((w.peer (net.home e)).fds.put (Descriptors.arrived d.fds q.descriptions))
          (adopt (w.peer (net.home e)).made (net.received e (w.link e).state r answers) q.origin),
        (w.peer (net.home e)).shares
          ++ adopt (w.peer (net.home e)).made (net.received e (w.link e).state r answers) q.origin,
        (w.peer (net.home e)).made + (adopt (w.peer (net.home e)).made
          (net.received e (w.link e).state r answers) q.origin).length⟩ := by
      generalize hfields : net.received e (w.link e).state r answers = fields
      rcases rel_received hd hq hbytes hlength hfields with rfl | ⟨hrel, hsub⟩
      · have hnone : adopt (w.peer (net.home e)).made ([] : List (Field p RawFd)) q.origin = [] := by
          cases q.origin <;> rfl
        rw [hnone]
        exact (h.peers _).leads_receive hlength hfree nofun (List.nil_sublist _)
      · obtain ⟨hshares, hfds⟩ := adopt_spec hrel hq.made (w.peer (net.home e)).made
        exact (h.peers _).leads_receive hlength hfree hshares (hfds.trans hsub)
    exact (h.setPeer hleads).setLink ((hlink rest).mono hleads.message)
      (congrArg Peer.fds (setPeer_self _ _)) fun q' hq' => hmem q' (.tail _ hq')
  · obtain ⟨-, hs⟩ := Option.ite_none_right_eq_some.mp hs
    obtain rfl := Option.some.inj hs
    exact h.setLink (hlink _) rfl (h.parcels e)
  · obtain rfl := Option.some.inj hs
    exact h.setLink (hlink _) rfl (h.parcels e)

/-! ## Runs -/

/-- If the kernel takes a message in this step, its descriptors will do for the item. -/
def Calm (net : Net P E) : World P E libc p × Act P E p → Prop
  | (w, .call e a) => ∀ m, Takes (net.encode e) (net.decode (p := p) e) ((w.link e).state, a) m →
      ∀ i, (w.link e).item = some i → (w.link e).Clean (w.peer (net.home e)).fds i
  | _ => True

theorem Sound.step (h : w.Sound net) {a : Act P E p} (hcalm : Calm net (w, a))
    (hs : w.step net a = some w') : w'.Sound net := by
  cases a with
  | new i size token answers => exact h.new hs
  | clone i s =>
    obtain ⟨hmem, hs⟩ := Option.ite_none_right_eq_some.mp hs
    obtain rfl := Option.some.inj hs
    exact h.clone hmem
  | cloneWithAccess i s access dup => exact h.cloneWithAccess hs
  | drop i s => exact h.drop hs
  | obtain i fd =>
    obtain ⟨hfree, hs⟩ := Option.ite_none_right_eq_some.mp hs
    obtain rfl := Option.some.inj hs
    exact h.obtain hfree
  | close i fd =>
    unfold World.step at hs
    dsimp only at hs
    split at hs
    · next d huser =>
      obtain rfl := Option.some.inj hs
      exact h.close huser
    · cases hs
  | call e a =>
    cases a with
    | startSend item wa answers => exact h.transmit hcalm hs
    | pollComplete wa => exact h.transmit hcalm hs
    | poll r answers => exact h.receive hs

theorem sound_of_run {h : List (World P E libc p × Act P E p)} (hr : Run (system net) h w)
    (hcalm : ∀ x ∈ h, Calm net x) : w.Sound net := by
  refine hr.invariant_of (Calm net) (Sound net) ?_ ?_ hcalm
  · rintro w ⟨hpeers, hlinks, hlog⟩
    refine ⟨fun i s hs => ?_, fun e => ?_, fun e q hq => ?_, fun deed hdeed => ?_⟩
    · rw [(hpeers i).1] at hs
      cases hs
    · obtain ⟨hitem, -, io, hio⟩ := hlinks e
      have hnone : ∀ i, (w.link e).item ≠ some i := fun i hi => nomatch hitem.symm.trans hi
      refine ⟨?_, fun n hn => ?_, fun i hi => absurd hi (hnone i), fun i hi => absurd hi (hnone i),
        fun i hi => absurd hi (hnone i)⟩
      · rw [hio]
        exact BincodeDatagram.sized_wrap io _
      · rw [hio] at hn
        cases hn
    · rw [(hlinks e).2.1] at hq
      cases hq
    · rw [hlog] at hdeed
      cases hdeed
  · intro w a w' h hcalm hs
    exact h.step hcalm hs

end World

end SandboxIpc.Unix
