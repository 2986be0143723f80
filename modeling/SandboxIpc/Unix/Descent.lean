import SandboxIpc.Unix.Copies
import Mathlib.Data.List.Forall2

/-!
# What handles are entitled to

A handle that descends from a read-only one is entitled to the read-only description of its object, any
other handle to both descriptions.

* `Share.Grounded` — the descriptors of a handle refer to what it is entitled to
* `World.Sound` — so do those of the messages that are pending or on their way
* `World.Sound.new`, `World.Sound.cloneWithAccess`, `World.Sound.drop` — the operations on handles
  keep it so
-/

namespace SandboxIpc.Unix

open Infra

variable {libc : Libc} {p : PointerWidth}

/-! ## What descriptors refer to -/

/-- The descriptor refers to `d`, and is open for `keeper`. -/
def Refers (t : Descriptors) (keeper : Keeper) (fd : RawFd) (d : Description) : Prop :=
  t fd = some ⟨d, keeper⟩

/-- A duplicate refers to what the descriptor refers to. -/
theorem refers_copied {t : Descriptors} {keeper keeper' : Keeper} {copies : List (RawFd × RawFd)}
    (hcan : t.CanCopy copies) {fd new : RawFd} {d : Description} (hmem : (fd, new) ∈ copies)
    (h : Refers t keeper fd d) : Refers (t.put (t.copied keeper' copies)) keeper' new d :=
  Registry.put_copied_of_mem hcan hmem h

/-- The descriptions of some descriptors that refer to what an item is entitled to. -/
theorem Descriptors.descriptions_subset {t : Descriptors} {fds : List RawFd}
    {ds : List Description} (h : ∀ fd ∈ fds, ∀ slot, t fd = some slot → slot.description ∈ ds) :
    ∀ d ∈ t.descriptions fds, d ∈ ds := by
  intro d hd
  obtain ⟨fd, hfd, hmap⟩ := List.mem_filterMap.mp hd
  obtain ⟨slot, hslot, rfl⟩ := Option.map_eq_some_iff.mp hmap
  exact h fd hfd slot hslot

/-! ## A change in one place -/

variable {P E : Type}

namespace World

variable {w : World P E libc p}

section Peers

variable [DecidableEq P]

theorem setPeer_self (i : P) (peer : Peer p) : (w.setPeer i peer).peer i = peer :=
  Function.update_self _ _ _

theorem setPeer_of_ne {i j : P} (h : j ≠ i) (peer : Peer p) :
    (w.setPeer i peer).peer j = w.peer j := Function.update_of_ne h _ _

end Peers

section Links

variable [DecidableEq E]

theorem setLink_self (e : E) (link : Link libc p) : (w.setLink e link).link e = link :=
  Function.update_self _ _ _

theorem setLink_of_ne {e e' : E} (h : e' ≠ e) (link : Link libc p) :
    (w.setLink e link).link e' = w.link e' := Function.update_of_ne h _ _

end Links

end World

/-! ## The invariant -/

/-- The descriptors of a handle refer to what it is entitled to. -/
def Share.Grounded (t : Descriptors) (s : Share p) : Prop :=
  s.field.Rel (Refers t (.share s.id)) s.origin

def Peer.Sound (peer : Peer p) : Prop := ∀ s ∈ peer.shares, s.Grounded peer.fds

/-- What the fields of an item stand for is what its parts are entitled to. -/
def Made (origin : List (Field p Description)) : Prop := ∀ f ∈ origin, ∃ c : Content p, c.origin = f

theorem Content.made (item : List (Content p)) : Made (item.map Content.origin) := by
  intro f hf
  obtain ⟨c, -, rfl⟩ := List.mem_map.mp hf
  exact ⟨c, rfl⟩

variable [Bincode]

/-- A message carries the descriptors of its item twice, and names the second ones. -/
structure Message.Carries (t : Descriptors) (origin : List (Field p Description)) (m : Message) :
    Prop where
  bytes : m.bytes = Field.wire (Field.descriptors origin).length origin
  fds : List.Forall₂ (Refers t .message) m.fds
    (Field.descriptors origin ++ Field.descriptors origin)

structure Parcel.Honest (reader : Reader) (q : Parcel p) : Prop where
  bytes : q.bytes = Field.wire (Field.descriptors q.origin).length q.origin
  /-- What the bytes name is what the item is entitled to. -/
  named : Field.descriptors q.origin <+: q.descriptions.drop (Field.descriptors q.origin).length
  /-- Whatever else there is does not allow to write. -/
  writable : ∀ object, .memory object true ∈ q.descriptions →
    .memory object true ∈ Field.descriptors q.origin
  made : Made q.origin
  accepts : reader.accepts q.origin = true

structure Link.Sound (net : Net P E) (e : E) (t : Descriptors) (link : Link libc p) : Prop where
  sized : link.state.channel.Sized (net.limit e)
  held : Held link.item link.state
  carries : ∀ i, link.item = some i → i.message.Carries t link.origin
  made : ∀ i, link.item = some i → Made link.origin
  accepts : ∀ i, link.item = some i → (net.reader (net.other e)).accepts link.origin = true

/-- The writable descriptions it was done with are some that the item is entitled to. -/
structure Deed.Fair (deed : Deed p) : Prop where
  given : ∀ object, .memory object true ∈ deed.given →
    .memory object true ∈ Field.descriptors deed.origin
  made : Made deed.origin

structure World.Sound (net : Net P E) (w : World P E libc p) : Prop where
  peers : ∀ i, (w.peer i).Sound
  links : ∀ e, (w.link e).Sound net e (w.peer (net.home e)).fds
  parcels : ∀ e, ∀ q ∈ (w.link e).incoming, q.Honest (net.reader e)
  log : ∀ deed ∈ w.log, deed.Fair

/-! ## The invariant after a change in one place -/

/-- A process goes on soundly, and keeps what was duplicated for messages. -/
structure Peer.Leads (peer peer' : Peer p) : Prop where
  sound : peer'.Sound
  message : ∀ fd d, Refers peer.fds .message fd d → Refers peer'.fds .message fd d

theorem Link.Sound.mono {net : Net P E} {e : E} {t t' : Descriptors} {link : Link libc p}
    (h : link.Sound net e t) (hkeeps : ∀ fd d, Refers t .message fd d → Refers t' .message fd d) :
    link.Sound net e t' :=
  { h with carries := fun i hi => ⟨(h.carries i hi).bytes, (h.carries i hi).fds.imp hkeeps⟩ }

namespace World

variable {net : Net P E} {w : World P E libc p}

section Peers

variable [DecidableEq P]

theorem Sound.setPeer (h : w.Sound net) {i : P} {peer : Peer p} (hleads : (w.peer i).Leads peer) :
    (w.setPeer i peer).Sound net := by
  refine ⟨fun j => ?_, fun e => ?_, h.parcels, h.log⟩
  · by_cases hj : j = i
    · subst hj
      rw [setPeer_self]
      exact hleads.sound
    · rw [setPeer_of_ne hj]
      exact h.peers j
  · by_cases hj : net.home e = i
    · subst hj
      rw [setPeer_self]
      exact (h.links e).mono hleads.message
    · rw [setPeer_of_ne hj]
      exact h.links e

end Peers

section Links

variable [DecidableEq E]

theorem Sound.setLink (h : w.Sound net) {e : E} {t : Descriptors} {link : Link libc p}
    (hlink : link.Sound net e t) (ht : (w.peer (net.home e)).fds = t)
    (hparcels : ∀ q ∈ link.incoming, q.Honest (net.reader e)) : (w.setLink e link).Sound net := by
  subst ht
  refine ⟨h.peers, fun e' => ?_, fun e' => ?_, h.log⟩
  · by_cases he : e' = e
    · subst he
      rw [setLink_self]
      exact hlink
    · rw [setLink_of_ne he]
      exact h.links e'
  · by_cases he : e' = e
    · subst he
      rw [setLink_self]
      exact hparcels
    · rw [setLink_of_ne he]
      exact h.parcels e'

end Links

theorem Sound.note (h : w.Sound net) {deeds : List (Deed p)} (hfair : ∀ deed ∈ deeds, deed.Fair) :
    (w.note deeds).Sound net :=
  ⟨h.peers, h.links, h.parcels, fun deed hdeed =>
    (List.mem_append.mp hdeed).elim (h.log deed) (hfair deed)⟩

end World

/-! ## Handles -/

section Handles

variable {s : Share p} {t t' : Descriptors} {peer : Peer p}

theorem Share.Grounded.mono (h : s.Grounded t)
    (hkeeps : ∀ fd d, Refers t (.share s.id) fd d → Refers t' (.share s.id) fd d) :
    s.Grounded t' := Field.Rel.imp h fun fd _ d => hkeeps fd d

/-- What a handle owns refers to what it is entitled to. -/
theorem Share.Grounded.refers (h : s.Grounded t) {fd : RawFd} (hfd : fd ∈ s.inner.fds) :
    ∃ d ∈ Field.descriptors [s.origin], Refers t (.share s.id) fd d := by
  obtain ⟨hrw, hro, -⟩ := h
  unfold origin
  unfold SharedMem.fds at hfd
  generalize (if s.readOnly then none else some (Description.memory s.object true)) = rw at hrw
  generalize s.inner.rwFd = rwFd at hrw hfd
  rcases List.mem_append.mp hfd with hfd | hfd
  · cases hrw with
    | none => cases hfd
    | some hrw =>
      obtain rfl := List.mem_singleton.mp hfd
      exact ⟨_, .head _, hrw⟩
  · obtain rfl := List.mem_singleton.mp hfd
    refine ⟨.memory s.object false, ?_, hro⟩
    cases hrw with
    | none => exact .head _
    | some _ => exact .tail _ (.head _)

/-- A process gets some descriptors, and perhaps a handle. -/
theorem Peer.Sound.leads_put (h : peer.Sound) (slots : List (RawFd × Slot))
    (shares : List (Share p)) (made : Nat) (hfree : peer.fds.Free (slots.map Prod.fst))
    (hshares : ∀ s ∈ shares, s.Grounded (peer.fds.put slots)) :
    peer.Leads ⟨peer.fds.put slots, peer.shares ++ shares, made⟩ := by
  refine ⟨fun s hs => ?_, fun fd d => Registry.put_of_eq_some hfree⟩
  rcases List.mem_append.mp hs with hs | hs
  · exact (h s hs).mono fun fd d => Registry.put_of_eq_some hfree
  · exact hshares s hs

/-- A process closes some descriptors that are not kept for messages or for the handles it goes on
with. -/
theorem Peer.Sound.leads_close (h : peer.Sound) {fds : List RawFd} {shares : List (Share p)}
    (hsub : ∀ s ∈ shares, s ∈ peer.shares)
    (hmessage : ∀ fd ∈ fds, ∀ d, ¬ Refers peer.fds .message fd d)
    (hclosed : ∀ s ∈ shares, ∀ fd ∈ fds, ∀ d, ¬ Refers peer.fds (.share s.id) fd d) :
    peer.Leads { peer with fds := peer.fds.close fds, shares } := by
  have hkeeps : ∀ keeper, (∀ fd ∈ fds, ∀ d, ¬ Refers peer.fds keeper fd d) →
      ∀ fd d, Refers peer.fds keeper fd d → Refers (peer.fds.close fds) keeper fd d := by
    intro keeper hnot fd d hfd
    have hout : fd ∉ fds := fun hmem => hnot fd hmem d hfd
    exact (if_neg hout).trans hfd
  refine ⟨fun s hs => ?_, hkeeps .message hmessage⟩
  exact (h s (hsub s hs)).mono (hkeeps _ (hclosed s hs))

end Handles

/-! ## What the operations on handles do -/

namespace World

variable {net : Net P E} {w w' : World P E libc p} [DecidableEq P]

theorem Sound.new (h : w.Sound net) {i : P} {size : Usize p} {token : Token} {answers : NewAnswers}
    (hs : w.new i size token answers = some w') : w'.Sound net := by
  unfold World.new at hs
  dsimp only at hs
  cases hnew : SharedMem.new size answers with
  | error e =>
    rw [hnew] at hs
    obtain rfl := Option.some.inj hs
    exact h
  | ok m =>
    rw [hnew] at hs
    obtain ⟨rwFd, roFd, rfl⟩ := SharedMem.new_ok hnew
    obtain ⟨hfree, hs⟩ := Option.ite_none_right_eq_some.mp hs
    obtain rfl := Option.some.inj hs
    have hleads := (h.peers i).leads_put [(rwFd, ⟨.memory w.objects true,
      .share (w.peer i).made⟩), (roFd, ⟨.memory w.objects false, .share (w.peer i).made⟩)]
      [⟨(w.peer i).made, ⟨some rwFd, roFd, size⟩, token, w.objects, false⟩] ((w.peer i).made + 1)
      hfree fun s hs => by
        obtain rfl := List.mem_singleton.mp hs
        exact ⟨.some (Registry.put_of_mem (.head _) hfree.1),
          Registry.put_of_mem (.tail _ (.head _)) hfree.1, rfl, rfl⟩
    have hsound := h.setPeer hleads
    exact ⟨hsound.peers, hsound.links, hsound.parcels, hsound.log⟩

theorem Sound.clone (h : w.Sound net) {i : P} {s : Share p} (hs : s ∈ (w.peer i).shares) :
    (w.setPeer i { w.peer i with shares := (w.peer i).shares ++ [s] }).Sound net := by
  refine h.setPeer ⟨fun s' hs' => ?_, fun fd d hfd => hfd⟩
  rcases List.mem_append.mp hs' with hs' | hs'
  · exact h.peers i s' hs'
  · obtain rfl := List.mem_singleton.mp hs'
    exact h.peers i s' hs

theorem Sound.cloneWithAccess (h : w.Sound net) {i : P} {s : Share p} {access : Access}
    {dup : Nat → Except IoError RawFd} (hs : w.cloneWithAccess i s access dup = some w') :
    w'.Sound net := by
  unfold World.cloneWithAccess at hs
  rcases hclone : s.inner.clone dup access with ⟨result, copies⟩
  rw [hclone] at hs
  dsimp only at hs
  obtain ⟨⟨hmem, hcan⟩, hs⟩ := Option.ite_none_right_eq_some.mp hs
  have hgrounded := h.peers i s hmem
  have hfree : ∀ keeper, (w.peer i).fds.Free
      (((w.peer i).fds.copied keeper copies).map Prod.fst) := fun _ => Registry.free_copied hcan
  have hfair : Deed.Fair ⟨[s.origin], (w.peer i).fds.descriptions (copies.map Prod.fst)⟩ := by
    refine ⟨fun object => Descriptors.descriptions_subset (fun fd hfd slot hslot => ?_) _,
      Content.made [.share s]⟩
    obtain ⟨c, hc, rfl⟩ := List.mem_map.mp hfd
    have hc : c.1 ∈ s.inner.fds := SharedMem.mem_fds_of_clone (by rw [hclone]; exact hc)
    obtain ⟨d, hd, hrefers⟩ := hgrounded.refers hc
    obtain rfl := Option.some.inj (hslot.symm.trans hrefers)
    exact hd
  cases result with
  | error e =>
    obtain rfl := Option.some.inj hs
    refine Sound.note (h.setPeer ?_) fun deed hdeed => ?_
    · have hleads := (h.peers i).leads_put _ [] (w.peer i).made (hfree .user) nofun
      rwa [List.append_nil] at hleads
    · obtain rfl := List.mem_singleton.mp hdeed
      exact hfair
  | ok inner =>
    obtain rfl := Option.some.inj hs
    refine Sound.note (h.setPeer ((h.peers i).leads_put _ _ _ (hfree _)
      fun s' hs' => ?_)) fun deed hdeed => ?_
    · obtain rfl := List.mem_singleton.mp hs'
      obtain ⟨hrw, hro, -⟩ := hgrounded
      rcases SharedMem.clone_ok hclone with ⟨rfl, hinner, rfl⟩ | ⟨rfl, rw, rw', hrwFd, hinner, rfl⟩
      · -- nothing is taken over but the read-only descriptor
        rw [hinner]
        unfold Share.Grounded Share.field Share.origin
        dsimp only
        rw [decide_eq_true rfl, Bool.or_true, if_pos rfl]
        exact ⟨.none, refers_copied hcan (.head _) hro, rfl, rfl⟩
      · rw [hinner]
        unfold Share.Grounded Share.field Share.origin
        dsimp only
        rw [decide_eq_false (by nofun), Bool.or_false]
        refine ⟨?_, refers_copied hcan (.tail _ (.head _)) hro, rfl, rfl⟩
        rw [hrwFd] at hrw
        generalize (if s.readOnly then none else some (Description.memory s.object true)) = rw₀
          at hrw ⊢
        cases hrw with
        | some hrw => exact .some (refers_copied hcan (.head _) hrw)
    · obtain rfl := List.mem_singleton.mp hdeed
      exact hfair

theorem Sound.drop (h : w.Sound net) {i : P} {s : Share p} (hs : w.drop i s = some w') :
    w'.Sound net := by
  unfold World.drop at hs
  dsimp only at hs
  obtain ⟨hmem, hs⟩ := Option.ite_none_right_eq_some.mp hs
  obtain rfl := Option.some.inj hs
  have hsub : ∀ s' ∈ (w.peer i).shares.erase s, s' ∈ (w.peer i).shares :=
    fun s' hs' => List.mem_of_mem_erase hs'
  refine h.setPeer ?_
  by_cases hlast : ∃ s' ∈ (w.peer i).shares.erase s, s'.id = s.id
  · rw [if_pos hlast]
    exact ⟨fun s' hs' => h.peers i s' (hsub s' hs'), fun fd d hfd => hfd⟩
  · -- what is closed belongs to no other handle
    rw [if_neg hlast]
    have howned : ∀ fd ∈ s.inner.fds, ∀ keeper d, Refers (w.peer i).fds keeper fd d →
        keeper = .share s.id := by
      intro fd hfd keeper d hrefers
      obtain ⟨d', -, hgrounded⟩ := (h.peers i s hmem).refers hfd
      exact congrArg Slot.keeper (Option.some.inj (hrefers.symm.trans hgrounded))
    refine (h.peers i).leads_close hsub ?_ ?_
    · intro fd hfd d hrefers
      cases howned fd hfd _ d hrefers
    · intro s' hs' fd hfd d hrefers
      exact hlast ⟨s', hs', Keeper.share.inj (howned fd hfd _ d hrefers)⟩

theorem Sound.obtain (h : w.Sound net) {i : P} {fd : RawFd} (hfree : (w.peer i).fds.Free [fd]) :
    (w.setPeer i { w.peer i with
      fds := (w.peer i).fds.put [(fd, ⟨.other, .user⟩)] }).Sound net := by
  have hleads := (h.peers i).leads_put [(fd, ⟨.other, .user⟩)] [] (w.peer i).made hfree nofun
  rw [List.append_nil] at hleads
  exact h.setPeer hleads

theorem Sound.close (h : w.Sound net) {i : P} {fd : RawFd} {d : Description}
    (huser : Refers (w.peer i).fds .user fd d) :
    (w.setPeer i { w.peer i with fds := (w.peer i).fds.close [fd] }).Sound net := by
  have howned : ∀ fd' ∈ [fd], ∀ keeper d', Refers (w.peer i).fds keeper fd' d' →
      keeper = .user := by
    intro fd' hfd keeper d' hrefers
    obtain rfl := List.mem_singleton.mp hfd
    exact congrArg Slot.keeper (Option.some.inj (hrefers.symm.trans huser))
  refine h.setPeer ((h.peers i).leads_close (fun s hs => hs) ?_ ?_)
  · intro fd' hfd d' hrefers
    cases howned fd' hfd _ d' hrefers
  · intro s hs fd' hfd d' hrefers
    cases howned fd' hfd _ d' hrefers

end World

end SandboxIpc.Unix
