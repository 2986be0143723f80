import SandboxIpc.Unix.Passing

/-!
# Read-only handles stay read-only

* `Share.Confined`, `Share.Unconfined` — what a read-only handle cannot do, and other handles can
* `World.read_only_stays` — what descends from a read-only handle is read-only, and the other handles
  keep their abilities
* `World.leftover_sent` — after a read in between, a message carries what the one before has left
-/

namespace SandboxIpc.Unix

open Infra

variable {libc : Libc} {p : PointerWidth}

variable {P E : Type}

/-! ## The abilities of a handle -/

/-- The text for a handle that is read-only. -/
def deniedText : String := "this shared memory handle is read-only"

/-- A handle that the object cannot be written through. -/
structure Share.Confined (t : Descriptors) (s : Share p) : Prop where
  map_denied : ∀ b page mmap range,
    s.inner.map b page mmap range .readWrite = fail .permissionDenied deniedText
  clone_denied : ∀ dup, s.inner.clone dup .readWrite = (fail .permissionDenied deniedText, [])
  maps_read : ∀ b page mmap range access m,
    s.inner.map b page mmap range access = .ok m → m.access = .read
  owns : ∀ fd ∈ s.inner.fds, (t fd).map Slot.description = some (.memory s.object false)

/-- A handle that can be mapped for writing, and cloned. -/
structure Share.Unconfined (t : Descriptors) (s : Share p) : Prop where
  maps : ∀ b page (ptr : MmapArgs p → Usize p) range offset end_,
    s.inner.bounds range = .ok (offset, end_) → SharedMem.RoundUpFits b page end_ →
    ∃ m, s.inner.map b page (fun args => .ok (ptr args)) range .readWrite = .ok m ∧
      m.access = .readWrite
  clones : ∀ dup rwFd roFd, dup 0 = .ok rwFd → dup 1 = .ok roFd →
    (s.inner.clone dup .readWrite).1 = .ok ⟨some rwFd, roFd, s.inner.size⟩
  owns : ∃ fd, s.inner.protection .readWrite = .ok (.readWrite, fd) ∧
    (t fd).map Slot.description = some (.memory s.object true)

variable {s : Share p} {t : Descriptors}

theorem Share.Grounded.confined (h : s.Grounded t) (hread : s.readOnly = true) : s.Confined t := by
  obtain ⟨hrw, hro, -⟩ := h
  rw [if_pos hread] at hrw
  have hnone : s.inner.rwFd = none := by
    generalize s.inner.rwFd = rwFd at hrw
    cases hrw
    rfl
  have hprotection : s.inner.protection .readWrite = fail .permissionDenied deniedText := by
    unfold SharedMem.protection
    dsimp only
    rw [hnone]
    rfl
  have hdenied : ∀ b page mmap range,
      s.inner.map b page mmap range .readWrite = fail .permissionDenied deniedText := by
    intro b page mmap range
    unfold SharedMem.map
    rw [hprotection]
    rfl
  refine ⟨hdenied, fun dup => ?_, fun b page mmap range access m hm => ?_, fun fd hfd => ?_⟩
  · unfold SharedMem.clone
    dsimp only
    rw [hnone]
    rfl
  · cases access with
    | read =>
      obtain ⟨_, _, _, _, -, -, -, -, haccess⟩ := SharedMem.map_ok hm
      exact haccess
    | readWrite =>
      rw [hdenied] at hm
      cases hm
  · unfold SharedMem.fds at hfd
    rw [hnone] at hfd
    obtain rfl := List.mem_singleton.mp hfd
    exact congrArg (Option.map Slot.description) hro

theorem Share.Grounded.unconfined (h : s.Grounded t) (hwrite : s.readOnly = false) :
    s.Unconfined t := by
  obtain ⟨hrw, -⟩ := h
  rw [if_neg (by rw [hwrite]; nofun)] at hrw
  obtain ⟨fd, hfd, hrefers⟩ : ∃ fd, s.inner.rwFd = some fd ∧
      Refers t (.share s.id) fd (.memory s.object true) := by
    generalize s.inner.rwFd = rwFd at hrw
    cases hrw with
    | some hrw => exact ⟨_, rfl, hrw⟩
  refine ⟨fun b page ptr range offset end_ hbounds hfits => ?_, fun dup rwFd roFd hrw hro => ?_,
    fd, ?_, congrArg (Option.map Slot.description) hrefers⟩
  · have hallow : s.inner.Allows .readWrite := fun _ hnone => nomatch hnone.symm.trans hfd
    obtain ⟨m, hm, -⟩ : ∃ m, s.inner.map b page (fun args => .ok (ptr args)) range .readWrite = .ok m ∧
        m.offset = offset ∧ m.len = end_ - offset :=
      SharedMem.map_of_bounds hallow hbounds (SharedMem.le_of_bounds hbounds).1 hfits
    obtain ⟨_, _, _, _, -, -, -, -, haccess⟩ := SharedMem.map_ok hm
    exact ⟨m, hm, haccess⟩
  · unfold SharedMem.clone
    dsimp only
    rw [hfd]
    dsimp only
    rw [hrw]
    dsimp only
    rw [hro]
  · unfold SharedMem.protection
    dsimp only
    rw [hfd]

section Stays

variable [Bincode]

/-- A writable description of an object is given away for a handle of the object that is not
read-only. -/
theorem Deed.Fair.writable {deed : Deed p} (h : deed.Fair) {object : Nat}
    (hgiven : .memory object true ∈ deed.given) : ∃ size token,
      .memory (some (.memory object true)) (.memory object false) size token ∈ deed.origin := by
  obtain ⟨f, hf, hd⟩ := Field.mem_descriptors.mp (h.given object hgiven)
  obtain ⟨c, rfl⟩ := h.made f hf
  cases c with
  | plain bytes => cases hd
  | fd fd => cases List.mem_singleton.mp hd
  | share s =>
    refine ⟨s.inner.size, s.token, ?_⟩
    unfold Content.origin Share.origin at hf hd
    dsimp only at hf hd
    cases hread : s.readOnly with
    | true =>
      rw [hread] at hd
      cases List.mem_singleton.mp hd
    | false =>
      rw [hread] at hf hd
      rcases List.mem_cons.mp hd with hd | hd
      · obtain ⟨rfl, -⟩ := Description.memory.inj hd
        exact hf
      · cases List.mem_singleton.mp hd

namespace World

variable {net : Net P E}

/-- Handles that descend from a read-only one are confined, other handles are not, and no writable
description of an object has been given away but for a handle that is not read-only. -/
structure ReadOnlyStays (w : World P E libc p) : Prop where
  confined : ∀ i, ∀ s ∈ (w.peer i).shares, s.readOnly = true → s.Confined (w.peer i).fds
  unconfined : ∀ i, ∀ s ∈ (w.peer i).shares, s.readOnly = false → s.Unconfined (w.peer i).fds
  given : ∀ deed ∈ w.log, ∀ object, .memory object true ∈ deed.given → ∃ size token,
    .memory (some (.memory object true)) (.memory object false) size token ∈ deed.origin

/--
What descends from a read-only handle is read-only.

This is so in every run in which, whenever the kernel takes a message, the descriptors that its bytes
name are those of its item, and no writable descriptor of shared memory is among the others that the
item has not got.
-/
theorem read_only_stays [DecidableEq P] [DecidableEq E] {w : World P E libc p}
    {h : List (World P E libc p × Act P E p)} (hr : Run (system net) h w)
    (hcalm : ∀ x ∈ h, Calm net x) : w.ReadOnlyStays := by
  have hsound := sound_of_run hr hcalm
  refine ⟨fun i s hs hread => ?_, fun i s hs hwrite => ?_, fun deed hdeed object hgiven => ?_⟩
  · exact (hsound.peers i s hs).confined hread
  · exact (hsound.peers i s hs).unconfined hwrite
  · exact (hsound.log deed hdeed).writable hgiven

end World

end Stays

/-! ## A handle that is sent while another message lies in the buffer -/

namespace World

open LittleEndian

/-- A channel of shared memory with both ends in one process. -/
def loop : Net Unit Bool where
  home _ := ()
  other := not
  reader _ := .memory .done
  limit _ := 64

/-- The process with its standard descriptors and the two sockets. -/
def freshWorld : World Unit Bool linux .w64 where
  peer _ := ⟨fun fd => if 0 ≤ fd ∧ fd ≤ 4 then some ⟨.other, .user⟩ else none, [], 0⟩
  link e := ⟨⟨.wrap ⟨⟨if e then 4 else 3, []⟩, .new linux maxMsgFds⟩ 64, ⟨none, none, []⟩⟩,
    none, [], []⟩
  objects := 0
  log := []

/-- The handle that `new` makes, and a read-only clone. -/
def wholeHandle : Share .w64 := ⟨0, ⟨some 5, 6, 4096⟩, .nil, 0, false⟩

def readHandle : Share .w64 := ⟨1, ⟨none, 7, 4096⟩, .nil, 0, true⟩

/-- `sendmsg` takes a message of `n` bytes. -/
def takes (n : Nat) : WriteAnswers := ⟨.ok true, .ok n, .ok ()⟩

/-- `dup` hands out descriptors from `fd` on. -/
def dupsFrom (fd : RawFd) (n : Nat) : DupAnswers := ⟨fun _ => .ok (fd + n), fun _ => .ok ()⟩

def makesBoth : List (Act Unit Bool .w64) :=
  [.new () 4096 .nil ⟨.ok 5, .ok 6, .ok (), .ok ()⟩,
    .cloneWithAccess () wholeHandle .read fun _ => .ok 7]

theorem init_freshWorld : (system loop).init freshWorld := by
  refine ⟨fun i => ⟨rfl, rfl, fun fd slot h => ?_⟩, fun e => ⟨rfl, rfl, _, rfl⟩, rfl⟩
  obtain ⟨-, h⟩ := Option.ite_none_right_eq_some.mp h
  exact (Option.some.inj h).symm

/-- What arrives of the message with the read-only handle: the whole control buffer. -/
def arrival : ReadAnswers :=
  ⟨.ok true, .ok ⟨Field.wire 1 [readHandle.origin], List.range' 12 32, by decide⟩, .ok ()⟩

/-- The whole handle and the read-only one are cloned, and the latter is sent to the other end. The
user polls before that is out, but the control buffer has not been used before. -/
theorem read_only_received : ∃ h, ∃ w : World Unit Bool linux .w64, Run (system loop) h w ∧
    (w.peer ()).shares = [wholeHandle, readHandle, ⟨2, ⟨some 8, 9, 4096⟩, .nil, 0, false⟩,
      ⟨3, ⟨none, 13, 4096⟩, .nil, 0, true⟩] ∧ w.ReadOnlyStays := by
  have hr : Run (system (p := .w64) loop) _ _ := Run.of_replay (s := freshWorld)
    (makesBoth ++ [.cloneWithAccess () wholeHandle .readWrite fun n => .ok (8 + n),
      .call false (.startSend [.share readHandle] (takes 0) (dupsFrom 10)),
      .call false (.poll nothing fun _ => ⟨fun _ => 0, fun _ => .ok ()⟩),
      .call false (.pollComplete (takes 41)),
      .call true (.poll arrival fun _ => ⟨fun _ => 0, fun _ => .ok ()⟩)])
    init_freshWorld rfl
  refine ⟨_, _, hr, rfl, read_only_stays hr ?_⟩
  intro x hx
  rcases List.mem_cons.mp hx with rfl | hx
  · trivial
  rcases List.mem_cons.mp hx with rfl | hx
  · trivial
  rcases List.mem_cons.mp hx with rfl | hx
  · trivial
  rcases List.mem_cons.mp hx with rfl | hx
  · intro m _ i hi
    cases hi
  rcases List.mem_cons.mp hx with rfl | hx
  · intro m htakes
    have hsent : ([] : List Message) = [m] := htakes
    cases hsent
  rcases List.mem_cons.mp hx with rfl | hx
  · -- the rest of the buffer is the standard input
    intro m _ i hi
    obtain rfl := Option.some.inj hi
    refine ⟨by decide, fun object h => ?_⟩
    have hmem : .memory object true ∈
        .memory 0 false :: .memory 0 false :: List.replicate 30 Description.other := h
    simp at hmem
  · obtain rfl := List.mem_singleton.mp hx
    intro m _ i hi
    cases hi

/-- The first handle is sent, then the read-only one. The user polls before that is out. -/
def pollsBetween : List (Act Unit Bool .w64) :=
  makesBoth ++ [.call false (.startSend [.share wholeHandle] (takes 0) (dupsFrom 8)),
    .call false (.pollComplete (takes 49)),
    .call false (.startSend [.share readHandle] (takes 0) (dupsFrom 12)),
    .call false (.poll nothing fun _ => ⟨fun _ => 0, fun _ => .ok ()⟩),
    .call false (.pollComplete (takes 41))]

def leakyRun : List (World Unit Bool linux .w64 × Act Unit Bool .w64) × World Unit Bool linux .w64 :=
  ((system loop).replay freshWorld pollsBetween).getD ([], freshWorld)

/-- The message with the read-only handle carries the writable descriptor of the message before. -/
theorem leftover_sent : Run (system loop) leakyRun.1 leakyRun.2 ∧
    (∃ deed ∈ leakyRun.2.log, deed.origin = [readHandle.origin] ∧ .memory 0 true ∈ deed.given) ∧
    ¬ leakyRun.2.ReadOnlyStays := by
  have hdeed : ∃ deed ∈ leakyRun.2.log, deed.origin = [readHandle.origin] ∧
      .memory 0 true ∈ deed.given :=
    ⟨_, List.mem_of_getLast? (show leakyRun.2.log.getLast? = some _ from rfl), rfl, by decide⟩
  refine ⟨Run.of_replay pollsBetween init_freshWorld rfl, hdeed, fun hstays => ?_⟩
  obtain ⟨deed, hmem, horigin, hgiven⟩ := hdeed
  obtain ⟨size, token, hfield⟩ := hstays.given deed hmem 0 hgiven
  rw [horigin] at hfield
  cases List.mem_singleton.mp hfield

end World

end SandboxIpc.Unix
