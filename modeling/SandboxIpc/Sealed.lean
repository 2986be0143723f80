import SandboxIpc.Transfer

/-!
# Sealed channels

A sealed channel is to carry data only. On Windows it has no target, so that every `serialize` of a
handle or a socket fails. On Unix it is made like any other channel.

* `Unix.Sealed`, `Windows.Sealed` — no item with a resource in it is accepted, nor sent
* `sealed_iff` — it holds on Windows, and on Unix if all such items fail anyway
* `sealed_sends_file` — on Unix a file goes through
-/

namespace SandboxIpc

open Infra

namespace Unix

variable {libc : Libc} {p : PointerWidth} {R : Type}

theorem Flush.cmsg_eq {d d' : BincodeDatagram (MessageChannel libc)} (h : Flush d d') :
    d'.io.cmsg = d.io.cmsg := by
  cases h with
  | kept => rfl
  | taken => rfl

section History

variable {T : Type} {encode : T → Encoder}

/-- The item accepted last has been accepted. -/
theorem accepted_of_lastItem {h : List (State libc × Act T)} {i : Item}
    (hi : lastItem encode h = some i) : ∃ e ∈ h, accepted encode e.1 e.2 = some i.message := by
  induction h using List.reverseRecOn generalizing i with
  | nil => cases hi
  | append_singleton h e ih =>
    rw [exists_mem_snoc]
    rw [lastItem_snoc] at hi
    unfold Item.step at hi
    cases hacc : accepted encode e.1 e.2 with
    | some message =>
      rw [hacc] at hi
      obtain rfl := Option.some.inj hi
      exact .inr rfl
    | none =>
      rw [hacc] at hi
      obtain ⟨before, hbefore, rfl⟩ := Option.map_eq_some_iff.mp hi
      exact .inl (ih (i := before) hbefore)

/-- Only `start_send` accepts an item, and it says so. -/
theorem startSend_of_accepted {s : State libc} {a : Act T} {m : Message}
    (h : accepted encode s a = some m) : ∃ item w answers, a = .startSend item w answers ∧
      (startSend encode s item w answers).1 = .ok .ready := by
  cases a with
  | startSend item w answers =>
    refine ⟨item, w, answers, rfl, ?_⟩
    by_contra hne
    rw [accepted_of_ne encode hne] at h
    cases h
  | pollComplete w => cases h
  | poll r answers => cases h

end History

variable [Bincode]

/-- `start_send` refuses an item. -/
structure Refused (limit : Nat) (s : State libc) (item : Payload p) (w : WriteAnswers)
    (answers : Nat → DupAnswers) : Prop where
  notReady : (startSend (Payload.encode limit) s item w answers).1 ≠ .ok .ready
  /-- It fails once the item before is gone. -/
  fails : WayFree s w →
    ∃ stop, (startSend (Payload.encode limit) s item w answers).1 = .error stop
  /-- None of its descriptors gets into the control buffer. -/
  untouched : (startSend (Payload.encode limit) s item w answers).2.channel.io.cmsg
    = s.channel.io.cmsg

/-- An item with descriptors is refused. -/
def Refuses (limit : Nat) (e : State libc × Act (Payload p)) : Prop :=
  ∀ item w answers, e.2 = .startSend item w answers → item.descriptors ≠ [] →
    Refused limit e.1 item w answers

/-- What a sealed channel promises. -/
structure Sealed (decode : List UInt8 → Decoder R) (limit : Nat)
    (h : List (State libc × Act (Payload p))) : Prop where
  refuses : ∀ e ∈ h, Refuses limit e
  /-- Whatever the kernel takes is an item without descriptors. -/
  sendsData : Always (fun pre e => ∀ m, Takes (Payload.encode limit) decode e m →
    ∃ e' ∈ pre, ∃ item w answers m', e'.2 = .startSend item w answers ∧
      accepted (Payload.encode limit) e'.1 e'.2 = some m' ∧ m'.bytes = m.bytes ∧
      item.descriptors = []) h

/-- An item with descriptors does not fit, or its descriptors are not taken, when it comes to be
serialized. -/
def FailsAnyway (limit : Nat) (e : State libc × Act (Payload p)) : Prop :=
  ∀ item w answers, e.2 = .startSend item w answers → item.descriptors ≠ [] → WayFree e.1 w →
    ¬ (item.size ≤ limit ∧ item.Taken answers)

variable {limit : Nat}

/-- An item that is not accepted leaves the control buffer as it was. -/
theorem cmsg_of_not_ready {s : State libc} {item : Payload p} {w : WriteAnswers}
    {answers : Nat → DupAnswers}
    (h : (startSend (Payload.encode limit) s item w answers).1 ≠ .ok .ready) :
    (startSend (Payload.encode limit) s item w answers).2.channel.io.cmsg = s.channel.io.cmsg := by
  have hmove := move_next (Payload.encode limit) SendableFd.decode s (.startSend item w answers)
  rw [accepted_of_ne _ h, next_startSend] at hmove
  generalize (startSend (Payload.encode limit) s item w answers).2 = s' at hmove
  cases hmove with
  | flush _ hf => exact hf.cmsg_eq
  | reject _ hf _ => exact hf.cmsg_eq

theorem refuses_iff {e : State libc × Act (Payload p)} (hs : e.1.channel.Sized limit) :
    Refuses limit e ↔ FailsAnyway limit e := by
  refine forall_congr' fun item => forall_congr' fun w => forall_congr' fun answers => ?_
  refine forall_congr' fun _ => forall_congr' fun _ => ?_
  by_cases hfree : WayFree e.1 w
  · rw [forall_prop_of_true hfree]
    rcases startSend_payload hs item hfree answers with
      ⟨hfits, htaken, hready, -⟩ | ⟨hnot, failure, hresult, -⟩
    · exact iff_of_false (fun h => h.notReady hready) (fun h => h ⟨hfits, htaken⟩)
    · refine iff_of_true ⟨?_, fun _ => ⟨_, hresult⟩, cmsg_of_not_ready ?_⟩ hnot
      all_goals
        rw [hresult]
        nofun
  · have hne := startSend_of_blocked hfree (Payload.encode limit) item answers
    exact iff_of_true ⟨hne, fun h => absurd h hfree, cmsg_of_not_ready hne⟩
      fun h => absurd h hfree

/-- A sealed channel keeps its promise if and only if all items with descriptors fail anyway. -/
theorem sealed_iff_failsAnyway {decode : List UInt8 → Decoder R} {io : MessageChannel libc}
    {context : Context} {h : List (State libc × Act (Payload p))} {s : State libc}
    (hr : Run ((system (Payload.encode limit) decode io.cmsg).startingAt
      ⟨.wrap io limit, context⟩) h s) :
    Sealed decode limit h ↔ ∀ e ∈ h, FailsAnyway limit e := by
  have hsized : ∀ e ∈ h, e.1.channel.Sized limit := by
    intro e he
    obtain ⟨pre, hpre, -⟩ := hr.of_mem he
    exact sized_of_run (BincodeDatagram.sized_wrap io limit) hpre
  constructor
  · intro hsealed e he
    exact (refuses_iff (hsized e he)).mp (hsealed.refuses e he)
  · intro hfails
    have hrefuses : ∀ e ∈ h, Refuses limit e := fun e he =>
      (refuses_iff (hsized e he)).mpr (hfails e he)
    refine ⟨hrefuses, ?_⟩
    rintro pre ⟨s₁, a⟩ post rfl m htakes
    obtain ⟨n, hn, rfl⟩ := pending_of_takes htakes
    have hinit : Run (system (Payload.encode (p := p) limit) decode io.cmsg) []
        ⟨.wrap io limit, context⟩ := .nil ⟨rfl, rfl⟩
    have hpre : Run (system (Payload.encode limit) decode io.cmsg) pre s₁ :=
      hinit.append hr.split.1
    obtain ⟨i, -, -, hitem, hbytes, -⟩ := held_of_run hpre n hn
    obtain ⟨e, he, hacc⟩ := accepted_of_lastItem hitem
    obtain ⟨item, w, answers, ha, hready⟩ := startSend_of_accepted hacc
    refine ⟨e, he, item, w, answers, _, ha, hacc, hbytes.symm, ?_⟩
    by_contra hne
    exact (hrefuses e (List.mem_append_left _ he) item w answers ha hne).notReady hready

end Unix

namespace Windows

variable [Bincode] {p : PointerWidth} {R : Type} {limit : Nat}

/-- An item with a handle or a socket is not accepted, and fails once the item before is gone. -/
def Refuses (limit : Nat) (e : State × Act (Payload p) R) : Prop :=
  ∀ item w a, e.2 = .startSend item w a → item.resources ≠ [] →
    (startSend (Payload.encode limit) e.1 item w a).1 ≠ .ok .ready ∧
    (WayFree e.1 w → ∃ stop, (startSend (Payload.encode limit) e.1 item w a).1 = .error stop)

/-- What a sealed channel promises. -/
structure Sealed (limit : Nat) (h : List (State × Act (Payload p) R)) : Prop where
  refuses : ∀ e ∈ h, Refuses limit e
  /-- No handle is made. -/
  makesNone : ∀ e ∈ h, (next (Payload.encode limit) e.1 e.2).io.made = e.1.io.made
  /-- Whatever the pipe takes is an item without handles and sockets. -/
  sendsData : Always (fun pre e => ∀ m, Takes (Payload.encode limit) e m →
    ∃ e' ∈ pre, ∃ item, accepted (Payload.encode limit) e'.1 e'.2 = some (item, m) ∧
      item.resources = []) h

theorem refuses_of_sealed {e : State × Act (Payload p) R} (hs : e.1.Sized limit)
    (htarget : e.1.io.target = .none) : Refuses limit e := by
  intro item w a _ hresources
  by_cases hfree : WayFree e.1 w
  · rcases startSend_payload hs item hfree a with ⟨-, sent, hanswers, -⟩ | ⟨-, stop, hstop⟩
    · rw [answers_sealed hresources htarget a] at hanswers
      cases hanswers
    · refine ⟨?_, fun _ => ⟨stop, hstop⟩⟩
      rw [hstop]
      nofun
  · exact ⟨startSend_of_blocked hfree item a, fun h => absurd h hfree⟩

/-- Only `start_send` accepts an item, and it says so. -/
theorem startSend_of_accepted {s : State} {a : Act (Payload p) R} {item : Payload p}
    {m : List UInt8} (h : accepted (Payload.encode limit) s a = some (item, m)) :
    ∃ w answers, a = .startSend item w answers ∧
      (startSend (Payload.encode limit) s item w answers).1 = .ok .ready := by
  cases a with
  | startSend item' w answers =>
    dsimp only [accepted] at h
    split at h
    · next s' hready =>
      obtain ⟨n, -, heq⟩ := Option.map_eq_some_iff.mp h
      obtain ⟨rfl, -⟩ := Prod.mk.inj heq
      exact ⟨w, answers, rfl, congrArg Prod.fst hready⟩
    · cases h
  | pollComplete w => cases h
  | poll r decode => cases h

/-- A channel without a target keeps the promise. -/
theorem sealed_of_run {io : MessageChannel} (hio : io.target = .none)
    {h : List (State × Act (Payload p) R)} {s : State}
    (hr : Run (system (Payload.encode limit) io limit) h s) : Sealed limit h := by
  have hpre : ∀ e ∈ h, e.1.Sized limit ∧ e.1.io.target = .none := by
    intro e he
    obtain ⟨pre, hpre, -⟩ := hr.of_mem he
    exact ⟨sized_of_run hpre, (target_of_run hpre).trans hio⟩
  have hrefuses : ∀ e ∈ h, Refuses limit e := fun e he =>
    refuses_of_sealed (hpre e he).1 (hpre e he).2
  refine ⟨hrefuses, fun e he => made_next (hpre e he).2 e.2, ?_⟩
  rintro pre ⟨s₁, a⟩ post rfl m htakes
  obtain ⟨e, he, item, hacc⟩ := accepted_of_pending hr.split.1 m (pending_of_takes htakes)
  obtain ⟨w, answers, ha, hready⟩ := startSend_of_accepted hacc
  refine ⟨e, he, item, hacc, ?_⟩
  by_contra hne
  exact (hrefuses e (List.mem_append_left _ he) item w answers ha hne).1 hready

end Windows

/--
On Windows a sealed channel keeps its promise, whatever is called and whatever the system answers. On
Unix it does if and only if every item with descriptors fails for some other reason.
-/
theorem sealed_iff [Bincode] (libc : Unix.Libc) (p : PointerWidth) {R : Type}
    (decode : List UInt8 → Unix.Decoder R) (limit : Nat) :
    (∀ (pre : Windows.PreMessageChannel) newWithHandle io,
      pre.intoSealedChannel newWithHandle = .ok io →
      ∀ (h : List (Windows.State × Windows.Act (Windows.Payload p) R)) s,
        Run (Windows.system (Windows.Payload.encode limit) io limit) h s →
        Windows.Sealed limit h) ∧
    (∀ (pre : Unix.PreMessageChannel) context
        (h : List (Unix.State libc × Unix.Act (Unix.Payload p))) s,
      Run ((Unix.system (Unix.Payload.encode limit) decode (pre.intoSealedChannel libc).cmsg).startingAt
        ⟨.wrap (pre.intoSealedChannel libc) limit, context⟩) h s →
      (Unix.Sealed decode limit h ↔ ∀ e ∈ h, Unix.FailsAnyway limit e)) := by
  constructor
  · intro pre newWithHandle io hio h s hr
    have htarget : io.target = .none := by
      cases newWithHandle with
      | error e => cases hio
      | ok _ =>
        obtain rfl := Except.ok.inj hio
        rfl
    exact Windows.sealed_of_run htarget hr
  · intro pre context h s hr
    exact Unix.sealed_iff_failsAnyway hr

/-- A sealed channel on Windows, and one on Unix, which have just been made. -/
def Windows.sealedChannel : Windows.MessageChannel := ⟨⟨3, []⟩, true, .none, [], []⟩

def Unix.sealedChannel : Unix.MessageChannel Unix.linux :=
  (⟨3⟩ : Unix.PreMessageChannel).intoSealedChannel Unix.linux

open LittleEndian

/-- On Windows a file is refused. On Unix a file is refused with so much data that it does not fit. -/
theorem sealed_iff_refused :
    (∃ h s, Run (Windows.system (Windows.Payload.encode (p := .w64) 64) Windows.sealedChannel 64
        (R := RawFd)) h s ∧ h.length = 1 ∧ Windows.Sealed 64 h) ∧
    ∃ h s, Run ((Unix.system (Unix.Payload.encode (p := .w64) 64) Unix.SendableFd.decode
        Unix.sealedChannel.cmsg).startingAt ⟨.wrap Unix.sealedChannel 64, ⟨none, none, []⟩⟩) h s ∧
      h.length = 1 ∧ Unix.Sealed Unix.SendableFd.decode 64 h := by
  constructor
  · have hr : Run (Windows.system (Windows.Payload.encode (p := .w64) 64) Windows.sealedChannel 64
        (R := RawFd)) _ _ :=
      Run.of_replay [.startSend (.sendableFile 5) (.ok 8) Windows.handlesFrom100] rfl rfl
    exact ⟨_, _, hr, rfl, (sealed_iff Unix.linux .w64 Unix.SendableFd.decode 64).1 ⟨3, true⟩
      (.ok ()) _ rfl _ _ hr⟩
  · have hr : Run ((Unix.system (Unix.Payload.encode (p := .w64) 64) Unix.SendableFd.decode
        Unix.sealedChannel.cmsg).startingAt ⟨.wrap Unix.sealedChannel 64, ⟨none, none, []⟩⟩) _ _ :=
      Run.of_replay [.startSend (.both (.plain (List.replicate 60 0)) (.sendableFile 5))
        Unix.takesEight Unix.dupsFrom7] rfl rfl
    refine ⟨_, _, hr, rfl, ((sealed_iff Unix.linux .w64 Unix.SendableFd.decode 64).2 ⟨3⟩ _ _ _
      hr).mpr ?_⟩
    rintro e he item w answers ha - -
    obtain rfl := List.mem_singleton.mp he
    obtain ⟨rfl, -, -⟩ := Unix.Act.startSend.inj ha
    exact fun hfits => absurd hfits.1 (by decide)

/-- The user puts a file into a sealed channel on Unix, and it goes through. -/
theorem sealed_sends_file : ∃ h s,
    Run ((Unix.system (Unix.Payload.encode (p := .w64) 64) Unix.SendableFd.decode
      Unix.sealedChannel.cmsg).startingAt ⟨.wrap Unix.sealedChannel 64, ⟨none, none, []⟩⟩) h s ∧
    s.channel.io.socket.sent = [⟨usizeBytes 1, [7, 8]⟩] ∧
    ¬ Unix.Sealed Unix.SendableFd.decode 64 h := by
  have hr : Run ((Unix.system (Unix.Payload.encode (p := .w64) 64) Unix.SendableFd.decode
      Unix.sealedChannel.cmsg).startingAt ⟨.wrap Unix.sealedChannel 64, ⟨none, none, []⟩⟩) _ _ :=
    Run.of_replay [.startSend (.sendableFile 5) Unix.takesEight Unix.dupsFrom7,
      .pollComplete Unix.takesEight] rfl rfl
  refine ⟨_, _, hr, by decide, fun hsealed => ?_⟩
  exact (hsealed.refuses _ (.head _) (.sendableFile 5) Unix.takesEight Unix.dupsFrom7 rfl
    (by decide)).notReady rfl

end SandboxIpc
