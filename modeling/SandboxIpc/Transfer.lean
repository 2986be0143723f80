import SandboxIpc.Unix.Payload
import SandboxIpc.Unix.Travel
import SandboxIpc.Windows.Payload

/-!
# How many resources an item takes along

Each `serialize` of a resource duplicates it and takes note of the duplicate, and bincode runs every
`serialize` twice. What of the first pass is recorded goes along with what the message refers to.

* `Unix.TransfersExactly` — there is room for the descriptors of an item, and it is sent with as many
* `Windows.TransfersExactly` — an accepted item leaves its handles in the target, and no others
* `transfersExactly_iff` — it holds for the items without descriptors or handles
-/

namespace SandboxIpc

open Infra

namespace Unix

variable {libc : Libc} {p : PointerWidth} {R : Type}

/-! ## Until a message is taken -/

section Pending

variable {T : Type} {encode : T → Encoder} {decode : List UInt8 → Decoder R} {s : State libc}
  {n : Nat} (hn : s.channel.bufferedSend = some n)

include hn

/-- A call that does not read leaves the pending message alone, or the kernel takes it. -/
theorem pending_of_untaken {a : Act T} (hread : a.recvmsg = none)
    (hsent : (next encode decode s a).channel.io.socket.sent = s.channel.io.socket.sent) :
    (next encode decode s a).channel.bufferedSend = some n ∧
      (next encode decode s a).channel.io.cmsg = s.channel.io.cmsg := by
  have hflush : ∀ d, Flush s.channel d → d.io.socket.sent = s.channel.io.socket.sent →
      d = s.channel := by
    intro d hf hsent
    cases hf with
    | kept => rfl
    | taken => exact absurd hsent (by simp [MessageChannel.send])
  cases a with
  | startSend item w answers =>
    have hf := flush_pollComplete w s.channel
    dsimp only [next] at hsent ⊢
    rcases s.channel.startSend_cases (serialize answers encode) item s.context with
      ⟨r, -, heq⟩ | ⟨hready, heq⟩
    · rw [heq] at hsent ⊢
      rw [hflush _ hf hsent]
      exact ⟨hn, rfl⟩
    · -- nothing would be pending any more
      have hnone := BincodeDatagram.bufferedSend_of_ready hready
      rw [heq, BincodeDatagram.io_store] at hsent
      rw [(serialize_eq answers encode item _ _ _).2] at hsent
      rw [hflush _ hf hsent, hn] at hnone
      cases hnone
  | pollComplete w =>
    dsimp only [next] at hsent ⊢
    rw [hflush _ (flush_pollComplete w s.channel) hsent]
    exact ⟨hn, rfl⟩
  | poll r answers =>
    have hcmsg := s.channel.io.read_snd r s.channel.rxBuffer.length
    rw [show r.outcome = none from hread] at hcmsg
    dsimp only [next]
    rcases s.channel.poll_cases libc.eagain (MessageChannel.read r) (deserialize answers decode)
      s.context with ⟨-, _, _, heq⟩ | ⟨_, _, _, -, -, heq⟩
    · rw [heq, hcmsg]
      exact ⟨hn, rfl⟩
    · rw [heq]
      dsimp only [deserialize]
      rw [hcmsg]
      exact ⟨hn, rfl⟩

/-- The kernel takes the pending message. -/
theorem takes_pending : Takes encode decode (s, .pollComplete ⟨.ok true, .ok n, .ok ()⟩)
    ⟨s.channel.txBuffer.take n, s.channel.io.cmsg.rights⟩ := by
  unfold Takes
  dsimp only [next]
  unfold BincodeDatagram.pollComplete
  rw [hn]
  dsimp only [MessageChannel.write]
  rw [if_pos rfl]
  rfl

end Pending

/-! ## On Unix -/

theorem duplicable_dupsFrom7 (fds : List RawFd) (n : Nat) : duplicable dupsFrom7 fds n = true := by
  induction fds generalizing n with
  | nil => rfl
  | cons fd fds ih => exact ih (n + 1)

variable [Bincode]

/-- The call neither reads nor sends. -/
def Waits (decode : List UInt8 → Decoder R) (limit : Nat) (e : State libc × Act (Payload p)) :
    Prop :=
  e.2.recvmsg = none ∧ (next (Payload.encode limit) decode e.1 e.2).channel.io.socket.sent
    = e.1.channel.io.socket.sent

/-- The descriptors of an item are transferred, each of them once. -/
structure TransfersExactly (decode : List UInt8 → Decoder R) (limit : Nat) (s : State libc)
    (item : Payload p) : Prop where
  /-- An item does not fail because the list of descriptors is full. -/
  slots : ∀ w answers, WayFree s w → (startSend (Payload.encode limit) s item w answers).1
    ≠ .error (Failure.toStop .invalidInput (.error tooMany.display))
  /-- If it is accepted, and then taken without a read in between, its message carries as many
  descriptors as the item has. -/
  rights : ∀ w answers, (startSend (Payload.encode limit) s item w answers).1 = .ok .ready →
    ∀ (h : List (State libc × Act (Payload p))) s',
      Run ((system (Payload.encode limit) decode s.channel.io.cmsg).startingAt
        (startSend (Payload.encode limit) s item w answers).2) h s' →
    (∀ e ∈ h, Waits decode limit e) →
    ∀ (a : Act (Payload p)) m, Takes (Payload.encode limit) decode (s', a) m →
      m.fds.length = item.descriptors.length

/-- An item that has been accepted is taken with the descriptors that were recorded for it. -/
theorem rights_of_waits {decode : List UInt8 → Decoder R} {limit k : Nat} {s₀ s : State libc}
    {cmsg : Cmsg libc maxMsgFds} {h : List (State libc × Act (Payload p))}
    (hsome : s₀.channel.bufferedSend.isSome) (hk : s₀.channel.io.cmsg.rights.length = k)
    (hr : Run ((system (Payload.encode limit) decode cmsg).startingAt s₀) h s)
    (hwaits : ∀ e ∈ h, Waits decode limit e) {a : Act (Payload p)} {m : Message}
    (htakes : Takes (Payload.encode limit) decode (s, a) m) : m.fds.length = k := by
  obtain ⟨n, hn⟩ := Option.isSome_iff_exists.mp hsome
  have hpending : s.channel.bufferedSend = some n ∧ s.channel.io.cmsg = s₀.channel.io.cmsg := by
    refine hr.invariant_of (Waits decode limit)
      (fun s => s.channel.bufferedSend = some n ∧ s.channel.io.cmsg = s₀.channel.io.cmsg) ?_ ?_ hwaits
    · rintro s rfl
      exact ⟨hn, rfl⟩
    · rintro s a s' ⟨hn, hcmsg⟩ ⟨hread, hsent⟩ hstep
      obtain rfl := Option.some.inj hstep
      obtain ⟨hn', hcmsg'⟩ := pending_of_untaken hn hread hsent
      exact ⟨hn', hcmsg'.trans hcmsg⟩
  obtain ⟨k', -, rfl⟩ := pending_of_takes htakes
  dsimp only
  rw [hpending.2, hk]

section Exactly

variable {limit : Nat} {s : State libc} {item : Payload p}
  (hs : s.channel.Sized limit) (hfits : item.size ≤ limit)

include hs hfits

/-- An item without descriptors is accepted once the item before is gone. -/
theorem startSend_of_bare (hnil : item.descriptors = []) {w : WriteAnswers} (hfree : WayFree s w)
    (answers : Nat → DupAnswers) :
    (startSend (Payload.encode limit) s item w answers).1 = .ok .ready ∧
    (startSend (Payload.encode limit) s item w answers).2.channel.io.cmsg.rights.length
      = item.descriptors.length ∧
    (startSend (Payload.encode limit) s item w answers).2.channel.bufferedSend.isSome := by
  have htaken : item.Taken answers := by
    unfold Payload.Taken
    rw [hnil]
    exact ⟨Nat.zero_le _, rfl⟩
  rcases startSend_payload hs item hfree answers with
    ⟨-, -, hready, hrights, hsome⟩ | ⟨hnot, -⟩
  · rw [hnil] at hrights ⊢
    exact ⟨hready, hrights, hsome⟩
  · exact absurd ⟨hfits, htaken⟩ hnot

/-- An item with descriptors is sent with twice as many, or there is no room for them. -/
theorem not_exactly (decode : List UInt8 → Decoder R) (hne : item.descriptors ≠ []) :
    ¬ TransfersExactly decode limit s item := by
  intro hexact
  have hpos := List.length_pos_iff.mpr hne
  -- the kernel takes what is pending, and the system duplicates whatever it is given
  obtain ⟨w, hfree⟩ := exists_wayFree s
  rcases startSend_payload hs item hfree dupsFrom7 with
    ⟨-, -, hready, hrights, hsome⟩ | ⟨-, failure, hresult, hmessage⟩
  · have hnow := hexact.rights w dupsFrom7 hready [] _ (.nil rfl) (List.forall_mem_nil _)
    generalize (startSend (Payload.encode limit) s item w dupsFrom7).2 = s'
      at hrights hsome hnow
    obtain ⟨n, hn⟩ := Option.isSome_iff_exists.mp hsome
    have hlength := hnow _ _ (takes_pending hn)
    dsimp only at hlength
    omega
  · obtain rfl := hmessage hfits (duplicable_dupsFrom7 _ 0)
    exact hexact.slots w dupsFrom7 hfree hresult

/-- The descriptors of an item are transferred exactly if it has none: its `serialize` records each
of them twice. -/
theorem exactly_iff (decode : List UInt8 → Decoder R) :
    TransfersExactly decode limit s item ↔ item.descriptors = [] := by
  constructor
  · intro hexact
    by_contra hne
    exact not_exactly hs hfits decode hne hexact
  · intro hnil
    constructor
    · intro w answers hfree hresult
      rw [(startSend_of_bare hs hfits hnil hfree answers).1] at hresult
      cases hresult
    · intro w answers hready h s' hr hwaits a m htakes
      have hfree : WayFree s w := by
        by_contra hblocked
        exact startSend_of_blocked hblocked _ item answers hready
      obtain ⟨-, hrights, hsome⟩ := startSend_of_bare hs hfits hnil hfree answers
      exact rights_of_waits hsome hrights hr hwaits htakes

end Exactly

end Unix

/-! ## On Windows -/

namespace Windows

variable [Bincode] {p : PointerWidth} {limit : Nat} {s : State} {item : Payload p}

/-- The peer finds this handle in the message when it reads it as this item. -/
def Payload.Refers (item : Payload p) (message : List UInt8) (handle : Handle) : Prop :=
  ∃ sent, sent.length = item.resources.length ∧
    message = render Sent.content item.serialization sent ∧ handle ∈ remotes sent

/-- If an item is accepted there are as many new handles in the target as it has, and its message
refers to all of them. -/
def TransfersExactly (limit : Nat) (s : State) (item : Payload p) : Prop :=
  ∀ w a, (startSend (Payload.encode limit) s item w a).1 = .ok .ready →
    ∃ made, (startSend (Payload.encode limit) s item w a).2.io.made = s.io.made ++ made ∧
      (startSend (Payload.encode limit) s item w a).2.io.closed = s.io.closed ∧
      made.length = item.handles.length ∧
      ∀ message ∈ (startSend (Payload.encode limit) s item w a).2.pending,
        ∀ handle ∈ made, item.Refers message handle

/-- Whatever a sealed channel accepts has no handles. -/
theorem handles_of_answers (hnone : item.handles = [] ∨ s.io.target = .none) {a : SerializeAnswers}
    {sent : List Sent} (hanswers : item.answers s.io a = .ok sent) : item.handles = [] := by
  rcases hnone with hhandles | htarget
  · exact hhandles
  · by_contra hhandles
    have hresources : item.resources ≠ [] := by
      intro hnil
      unfold Payload.handles at hhandles
      rw [hnil] at hhandles
      exact hhandles rfl
    rw [answers_sealed hresources htarget a] at hanswers
    cases hanswers

section Exactly

variable (hs : s.Sized limit) (hfits : item.size ≤ limit)

include hs hfits

/-- An item with handles leaves twice as many in the target. -/
theorem not_exactly (hhandles : item.handles ≠ []) (htarget : s.io.target ≠ .none) :
    ¬ TransfersExactly limit s item := by
  intro hexact
  have hpos := List.length_pos_iff.mpr hhandles
  obtain ⟨a, sent, hsent⟩ : ∃ a sent, item.answers s.io a = .ok sent :=
    ⟨⟨generous, ⟨fun _ => true, fun _ _ => true⟩⟩, serve_generous _ 0 htarget s.io.made⟩
  obtain ⟨w, hfree⟩ := exists_wayFree s
  rcases startSend_payload hs item hfree a with
    ⟨-, sent', -, hready, hnew, -, hlength, -⟩ | ⟨hlarge | ⟨message, hmessage⟩, -⟩
  · obtain ⟨made, hmade, -, hcount, -⟩ := hexact w a hready
    obtain rfl : remotes sent' = made := List.append_cancel_left (hnew.symm.trans hmade)
    omega
  · exact absurd hfits (Nat.not_le.mpr hlarge)
  · rw [hsent] at hmessage
    cases hmessage

/-- An accepted item leaves exactly its handles in the target if it has none: its `serialize` makes
each of them twice. -/
theorem exactly_iff :
    TransfersExactly limit s item ↔ item.handles = [] ∨ s.io.target = .none := by
  constructor
  · intro hexact
    by_contra hne
    obtain ⟨hhandles, htarget⟩ := not_or.mp hne
    exact not_exactly hs hfits hhandles htarget hexact
  · intro hnone w a hready
    have hfree : WayFree s w := by
      by_contra hblocked
      exact startSend_of_blocked hblocked item a hready
    rcases startSend_payload hs item hfree a with
      ⟨-, sent, hanswers, -, hnew, hclosed, hlength, -⟩ | ⟨-, stop, hstop⟩
    · rw [handles_of_answers hnone hanswers] at hlength ⊢
      rw [List.length_eq_zero_iff.mp hlength] at hnew
      exact ⟨[], hnew, hclosed, rfl, fun _ _ _ h => by cases h⟩
    · rw [hready] at hstop
      cases hstop

end Exactly

end Windows

/--
On Unix an item that fits, with up to thirty-two descriptors, is sent with exactly its descriptors if
and only if it has none. On Windows an accepted item leaves exactly its handles in the target if and
only if it has none, or the channel is sealed.
-/
theorem transfersExactly_iff [Bincode] (libc : Unix.Libc) (p : PointerWidth) {R : Type}
    (decode : List UInt8 → Unix.Decoder R) (limit : Nat) :
    (∀ io context (h : List (Unix.State libc × Unix.Act (Unix.Payload p))) s,
      Run ((Unix.system (Unix.Payload.encode limit) decode io.cmsg).startingAt
        ⟨.wrap io limit, context⟩) h s →
      ∀ item : Unix.Payload p, item.size ≤ limit →
        ((item.descriptors.length ≤ Unix.maxMsgFds → Unix.TransfersExactly decode limit s item) ↔
          item.descriptors = [] ∨ Unix.maxMsgFds < item.descriptors.length)) ∧
    (∀ io (h : List (Windows.State × Windows.Act (Windows.Payload p) R)) s,
      Run (Windows.system (Windows.Payload.encode limit) io limit) h s →
      ∀ item : Windows.Payload p, item.size ≤ limit →
        (Windows.TransfersExactly limit s item ↔ item.handles = [] ∨ s.io.target = .none)) := by
  constructor
  · intro io context h s hr item hfits
    have hs := Unix.sized_of_run (BincodeDatagram.sized_wrap io limit) hr
    rw [Unix.exactly_iff hs hfits decode]
    by_cases hroom : item.descriptors.length ≤ Unix.maxMsgFds
    · rw [or_iff_left (Nat.not_lt.mpr hroom)]
      exact forall_prop_of_true hroom
    · exact iff_of_true (fun h => absurd h hroom) (.inr (Nat.lt_of_not_le hroom))
  · intro io h s hr item hfits
    exact Windows.exactly_iff (Windows.sized_of_run hr) hfits

/-- A channel on Windows that has just been made, to a process with the handle 40. -/
def Windows.freshChannel : Windows.State :=
  .wrap ⟨⟨3, []⟩, true, .remoteProcess ⟨40, 7⟩, [], []⟩ 64

open LittleEndian

/-- Plain data is fine on both platforms. -/
theorem transfersExactly_plain :
    Unix.TransfersExactly Unix.SendableFd.decode 64 Unix.freshChannel
      (.plain [1, 2] : Unix.Payload .w64) ∧
    Windows.TransfersExactly 64 Windows.freshChannel (.plain [1, 2] : Windows.Payload .w64) :=
  ⟨((transfersExactly_iff Unix.linux .w64 Unix.SendableFd.decode 64).1 _ _ [] Unix.freshChannel
      (.nil rfl) (.plain [1, 2]) (by decide)).mpr (.inl rfl) (by decide),
    ((transfersExactly_iff Unix.linux .w64 Unix.SendableFd.decode 64).2 _ [] Windows.freshChannel
      (.nil rfl) (.plain [1, 2]) (by decide)).mpr (.inl rfl)⟩

/-- The system numbers the handles it makes in the target from 100 on, and closes any handle. -/
def Windows.handlesFrom100 : Windows.SerializeAnswers where
  send n := { Windows.generous n with duplicateHandle := fun _ _ => .ok (100 + n) }
  close := ⟨fun _ => true, fun _ _ => true⟩

/-- One file is sent as two descriptors on Unix, and leaves two handles in the target on Windows. -/
theorem file_transferred_twice :
    (Unix.startSend (Unix.Payload.encode (p := .w64) 64) Unix.freshChannel (.sendableFile 5)
      Unix.takesEight Unix.dupsFrom7).2.channel.io.cmsg.rights = [7, 8] ∧
    ¬ Unix.TransfersExactly Unix.SendableFd.decode 64 Unix.freshChannel
      (.sendableFile 5 : Unix.Payload .w64) ∧
    (Windows.startSend (Windows.Payload.encode (p := .w64) 64) Windows.freshChannel
      (.sendableFile 5) (.ok 8) Windows.handlesFrom100).2.io.made = [100, 101] ∧
    ¬ Windows.TransfersExactly 64 Windows.freshChannel
      (.sendableFile 5 : Windows.Payload .w64) := by
  refine ⟨by decide, ?_, by decide, ?_⟩
  · intro hexact
    have hnow := hexact.rights Unix.takesEight Unix.dupsFrom7 rfl [] _ (.nil rfl)
      (List.forall_mem_nil _) (.pollComplete Unix.takesEight) ⟨usizeBytes 1, [7, 8]⟩ rfl
    exact absurd hnow (by decide)
  · intro hexact
    obtain ⟨made, hmade, -, hcount, -⟩ := hexact (.ok 8) Windows.handlesFrom100 rfl
    obtain rfl : [100, 101] = made := hmade
    exact absurd hcount (by decide)

end SandboxIpc
