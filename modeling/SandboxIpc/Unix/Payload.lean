import SandboxIpc.Ser.Bincode
import SandboxIpc.Unix.Raw
import SandboxIpc.Unix.SharedMem
import SandboxIpc.Unix.Transport

/-!
# Items with descriptors in them

What the types of the crate hand to a serializer on Unix, and what becomes of an item that is made of
them. Each descriptor is a `SendableFd`, whose `serialize` duplicates it and records the duplicate.

* `Payload` — any nesting of the types of the crate and plain data
* `serve_sender` — the descriptors a sender takes
* `startSend_payload` — what `start_send` makes of an item
-/

namespace SandboxIpc.Unix

open Infra

/-! ## The types of the crate -/

section Types

variable [Bincode] {p : PointerWidth}

def SendableFd.serialization (fd : RawFd) : List (Piece RawFd) := [.resource fd]

/-- `ScopedFd`, `SendableFile` and `SendableSocket` are serialized as the `SendableFd` in them. -/
def ScopedFd.serialization (fd : RawFd) : List (Piece RawFd) := SendableFd.serialization fd

def SendableFile.serialization (fd : RawFd) : List (Piece RawFd) := SendableFd.serialization fd

def SendableSocket.serialization (fd : RawFd) : List (Piece RawFd) := SendableFd.serialization fd

/-- With the token that `shm::SharedMem` adds. -/
def SharedMem.serialization (m : SharedMem p) (token : Token) : List (Piece RawFd) :=
  (match m.rwFd with
    | none => [.bytes (Bincode.tag.encode false)]
    | some fd => .bytes (Bincode.tag.encode true) :: ScopedFd.serialization fd)
  ++ ScopedFd.serialization m.roFd
  ++ [.bytes (usizeBytes m.size.toNat), .bytes (Bincode.uuid.encode token)]

def PreMessageChannel.serialization (pre : PreMessageChannel) : List (Piece RawFd) :=
  ScopedFd.serialization pre.fd

/-- With the token that `sync::MutexHandle` adds. -/
def MutexHandle.serialization (rawOffset : Usize p) (token : Token) : List (Piece RawFd) :=
  [.bytes (usizeBytes rawOffset.toNat), .bytes (Bincode.uuid.encode token)]

/-- `ProcessHandle` is empty. -/
def ProcessHandle.serialization : List (Piece RawFd) := []

end Types

/-- An item. Lengths, variants and the like are plain bytes between its parts. -/
inductive Payload (p : PointerWidth)
  | plain (bytes : List UInt8)
  | sendableFd (fd : RawFd)
  | scopedFd (fd : RawFd)
  | sendableFile (fd : RawFd)
  | sendableSocket (fd : RawFd)
  | sharedMem (m : SharedMem p) (token : Token)
  | preMessageChannel (pre : PreMessageChannel) (maxMessageSize : Usize p)
  | preRawMessageChannel (pre : PreMessageChannel)
  | mutexHandle (rawOffset : Usize p) (token : Token)
  | processHandle
  | both (first second : Payload p)

namespace Payload

variable [Bincode] {p : PointerWidth}

def serialization : Payload p → List (Piece RawFd)
  | .plain bytes => [.bytes bytes]
  | .sendableFd fd => SendableFd.serialization fd
  | .scopedFd fd => ScopedFd.serialization fd
  | .sendableFile fd => SendableFile.serialization fd
  | .sendableSocket fd => SendableSocket.serialization fd
  | .sharedMem m token => m.serialization token
  | .preMessageChannel pre maxMessageSize =>
    pre.serialization ++ [.bytes (usizeBytes maxMessageSize.toNat)]
  | .preRawMessageChannel pre => pre.serialization
  | .mutexHandle rawOffset token => MutexHandle.serialization rawOffset token
  | .processHandle => ProcessHandle.serialization
  | .both first second => first.serialization ++ second.serialization

/-- The descriptors in an item. -/
def descriptors (item : Payload p) : List RawFd := resources item.serialization

/-- The size of an item. An index takes eight bytes. -/
def size (item : Payload p) : Nat := SandboxIpc.size (fun _ => 8) item.serialization

end Payload

/-! ## bincode on Unix -/

/-- The encoder that does what the code does. -/
def encoder : Code RawFd Nat → Encoder
  | .done => .done
  | .fail failure => .fail failure
  | .write bytes next => .write bytes fun fitted => encoder (next fitted)
  | .resource fd next => .sendableFd fd fun index => encoder (next index)

theorem code_encoder (code : Code RawFd Nat) : (encoder code).code = code := by
  induction code with
  | done => rfl
  | fail failure => rfl
  | write bytes next ih => exact congrArg (Code.write bytes) (funext ih)
  | resource fd next ih => exact congrArg (Code.resource fd) (funext ih)

/-- The `serialize` of an item on a channel with this size limit. -/
def Payload.encode [Bincode] {p : PointerWidth} (limit : Nat) (item : Payload p) : Encoder :=
  encoder (Bincode.serializeInto usizeBytes limit item.serialization)

/-! ## What a sender takes -/

/-- The text for a list that is full. -/
def tooMany : IoError :=
  .new .invalidInput "too many file descriptors in message destined for channel"

/-- The system duplicates the descriptor for `send`. -/
def DupAnswers.duplicates (a : DupAnswers) (fd : RawFd) : Bool :=
  match a.dup fd with
  | .error _ => false
  | .ok newFd =>
    match a.setCloexec newFd with
    | .error _ => false
    | .ok () => true

theorem HandleSender.send_cases (s : HandleSender) (fd : RawFd) (a : DupAnswers) :
    (s.index < maxMsgFds ∧ a.duplicates fd = true ∧
      ∃ s', s.send fd a = (.ok s.index, s') ∧ s'.index = s.index + 1) ∨
    (s.index < maxMsgFds ∧ a.duplicates fd = false ∧ ∃ e, s.send fd a = (.error e, s)) ∨
    (maxMsgFds ≤ s.index ∧ s.send fd a = (.error tooMany, s)) := by
  unfold send DupAnswers.duplicates
  by_cases h : s.index < maxMsgFds
  · rw [dif_pos h]
    cases a.dup fd with
    | error e => exact .inr (.inl ⟨h, rfl, e, rfl⟩)
    | ok newFd =>
      dsimp only
      cases a.setCloexec newFd with
      | error e => exact .inr (.inl ⟨h, rfl, e, rfl⟩)
      | ok _ => exact .inl ⟨h, rfl, _, rfl, rfl⟩
  · rw [dif_neg h]
    exact .inr (.inr ⟨Nat.le_of_not_lt h, rfl⟩)

/-- The system duplicates all of these descriptors, from the call `n` on. -/
def duplicable (answers : Nat → DupAnswers) : List RawFd → Nat → Bool
  | [], _ => true
  | fd :: fds, n => (answers n).duplicates fd && duplicable answers fds (n + 1)

/-- A sender takes some descriptors if it has room for them and the system duplicates them. -/
theorem serve_sender (answers : Nat → DupAnswers) (fds : List RawFd) (n : Nat) (s : HandleSender) :
    (s.index + fds.length ≤ maxMsgFds ∧ duplicable answers fds n = true ∧
      ∃ indices s', serve (serveFd answers) fds n (some s) = (.ok indices, some s') ∧
        s'.index = s.index + fds.length) ∨
    (∃ message s', ¬ (s.index + fds.length ≤ maxMsgFds ∧ duplicable answers fds n = true) ∧
      serve (serveFd answers) fds n (some s) = (.error message, some s') ∧
      (duplicable answers fds n = true → message = tooMany.display)) := by
  induction fds generalizing n s with
  | nil => exact .inl ⟨s.index_le, rfl, _, s, rfl, rfl⟩
  | cons fd fds ih =>
    have hserve : serveFd answers n fd (some s)
        = ((s.send fd (answers n)).1.mapError IoError.display, some (s.send fd (answers n)).2) := rfl
    rw [serve_cons, hserve]
    rcases s.send_cases fd (answers n) with
      ⟨hroom, hdup, s', hsend, hindex⟩ | ⟨hroom, hdup, e, hsend⟩ | ⟨hfull, hsend⟩
    · rw [hsend]
      have hlength : s.index + (fd :: fds).length = s'.index + fds.length := by
        rw [hindex, List.length_cons]
        omega
      have hall : duplicable answers (fd :: fds) n = duplicable answers fds (n + 1) := by
        rw [duplicable, hdup, Bool.true_and]
      rw [hlength, hall]
      rcases ih (n + 1) s' with
        ⟨hle, hrest, indices, s'', hserve, hindex'⟩ | ⟨message, s'', hnot, hserve, hmessage⟩
      · refine .inl ⟨hle, hrest, s.index :: indices, s'', ?_, hindex'⟩
        dsimp only [Except.mapError]
        rw [hserve]
        rfl
      · refine .inr ⟨message, s'', hnot, ?_, hmessage⟩
        dsimp only [Except.mapError]
        rw [hserve]
        rfl
    · -- the system refuses
      have hall : duplicable answers (fd :: fds) n = false := by
        rw [duplicable, hdup, Bool.false_and]
      rw [hsend, hall]
      exact .inr ⟨_, s, nofun, rfl, nofun⟩
    · -- the list is full
      rw [hsend]
      refine .inr ⟨_, s, ?_, rfl, fun _ => rfl⟩
      rw [List.length_cons]
      omega

/-! ## What a channel accepts -/

variable [Bincode] {libc : Libc} {p : PointerWidth}

/-- The sender a serialization starts from takes the descriptors of an item twice. -/
def Payload.Taken (answers : Nat → DupAnswers) (item : Payload p) : Prop :=
  2 * item.descriptors.length ≤ maxMsgFds ∧
    duplicable answers (item.descriptors ++ item.descriptors) 0 = true

/-- A serialization succeeds if the item fits and its descriptors are taken twice. The control buffer
then holds two for each descriptor of the item. -/
theorem serialize_payload {limit : Nat} (item : Payload p) (answers : Nat → DupAnswers)
    {buffer : List UInt8} (hbuffer : buffer.length = limit) (io : MessageChannel libc)
    (context : Context) :
    (item.size ≤ limit ∧ item.Taken answers ∧ ∃ cursor cmsg,
      serialize answers (Payload.encode limit) item ⟨buffer, 0⟩ io context
        = ⟨.ok (), cursor, { io with cmsg }, context⟩ ∧
      cmsg.rights.length = 2 * item.descriptors.length) ∨
    (¬ (item.size ≤ limit ∧ item.Taken answers) ∧ ∃ failure,
      (serialize answers (Payload.encode limit) item ⟨buffer, 0⟩ io context).result
        = .error failure ∧
      (item.size ≤ limit → duplicable answers (item.descriptors ++ item.descriptors) 0 = true →
        failure = .error tooMany.display)) := by
  have hwidth : ∀ n fd sender index, (serveFd answers n fd sender).1 = .ok index →
      (usizeBytes index).length = 8 := fun _ _ _ index _ => length_usizeBytes index
  have htwice := Bincode.twice usizeBytes limit item.serialization
  unfold serialize
  rw [Encoder.run_code, Payload.encode, code_encoder]
  by_cases hfits : item.size ≤ limit
  · obtain ⟨cursor, hrun, -⟩ := htwice.run_fits hwidth hfits (some HandleSender.new) hbuffer
    have hlength : HandleSender.new.index + (item.descriptors ++ item.descriptors).length
        = 2 * item.descriptors.length := by
      show 0 + _ = _
      rw [List.length_append]
      omega
    have hserve := serve_sender answers (item.descriptors ++ item.descriptors) 0 .new
    rw [hlength] at hserve
    generalize hserved : serve (serveFd answers) (resources item.serialization
      ++ resources item.serialization) 0 (some HandleSender.new) = served at hrun
    have heq : serve (serveFd answers) (item.descriptors ++ item.descriptors) 0
      (some HandleSender.new) = served := hserved
    dsimp only
    rw [heq] at hserve
    rw [hrun]
    rcases hserve with ⟨hle, hdup, indices, s', rfl, hindex⟩ | ⟨message, s', hnot, rfl, hmessage⟩
    · have hroom : s'.recorded.length ≤ maxMsgFds := by
        rw [s'.length_recorded]
        exact s'.index_le
      obtain ⟨cmsg, hset⟩ := Cmsg.setFds_ok (c := io.cmsg) hroom
      refine .inl ⟨hfits, ⟨hle, hdup⟩, cursor, cmsg, ?_, ?_⟩
      · dsimp only [Code.outcome, commit]
        rw [hset]
      · rw [(Cmsg.rights_setFds hset).1, s'.length_recorded, hindex]
    · refine .inr ⟨fun h => hnot h.2, .error message, rfl, ?_⟩
      intro _ hdup
      rw [hmessage hdup]
  · obtain ⟨failure, s', hrun⟩ := htwice.run_large hwidth (Nat.lt_of_not_le hfits)
      (some HandleSender.new) ⟨buffer, 0⟩
    rw [hrun]
    exact .inr ⟨fun h => hfits h.1, failure, rfl, fun h => absurd h hfits⟩

/-- What `start_send` does with an item, once the item before is gone. -/
theorem startSend_payload {limit : Nat} {s : State libc} (hs : s.channel.Sized limit)
    (item : Payload p) {w : WriteAnswers} (hfree : WayFree s w) (answers : Nat → DupAnswers) :
    (item.size ≤ limit ∧ item.Taken answers ∧
      (startSend (Payload.encode limit) s item w answers).1 = .ok .ready ∧
      (startSend (Payload.encode limit) s item w answers).2.channel.io.cmsg.rights.length
        = 2 * item.descriptors.length ∧
      (startSend (Payload.encode limit) s item w answers).2.channel.bufferedSend.isSome) ∨
    (¬ (item.size ≤ limit ∧ item.Taken answers) ∧ ∃ failure,
      (startSend (Payload.encode limit) s item w answers).1
        = .error (Failure.toStop .invalidInput failure) ∧
      (item.size ≤ limit → duplicable answers (item.descriptors ++ item.descriptors) 0 = true →
        failure = .error tooMany.display)) := by
  have hsized := hs.pollComplete libc.eagain (MessageChannel.write w)
  unfold startSend
  rw [BincodeDatagram.startSend_of_ready (pollComplete_ready_iff.mpr hfree)]
  generalize (s.channel.pollComplete libc.eagain (MessageChannel.write w)).2 = d at hsized ⊢
  rcases serialize_payload item answers hsized.length d.io s.context with
    ⟨hfits, htaken, cursor, cmsg, hser, hrights⟩ | ⟨hnot, failure, hser, hmessage⟩
  · rw [BincodeDatagram.store_of_ok hser]
    exact .inl ⟨hfits, htaken, rfl, hrights, rfl⟩
  · rw [BincodeDatagram.store_of_error hser]
    exact .inr ⟨hnot, failure, rfl, hmessage⟩

end SandboxIpc.Unix
