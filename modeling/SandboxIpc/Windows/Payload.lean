import SandboxIpc.Windows.Channel
import SandboxIpc.Windows.SharedMem

/-!
# Items with handles in them

What the types of the crate hand to a serializer on Windows, and what becomes of an item that is made
of them. Each handle is a `SendableWinHandle`, whose `serialize` duplicates it into the target; a
socket goes as its protocol information instead, from which the peer makes a socket of its own.

* `Payload` — any nesting of the types of the crate and plain data
* `startSend_payload` — what `start_send` makes of an item, and the handles it leaves in the target
-/

namespace SandboxIpc.Windows

open Infra

/-! ## The types of the crate -/

section Types

variable [Bincode] {p : PointerWidth}

def SendableWinHandle.serialization (handle : Handle) : List (Piece Resource) :=
  [.resource (.handle handle)]

/-- A `SendableFile` is serialized as a `SendableWinHandle` of its handle. -/
def SendableFile.serialization (handle : Handle) : List (Piece Resource) :=
  SendableWinHandle.serialization handle

def SendableSocket.serialization (socket : RawSocket) : List (Piece Resource) :=
  [.resource (.socket socket)]

/-- With the token that `shm::SharedMem` adds. -/
def SharedMem.serialization (handle : Handle) (m : SharedMem p) (token : Token) :
    List (Piece Resource) :=
  SendableWinHandle.serialization handle
    ++ [.bytes (usizeBytes m.size.toNat), .bytes (Bincode.uuid.encode token)]

def PreMessageChannel.serialization (pre : PreMessageChannel) : List (Piece Resource) :=
  SendableWinHandle.serialization pre.pipe ++ [.bytes (Bincode.bool.encode pre.server)]

/-- With the token that `sync::MutexHandle` adds. -/
def MutexHandle.serialization (semaphore : Handle) (rawOffset : Usize p) (token : Token) :
    List (Piece Resource) :=
  SendableWinHandle.serialization semaphore
    ++ [.bytes (usizeBytes rawOffset.toNat), .bytes (Bincode.uuid.encode token)]

def ProcessHandle.serialization (process : ProcessHandle) : List (Piece Resource) :=
  SendableWinHandle.serialization process.handle ++ [.bytes (Bincode.u32.encode process.id)]

end Types

/-- An item. Lengths, variants and the like are plain bytes between its parts. -/
inductive Payload (p : PointerWidth)
  | plain (bytes : List UInt8)
  | sendableWinHandle (handle : Handle)
  | sendableFile (handle : Handle)
  | sendableSocket (socket : RawSocket)
  | sharedMem (handle : Handle) (m : SharedMem p) (token : Token)
  | preMessageChannel (pre : PreMessageChannel) (maxMessageSize : Usize p)
  | preRawMessageChannel (pre : PreMessageChannel)
  | mutexHandle (semaphore : Handle) (rawOffset : Usize p) (token : Token)
  | processHandle (process : ProcessHandle)
  | both (first second : Payload p)

namespace Payload

variable [Bincode] {p : PointerWidth}

def serialization : Payload p → List (Piece Resource)
  | .plain bytes => [.bytes bytes]
  | .sendableWinHandle handle => SendableWinHandle.serialization handle
  | .sendableFile handle => SendableFile.serialization handle
  | .sendableSocket socket => SendableSocket.serialization socket
  | .sharedMem handle m token => m.serialization handle token
  | .preMessageChannel pre maxMessageSize =>
    pre.serialization ++ [.bytes (usizeBytes maxMessageSize.toNat)]
  | .preRawMessageChannel pre => pre.serialization
  | .mutexHandle semaphore rawOffset token => MutexHandle.serialization semaphore rawOffset token
  | .processHandle process => process.serialization
  | .both first second => first.serialization ++ second.serialization

/-- The handles and sockets in an item. -/
def resources (item : Payload p) : List Resource := SandboxIpc.resources item.serialization

/-- The handles in an item. -/
def handles (item : Payload p) : List Handle := handlesOf item.resources

def size (item : Payload p) : Nat := SandboxIpc.size Resource.width item.serialization

/-- The `serialize` of an item on a channel with this size limit. -/
def encode (limit : Nat) (item : Payload p) : Code Resource Sent :=
  Bincode.serializeInto Sent.content limit item.serialization

end Payload

/-! ## What a channel accepts -/

variable [Bincode] {p : PointerWidth} {limit : Nat}

/-- What the system answers when an item is serialized on this channel, for both passes. -/
def Payload.answers (item : Payload p) (io : MessageChannel) (a : SerializeAnswers) :
    Except String (List Sent) :=
  (serve (serveResource a.send) (item.resources ++ item.resources) 0
    ⟨some ⟨io.target, []⟩, io.made⟩).1

/-- A serialization succeeds if the item fits and the system makes all of it twice. The handles of
both passes stay open in the target, and the message has those of the second. -/
theorem serialize_payload (item : Payload p) (a : SerializeAnswers) {buffer : List UInt8}
    (hbuffer : buffer.length = limit) (io : MessageChannel) :
    (item.size ≤ limit ∧ ∃ sent cursor, item.answers io a = .ok sent ∧
      serialize a (Payload.encode limit) item ⟨buffer, 0⟩ io ()
        = ⟨.ok (), cursor, { io with made := io.made ++ remotes sent }, ()⟩ ∧
      (remotes sent).length = 2 * item.handles.length ∧
      cursor.written
        = render Sent.content item.serialization (sent.drop item.resources.length)) ∨
    ((limit < item.size ∨ ∃ message, item.answers io a = .error message) ∧ ∃ failure,
      (serialize a (Payload.encode limit) item ⟨buffer, 0⟩ io ()).result = .error failure) := by
  have hwidth : ∀ n r making sent, (serveResource a.send n r making).1 = .ok sent →
      sent.content.length = r.width := length_serveResource
  have htwice := Bincode.twice Sent.content limit item.serialization
  unfold serialize Payload.encode
  by_cases hfits : item.size ≤ limit
  · obtain ⟨cursor, hrun, hrender⟩ := htwice.run_fits hwidth hfits
      ⟨some ⟨io.target, []⟩, io.made⟩ hbuffer
    generalize hserve : serve (serveResource a.send)
      (SandboxIpc.resources item.serialization ++ SandboxIpc.resources item.serialization) 0
      ⟨some ⟨io.target, []⟩, io.made⟩ = served at hrun hrender
    have hanswers : item.answers io a = served.1 := congrArg Prod.fst hserve
    obtain ⟨answer, making⟩ := served
    rw [hrun, hanswers]
    cases answer with
    | error message => exact .inr ⟨.inr ⟨message, rfl⟩, .error message, rfl⟩
    | ok sent =>
      obtain ⟨hmaking, hlength⟩ := serve_made a.send _ 0 ⟨io.target, []⟩ io.made hanswers
      obtain rfl : making = _ := (congrArg Prod.snd hserve).symm.trans hmaking
      refine .inl ⟨hfits, sent, cursor, rfl, ?_, ?_, hrender sent rfl⟩
      · -- `commit` has made the sender forget its handles
        have hdrop : HandleSender.drop ⟨io.target, []⟩ a.close = [] := by
          unfold HandleSender.drop
          cases io.target <;> rfl
        dsimp only [Code.outcome, commit, Making.leave, Making.dropSender]
        rw [hdrop, List.append_nil]
      · rw [hlength, handlesOf_append, List.length_append]
        exact (Nat.two_mul _).symm
  · obtain ⟨failure, making, hrun⟩ := htwice.run_large hwidth
      (Nat.lt_of_not_le hfits) ⟨some ⟨io.target, []⟩, io.made⟩ ⟨buffer, 0⟩
    rw [hrun]
    exact .inr ⟨.inl (Nat.lt_of_not_le hfits), failure, rfl⟩

/-- What `start_send` does with an item, once the item before is gone. -/
theorem startSend_payload {s : State} (hs : s.Sized limit) (item : Payload p)
    {w : Except IoError Nat} (hfree : WayFree s w) (a : SerializeAnswers) :
    (item.size ≤ limit ∧ ∃ sent, item.answers s.io a = .ok sent ∧
      (startSend (Payload.encode limit) s item w a).1 = .ok .ready ∧
      (startSend (Payload.encode limit) s item w a).2.io.made = s.io.made ++ remotes sent ∧
      (startSend (Payload.encode limit) s item w a).2.io.closed = s.io.closed ∧
      (remotes sent).length = 2 * item.handles.length ∧
      (startSend (Payload.encode limit) s item w a).2.pending
        = [render Sent.content item.serialization (sent.drop item.resources.length)]) ∨
    ((limit < item.size ∨ ∃ message, item.answers s.io a = .error message) ∧ ∃ stop,
      (startSend (Payload.encode limit) s item w a).1 = .error stop) := by
  have hsized := hs.pollComplete wsaewouldblock (MessageChannel.write w)
  have hf := flush_pollComplete w s
  unfold startSend
  rw [BincodeDatagram.startSend_of_ready (pollComplete_ready_iff.mpr hfree)]
  generalize (s.pollComplete wsaewouldblock (MessageChannel.write w)).2 = d at hsized hf ⊢
  have hio : item.answers d.io a = item.answers s.io a := by
    unfold Payload.answers
    rw [hf.target_eq, hf.made_eq]
  rcases serialize_payload item a hsized.length d.io with
    ⟨hfits, sent, cursor, hanswers, hser, hlength, hwritten⟩ | ⟨hnot, failure, hser⟩
  · rw [BincodeDatagram.store_of_ok hser]
    refine .inl ⟨hfits, sent, hio.symm.trans hanswers, rfl, ?_, ?_, hlength, ?_⟩
    · exact congrArg (· ++ remotes sent) hf.made_eq
    · exact hf.closed_eq
    · exact congrArg (fun bytes => [bytes]) hwritten
  · rw [BincodeDatagram.store_of_error hser]
    exact .inr ⟨by rwa [hio] at hnot, _, rfl⟩

/-- An item with a resource in it is refused by a channel without a target. -/
theorem answers_sealed {item : Payload p} (hitem : item.resources ≠ []) {io : MessageChannel}
    (h : io.target = .none) (a : SerializeAnswers) :
    item.answers io a = .error notConfigured.display := by
  unfold Payload.answers
  rw [h, serve_sealed a.send (by simpa using hitem)]

end SandboxIpc.Windows
