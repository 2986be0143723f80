import SandboxIpc.Ser.Duplex
import SandboxIpc.Unix.Transport

/-!
# Message channels, both ways

A `MessageChannel` with `ChannelSerializeWrapper` is a transport that both ends may write to and read
from. The control buffer is shared by the two directions, but the bytes do not depend on it.

* `reading`, `decoding` — the socket and the wrapper, where the channel also sends
* `both_ways` — the bytes go through as through two separate wires
-/

namespace SandboxIpc.Unix

open Infra

variable {libc : Libc} {T : Bool → Type}

/-- A read changes the control buffer and nothing else. -/
def reading (libc : Libc) : Reading (sending libc) ReadAnswers where
  toReceiving := receiving libc
  taken_read r length ch := by
    show (ch.read r length).2.socket.sent.map Message.bytes = _
    rw [ch.read_snd r length]
    rfl

/-- Items that can be read back whatever is in the control buffer. -/
def decoding {encode : ∀ e, T e → Encoder} (decode : ∀ e, List UInt8 → Decoder (T e))
    (h : ∀ e answers item size context answers' (io : MessageChannel libc),
      (deserialize answers' (decode e)
        ((serializing libc (encode e)).encoding answers item size) io context).result = .ok item)
    (e : Bool) : Decoding ((fun e => serializing libc (encode e)) e) (Nat → FcntlAnswers) where
  toDeserializing := deserializing libc (decode e) (h e)
  taken_run _ _ _ _ := rfl

/-- Two ends of a pair of sockets whose peers answer as a datagram socket does. -/
theorem both_ways {encode : ∀ e, T e → Encoder} (decode : ∀ e, List UInt8 → Decoder (T e))
    (hdecode : ∀ e answers item size context answers' (io : MessageChannel libc),
      (deserialize answers' (decode e)
        ((serializing libc (encode e)).encoding answers item size) io context).result = .ok item)
    {size : Nat} {s : Duplex.State (MessageChannel libc) Context}
    {h : List (Duplex.State (MessageChannel libc) Context ×
      Σ e, Duplex.Act (T e) Taking (Nat → DupAnswers) ReadAnswers (Nat → FcntlAnswers))}
    (hr : Run (Duplex.system libc.eagain (reading libc) (decoding decode hdecode) size) h s)
    (hwrites : ∀ x ∈ h, Duplex.WritesBytes libc.eagain (fun e => serializing libc (encode e)) x)
    (e : Bool) :
    ∃ w : Wire (T e), Wire.Honest (Wires.onWire e
      (trace (Duplex.seen libc.eagain (reading libc) (decoding decode hdecode)) h)) w := by
  obtain ⟨k, ws, hk, -, htrace⟩ := Duplex.linked_of_run hr hwrites
  exact ⟨ws e, htrace ▸ Wires.honest_of_run hk e⟩

end SandboxIpc.Unix
