import SandboxIpc.Machine
import SandboxIpc.Infra.Overwrite

/-!
# Datagrams of serialized items, `ser.rs`

`BincodeDatagram` is a sink and a stream over one transport. The sink holds at most one serialized
item: `start_send` first gets rid of the one before.

What a transport and a wrapper do is passed in. `write` and `read` are those of the transport `S`;
`serialize` and `deserialize` are what happens from the making of a guard of the wrapper to its
drop, with access to the thread-local context `K`.

* `pollComplete`, `startSend`, `poll` — the three operations
* `pollComplete_cases`, `startSend_cases` — what the two senders do, by the answer of the transport
-/

namespace SandboxIpc

open Infra

/-- `futures::Async`. -/
inductive Async (α : Type)
  | ready (value : α)
  | notReady

/-- `futures::AsyncSink`. -/
inductive AsyncSink (T : Type)
  | ready
  | notReady (item : T)

/-- `io::Cursor` over a slice. -/
structure Cursor where
  buffer : List UInt8
  position : Nat

namespace Cursor

/-- `write_all`. What fits is written even if the rest does not. -/
def writeAll (c : Cursor) (bytes : List UInt8) : Bool × Cursor :=
  let fitting := bytes.take (c.buffer.length - c.position)
  (fitting.length = bytes.length,
    { buffer := c.buffer.take c.position ++ overwrite fitting (c.buffer.drop c.position)
      position := c.position + fitting.length })

/-- The bytes written so far. -/
def written (c : Cursor) : List UInt8 := c.buffer.take c.position

theorem take_of_fitted {c : Cursor} {bytes : List UInt8} (h : (c.writeAll bytes).1 = true) :
    bytes.take (c.buffer.length - c.position) = bytes := by
  have hlength := of_decide_eq_true h
  rw [List.length_take] at hlength
  exact List.take_of_length_le (by omega)

variable {c : Cursor} (h : c.position ≤ c.buffer.length) (bytes : List UInt8)

include h

theorem length_writeAll : (c.writeAll bytes).2.buffer.length = c.buffer.length := by
  unfold writeAll
  have hfits : (bytes.take (c.buffer.length - c.position)).length
      ≤ (c.buffer.drop c.position).length := by
    rw [List.length_take, List.length_drop]
    exact Nat.min_le_left _ _
  simp only [List.length_append, length_overwrite hfits, List.length_take, List.length_drop]
  omega

theorem position_writeAll_le :
    (c.writeAll bytes).2.position ≤ (c.writeAll bytes).2.buffer.length := by
  rw [length_writeAll h]
  simp only [writeAll, List.length_take]
  omega

/-- What was written before stays, and what fits comes after it. -/
theorem written_writeAll : (c.writeAll bytes).2.written
    = c.written ++ bytes.take (c.buffer.length - c.position) := by
  have hlength : (c.buffer.take c.position).length = c.position := by
    rw [List.length_take, Nat.min_eq_left h]
  simp only [writeAll, written]
  rw [List.take_append, hlength, Nat.add_sub_cancel_left, take_overwrite,
    List.take_of_length_le (by rw [hlength]; exact Nat.le_add_right _ _)]

omit h in
/-- What fits is written as a whole. -/
theorem writeAll_of_fits {bytes : List UInt8} (h : c.position + bytes.length ≤ c.buffer.length) :
    (c.writeAll bytes).1 = true ∧ (c.writeAll bytes).2.position = c.position + bytes.length ∧
      (c.writeAll bytes).2.written = c.written ++ bytes := by
  have htake : bytes.take (c.buffer.length - c.position) = bytes :=
    List.take_of_length_le (by omega)
  rw [written_writeAll (by omega), htake]
  unfold writeAll
  rw [htake]
  exact ⟨decide_eq_true rfl, rfl, rfl⟩

/-- Two cursors that differ in what their buffers hold behind them. -/
structure Same (c c' : Cursor) : Prop where
  position_le : c.position ≤ c.buffer.length
  position : c'.position = c.position
  length : c'.buffer.length = c.buffer.length
  written : c'.written = c.written

omit h in
/-- What is written into a cursor does not depend on what its buffer held before. -/
theorem Same.writeAll {c c' : Cursor} (h : Same c c') (bytes : List UInt8) :
    (c'.writeAll bytes).1 = (c.writeAll bytes).1 ∧
      Same (c.writeAll bytes).2 (c'.writeAll bytes).2 := by
  have h' : c'.position ≤ c'.buffer.length := by
    rw [h.position, h.length]
    exact h.position_le
  have hfitting : (c'.writeAll bytes).1 = (c.writeAll bytes).1 ∧
      (c'.writeAll bytes).2.position = (c.writeAll bytes).2.position := by
    unfold Cursor.writeAll
    rw [h.position, h.length]
    exact ⟨rfl, rfl⟩
  refine ⟨hfitting.1, position_writeAll_le h.position_le bytes, hfitting.2, ?_, ?_⟩
  · rw [length_writeAll h', length_writeAll h.position_le, h.length]
  · rw [written_writeAll h', written_writeAll h.position_le, h.written, h.position, h.length]

end Cursor

/-- What a serialization leaves behind. -/
structure Serialized (S K : Type) where
  result : Except Failure Unit
  cursor : Cursor
  io : S
  context : K

/-- What a deserialization leaves behind. -/
structure Deserialized (R S K : Type) where
  result : Except Failure R
  io : S
  context : K

structure BincodeDatagram (S : Type) where
  io : S
  rxBuffer : List UInt8
  txBuffer : List UInt8
  bufferedSend : Option Nat

namespace BincodeDatagram

variable {S T R K : Type}

def wrap (io : S) (bufferSize : Nat) : BincodeDatagram S where
  io
  rxBuffer := List.replicate bufferSize 0
  txBuffer := List.replicate bufferSize 0
  bufferedSend := none

variable (eagain : Int)

section Sink

variable (write : List UInt8 → S → Except IoError Nat × S)

def pollComplete (d : BincodeDatagram S) : Except IoError (Async Unit) × BincodeDatagram S :=
  match d.bufferedSend with
  | none => (.ok (.ready ()), d)
  | some msgLen =>
    match write (d.txBuffer.take msgLen) d.io with
    | (.error e, io) => (if e.isWouldBlock eagain then .ok .notReady else .error e, { d with io })
    | (.ok writtenBytes, io) =>
      if writtenBytes = msgLen then (.ok (.ready ()), { d with io, bufferedSend := none })
      else (.error (.new .writeZero "failed to write whole buffer"), { d with io })

/-- The first part of `start_send`: an item that is still buffered has to go first. -/
def flush (d : BincodeDatagram S) : Except IoError (Async Unit) × BincodeDatagram S :=
  if d.bufferedSend.isSome then d.pollComplete eagain write else (.ok (.ready ()), d)

/-- The second part of `start_send`: the item is written to `tx_buffer`. -/
def store (serialize : T → Cursor → S → K → Serialized S K) (item : T) (d : BincodeDatagram S)
    (k : K) : Outcome (AsyncSink T) × BincodeDatagram S × K :=
  let out := serialize item ⟨d.txBuffer, 0⟩ d.io k
  let d' := { d with io := out.io, txBuffer := out.cursor.buffer }
  match out.result with
  | .error failure => (.error (failure.toStop .invalidInput), d', out.context)
  | .ok () => (.ok .ready, { d' with bufferedSend := some out.cursor.position }, out.context)

def startSend (serialize : T → Cursor → S → K → Serialized S K) (item : T) (d : BincodeDatagram S)
    (k : K) : Outcome (AsyncSink T) × BincodeDatagram S × K :=
  match d.flush eagain write with
  | (.error e, d) => (.error (.err e), d, k)
  | (.ok .notReady, d) => (.ok (.notReady item), d, k)
  | (.ok (.ready ()), d) => d.store serialize item k

variable {eagain write}

theorem flush_eq (d : BincodeDatagram S) : d.flush eagain write = d.pollComplete eagain write := by
  unfold flush pollComplete
  cases d.bufferedSend with
  | none => rfl
  | some n => rfl

/-- `poll_complete` writes the pending item, and forgets it if all of it was written. -/
theorem pollComplete_cases (d : BincodeDatagram S) :
    (d.bufferedSend = none ∧ d.pollComplete eagain write = (.ok (.ready ()), d)) ∨
    ∃ n, d.bufferedSend = some n ∧
      ((∃ r, r ≠ .ok (.ready ()) ∧
          d.pollComplete eagain write = (r, { d with io := (write (d.txBuffer.take n) d.io).2 })) ∨
        ((write (d.txBuffer.take n) d.io).1 = .ok n ∧ d.pollComplete eagain write = (.ok (.ready ()),
          { d with io := (write (d.txBuffer.take n) d.io).2, bufferedSend := none }))) := by
  unfold pollComplete
  cases hb : d.bufferedSend with
  | none => exact .inl ⟨rfl, rfl⟩
  | some n =>
    refine .inr ⟨n, rfl, ?_⟩
    dsimp only
    rcases hw : write (d.txBuffer.take n) d.io with ⟨r, io⟩
    cases r with
    | error e =>
      left
      refine ⟨_, ?_, rfl⟩
      split <;> nofun
    | ok written =>
      by_cases hn : written = n
      · right
        exact ⟨congrArg Except.ok hn, if_pos hn⟩
      · left
        exact ⟨_, by nofun, if_neg hn⟩

/-- Once `poll_complete` is `Ready` nothing is pending. -/
theorem bufferedSend_of_ready {d : BincodeDatagram S}
    (h : (d.pollComplete eagain write).1 = .ok (.ready ())) :
    (d.pollComplete eagain write).2.bufferedSend = none := by
  rcases d.pollComplete_cases with ⟨hnone, heq⟩ | ⟨n, -, ⟨r, hr, heq⟩ | ⟨-, heq⟩⟩
  · rw [heq]
    exact hnone
  · rw [heq] at h
    exact absurd h hr
  · rw [heq]

theorem store_of_error {serialize : T → Cursor → S → K → Serialized S K} {item : T}
    {d : BincodeDatagram S} {k : K} {failure : Failure}
    (h : (serialize item ⟨d.txBuffer, 0⟩ d.io k).result = .error failure) :
    d.store serialize item k = (.error (failure.toStop .invalidInput),
      { d with
        io := (serialize item ⟨d.txBuffer, 0⟩ d.io k).io
        txBuffer := (serialize item ⟨d.txBuffer, 0⟩ d.io k).cursor.buffer },
      (serialize item ⟨d.txBuffer, 0⟩ d.io k).context) := by
  unfold store
  dsimp only
  rw [h]

theorem store_of_ok {serialize : T → Cursor → S → K → Serialized S K} {item : T}
    {d : BincodeDatagram S} {k k' : K} {cursor : Cursor} {io : S}
    (h : serialize item ⟨d.txBuffer, 0⟩ d.io k = ⟨.ok (), cursor, io, k'⟩) :
    d.store serialize item k = (.ok .ready,
      { d with io, txBuffer := cursor.buffer, bufferedSend := some cursor.position }, k') := by
  unfold store
  rw [h]

theorem io_store (serialize : T → Cursor → S → K → Serialized S K) (item : T)
    (d : BincodeDatagram S) (k : K) :
    (d.store serialize item k).2.1.io = (serialize item ⟨d.txBuffer, 0⟩ d.io k).io := by
  unfold store
  dsimp only
  split <;> rfl

theorem context_store (serialize : T → Cursor → S → K → Serialized S K) (item : T)
    (d : BincodeDatagram S) (k : K) :
    (d.store serialize item k).2.2 = (serialize item ⟨d.txBuffer, 0⟩ d.io k).context := by
  unfold store
  dsimp only
  split <;> rfl

/-- `start_send` gets to the new item if the old one is gone, and otherwise stops there. -/
theorem startSend_cases (serialize : T → Cursor → S → K → Serialized S K) (item : T)
    (d : BincodeDatagram S) (k : K) :
    (∃ r, r ≠ .ok .ready ∧
      d.startSend eagain write serialize item k = (r, (d.pollComplete eagain write).2, k)) ∨
    ((d.pollComplete eagain write).1 = .ok (.ready ()) ∧ d.startSend eagain write serialize item k
      = (d.pollComplete eagain write).2.store serialize item k) := by
  unfold startSend
  rw [flush_eq]
  rcases d.pollComplete eagain write with ⟨r, d'⟩
  rcases r with e | ⟨_ | _⟩
  · exact .inl ⟨_, by nofun, rfl⟩
  · exact .inr ⟨rfl, rfl⟩
  · exact .inl ⟨_, by nofun, rfl⟩

/-- `start_send` gets to the new item. -/
theorem startSend_of_ready {serialize : T → Cursor → S → K → Serialized S K} {item : T}
    {d : BincodeDatagram S} {k : K} (h : (d.pollComplete eagain write).1 = .ok (.ready ())) :
    d.startSend eagain write serialize item k
      = (d.pollComplete eagain write).2.store serialize item k := by
  unfold startSend
  rw [flush_eq]
  generalize d.pollComplete eagain write = p at h
  obtain ⟨r, d'⟩ := p
  obtain rfl : r = .ok (.ready ()) := h
  rfl

/-- `start_send` does not get to the new item. -/
theorem startSend_of_not_ready {serialize : T → Cursor → S → K → Serialized S K} {item : T}
    {d : BincodeDatagram S} {k : K} (h : (d.pollComplete eagain write).1 ≠ .ok (.ready ())) :
    (d.startSend eagain write serialize item k).1 ≠ .ok .ready := by
  unfold startSend
  rw [flush_eq]
  generalize d.pollComplete eagain write = p at h
  obtain ⟨e | ⟨_ | _⟩, d'⟩ := p
  · nofun
  · exact absurd rfl h
  · nofun

end Sink

/-- `poll`; `read` is told how much room there is and answers with the bytes it read. -/
def poll (read : Nat → S → Except IoError (List UInt8) × S)
    (deserialize : List UInt8 → S → K → Deserialized R S K) (d : BincodeDatagram S) (k : K) :
    Outcome (Async (Option R)) × BincodeDatagram S × K :=
  match read d.rxBuffer.length d.io with
  | (.error e, io) =>
    (if e.isWouldBlock eagain then .ok .notReady else .error (.err e), { d with io }, k)
  | (.ok message, io) =>
    let rxBuffer := overwrite message d.rxBuffer
    if message.length = 0 then (.ok (.ready none), { d with io, rxBuffer }, k)
    else
      let out := deserialize (rxBuffer.take message.length) io k
      match out.result with
      | .error failure =>
        (.error (failure.toStop .invalidData), { d with io := out.io, rxBuffer }, out.context)
      | .ok r => (.ok (.ready (some r)), { d with io := out.io, rxBuffer }, out.context)

/-- `poll` reads once, and then deserializes what it has read or nothing. -/
theorem poll_cases (read : Nat → S → Except IoError (List UInt8) × S)
    (deserialize : List UInt8 → S → K → Deserialized R S K) (d : BincodeDatagram S) (k : K) :
    ((∀ message, (read d.rxBuffer.length d.io).1 = .ok message → message = []) ∧
      ∃ r rxBuffer, d.poll eagain read deserialize k
        = (r, { d with io := (read d.rxBuffer.length d.io).2, rxBuffer }, k)) ∨
    ∃ r rxBuffer message, (read d.rxBuffer.length d.io).1 = .ok message ∧ message ≠ [] ∧
      d.poll eagain read deserialize k
        = (r, { d with
            io := (deserialize message (read d.rxBuffer.length d.io).2 k).io
            rxBuffer }, (deserialize message (read d.rxBuffer.length d.io).2 k).context) := by
  unfold poll
  rcases read d.rxBuffer.length d.io with ⟨message, io⟩
  cases message with
  | error e => exact .inl ⟨nofun, _, _, rfl⟩
  | ok message =>
    dsimp only
    rw [take_overwrite]
    by_cases hempty : message.length = 0
    · refine .inl ⟨?_, _, _, if_pos hempty⟩
      intro m hm
      obtain rfl := Except.ok.inj hm
      exact List.length_eq_zero_iff.mp hempty
    · rw [if_neg hempty]
      refine .inr ?_
      have hne : message ≠ [] := fun h => hempty (by rw [h]; rfl)
      cases (deserialize message io k).result with
      | error failure => exact ⟨_, _, message, rfl, hne, rfl⟩
      | ok r => exact ⟨_, _, message, rfl, hne, rfl⟩

/-- Nothing was read: the stream has ended. -/
theorem poll_of_nil {read : Nat → S → Except IoError (List UInt8) × S}
    {deserialize : List UInt8 → S → K → Deserialized R S K} {d : BincodeDatagram S} {k : K}
    (h : (read d.rxBuffer.length d.io).1 = .ok []) :
    (d.poll eagain read deserialize k).1 = .ok (.ready none) := by
  unfold poll
  rcases hread : read d.rxBuffer.length d.io with ⟨message, io⟩
  rw [hread] at h
  obtain rfl : message = .ok [] := h
  rfl

/-- A message that can be deserialized is handed over. -/
theorem poll_of_message {read : Nat → S → Except IoError (List UInt8) × S}
    {deserialize : List UInt8 → S → K → Deserialized R S K} {d : BincodeDatagram S} {k : K}
    {message : List UInt8} {r : R} (h : (read d.rxBuffer.length d.io).1 = .ok message)
    (hne : message ≠ [])
    (hr : (deserialize message (read d.rxBuffer.length d.io).2 k).result = .ok r) :
    (d.poll eagain read deserialize k).1 = .ok (.ready (some r)) := by
  unfold poll
  rcases hread : read d.rxBuffer.length d.io with ⟨message', io⟩
  rw [hread] at h hr
  obtain rfl : message' = .ok message := h
  dsimp only
  rw [take_overwrite, if_neg fun h => hne (List.length_eq_zero_iff.mp h), hr]

/-- What is handed over has been read and deserialized. -/
theorem message_of_poll {read : Nat → S → Except IoError (List UInt8) × S}
    {deserialize : List UInt8 → S → K → Deserialized R S K} {d : BincodeDatagram S} {k : K} {r : R}
    (h : (d.poll eagain read deserialize k).1 = .ok (.ready (some r))) :
    ∃ message, (read d.rxBuffer.length d.io).1 = .ok message ∧ message ≠ [] ∧
      (deserialize message (read d.rxBuffer.length d.io).2 k).result = .ok r := by
  unfold poll at h
  rcases hread : read d.rxBuffer.length d.io with ⟨e | message, io⟩
  · rw [hread] at h
    dsimp only at h
    split at h <;> cases h
  · rw [hread] at h
    dsimp only at h
    rw [take_overwrite] at h
    split at h
    · cases h
    · next hne =>
      refine ⟨message, rfl, fun hempty => hne (List.length_eq_zero_iff.mpr hempty), ?_⟩
      cases hresult : (deserialize message io k).result with
      | error failure =>
        rw [hresult] at h
        cases h
      | ok r' =>
        rw [hresult] at h
        exact congrArg Except.ok (Option.some.inj (Async.ready.inj (Except.ok.inj h)))

theorem poll_of_error {read : Nat → S → Except IoError (List UInt8) × S}
    {deserialize : List UInt8 → S → K → Deserialized R S K} {d : BincodeDatagram S} {k : K}
    {e : IoError} (h : (read d.rxBuffer.length d.io).1 = .error e) (r : Option R) :
    (d.poll eagain read deserialize k).1 ≠ .ok (.ready r) := by
  unfold poll
  rcases hread : read d.rxBuffer.length d.io with ⟨message, io⟩
  rw [hread] at h
  obtain rfl : message = .error e := h
  dsimp only
  split <;> nofun

/-- The buffer keeps its length: no more is read than there is room for. -/
theorem length_rxBuffer_poll {read : Nat → S → Except IoError (List UInt8) × S}
    {deserialize : List UInt8 → S → K → Deserialized R S K} {d : BincodeDatagram S} {k : K}
    (h : ∀ message, (read d.rxBuffer.length d.io).1 = .ok message →
      message.length ≤ d.rxBuffer.length) :
    (d.poll eagain read deserialize k).2.1.rxBuffer.length = d.rxBuffer.length := by
  unfold poll
  generalize read d.rxBuffer.length d.io = p at h
  obtain ⟨message, io⟩ := p
  cases message with
  | error e => rfl
  | ok message =>
    have hlength := length_overwrite (h message rfl)
    dsimp only
    split
    · exact hlength
    · split <;> exact hlength

end BincodeDatagram

end SandboxIpc
