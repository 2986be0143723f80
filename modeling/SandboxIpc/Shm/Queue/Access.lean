import SandboxIpc.Infra.Overwrite
import SandboxIpc.Shm.Queue.Handle
import Mathlib.Algebra.Ring.Nat
import Mathlib.Data.List.TakeDrop

/-!
# Access to a slot, `shm/queue.rs`

A guard is written to or read from in chunks of any lengths. It keeps the offset that it has reached
in its slot.

* `Chunk.fromRawParts`, `stored` — the slot of a guard in the memory
* `PushGuard.write`, `PopGuard.read` — one chunk
* `PushGuard.writes_spec`, `PopGuard.reads_spec` — any number of chunks, from any offset
* `chunked_access` — what is read is what was written, however the two sides cut it
-/

namespace SandboxIpc.Queue

open Infra

variable {p : PointerWidth}

/-! ## Slices -/

/-- A `[u8]`. -/
structure Chunk (p : PointerWidth) where
  bytes : List UInt8
  length_lt : bytes.length < 2 ^ p.bits

namespace Chunk

def len (s : Chunk p) : Usize p := BitVec.ofNat p.bits s.bytes.length

@[simp] theorem toNat_len (s : Chunk p) : s.len.toNat = s.bytes.length := by
  rw [len, BitVec.toNat_ofNat, Nat.mod_eq_of_lt s.length_lt]

/-- `&s[start..end]`. -/
def range (s : Chunk p) (start stop : Usize p) : Outcome (Chunk p) :=
  if stop < start then
    .error (.panic s!"slice index starts at {start.toNat} but ends at {stop.toNat}")
  else if s.len < stop then
    .error (.panic
      s!"range end index {stop.toNat} out of range for slice of length {s.bytes.length}")
  else .ok {
    bytes := (s.bytes.take stop.toNat).drop start.toNat
    length_lt := by
      refine Nat.lt_of_le_of_lt ?_ s.length_lt
      rw [List.length_drop, List.length_take]
      omega }

theorem range_ok {s dest : Chunk p} {start stop : Usize p} (h : s.range start stop = .ok dest) :
    start.toNat ≤ stop.toNat ∧ stop.toNat ≤ s.bytes.length ∧
      dest.bytes = (s.bytes.take stop.toNat).drop start.toNat := by
  unfold range at h
  split at h
  · cases h
  · next hstart =>
    split at h
    · cases h
    · next hstop =>
      obtain rfl := Except.ok.inj h
      rw [BitVec.lt_def, Nat.not_lt] at hstart hstop
      exact ⟨hstart, s.toNat_len ▸ hstop, rfl⟩

theorem range_of_le (s : Chunk p) {start stop : Usize p} (hstart : start.toNat ≤ stop.toNat)
    (hstop : stop.toNat ≤ s.bytes.length) : ∃ dest, s.range start stop = .ok dest := by
  unfold range
  rw [if_neg (by rwa [BitVec.lt_def, Nat.not_lt]),
    if_neg (by rwa [BitVec.lt_def, Nat.not_lt, toNat_len])]
  exact ⟨_, rfl⟩

/-- `s[start..end].copy_from_slice(src)`. -/
def copyFromSlice (s : Chunk p) (start stop : Usize p) (src : Chunk p) : Outcome (Chunk p) :=
  match hrange : s.range start stop with
  | .error e => .error e
  | .ok dest =>
    if hlength : src.bytes.length = dest.bytes.length then
      .ok {
        bytes := s.bytes.take start.toNat ++ overwrite src.bytes (s.bytes.drop start.toNat)
        length_lt := by
          obtain ⟨hstart, hstop, hdest⟩ := range_ok hrange
          have hfits : src.bytes.length ≤ (s.bytes.drop start.toNat).length := by
            rw [hlength, hdest]
            simp
            omega
          rw [List.length_append, length_overwrite hfits, ← List.length_append,
            List.take_append_drop]
          exact s.length_lt }
    else .error (.panic "source slice length does not match destination slice length")

theorem copyFromSlice_of_le (s : Chunk p) {src : Chunk p} {start stop : Usize p}
    (hstart : start.toNat ≤ stop.toNat) (hstop : stop.toNat ≤ s.bytes.length)
    (hlength : src.bytes.length = stop.toNat - start.toNat) :
    ∃ s', s.copyFromSlice start stop src = .ok s' ∧
      s'.bytes = s.bytes.take start.toNat ++ overwrite src.bytes (s.bytes.drop start.toNat) := by
  obtain ⟨dest, hrange⟩ := range_of_le s hstart hstop
  obtain ⟨-, -, hdest⟩ := range_ok hrange
  unfold copyFromSlice
  split
  · next he => cases hrange.symm.trans he
  · next dest' hdest' =>
    obtain rfl := Except.ok.inj (hrange.symm.trans hdest')
    rw [dif_pos (by simp [hdest, hlength, Nat.min_eq_left hstop])]
    exact ⟨_, rfl, rfl⟩

/-- `slice::from_raw_parts(data, len)`. -/
def fromRawParts (memory : Usize p → UInt8) (data len : Usize p) : Chunk p where
  bytes := (List.range len.toNat).map fun i => memory (data + BitVec.ofNat p.bits i)
  length_lt := by
    rw [List.length_map, List.length_range]
    exact len.isLt

@[simp] theorem length_fromRawParts (memory : Usize p → UInt8) (data len : Usize p) :
    (fromRawParts memory data len).bytes.length = len.toNat := by
  simp [fromRawParts]

/-- The memory once the slice at `data` has these bytes. -/
def stored (s : Chunk p) (memory : Usize p → UInt8) (data : Usize p) : Usize p → UInt8 :=
  fun address => s.bytes.getD (address - data).toNat (memory address)

theorem fromRawParts_stored {s : Chunk p} {len : Usize p} (hlen : s.bytes.length = len.toNat)
    (memory : Usize p → UInt8) (data : Usize p) :
    (fromRawParts (s.stored memory data) data len).bytes = s.bytes := by
  refine List.ext_getElem (by simp [hlen]) fun i hi hi' => ?_
  have hlt : i < 2 ^ p.bits := Nat.lt_trans hi' s.length_lt
  have hindex : (data + BitVec.ofNat p.bits i - data).toNat = i := by
    rw [BitVec.add_comm, BitVec.add_sub_cancel, BitVec.toNat_ofNat, Nat.mod_eq_of_lt hlt]
  simp only [fromRawParts, stored, List.getElem_map, List.getElem_range]
  rw [hindex, List.getD_eq_getElem?_getD, List.getElem?_eq_getElem hi', Option.getD_some]

end Chunk

/-! ## The guards -/

/-- `PushGuard`, as far as `write` looks at it. The slice stands for its bytes in the memory. -/
structure PushGuard (p : PointerWidth) where
  slice : Chunk p
  writeOffset : Usize p

/-- `PopGuard`, as far as `read` looks at it. -/
structure PopGuard (p : PointerWidth) where
  slice : Chunk p
  readOffset : Usize p

/-- `cmp::min`. -/
def cmpMin (x y : Usize p) : Usize p := if x ≤ y then x else y

variable (b : Build)

section New

variable (q : Queue p) (memory : Usize p → UInt8) (index : Usize p)

/-- The guard that `try_push` returns. -/
def PushGuard.new : PushGuard p := ⟨.fromRawParts memory (q.slotAddr index) q.itemSize, 0⟩

/-- The guard that `try_pop` returns. -/
def PopGuard.new : PopGuard p := ⟨.fromRawParts memory (q.slotAddr index) q.itemSize, 0⟩

@[simp] theorem PushGuard.slice_new : (PushGuard.new q memory index).slice
    = .fromRawParts memory (q.slotAddr index) q.itemSize := rfl

@[simp] theorem PushGuard.writeOffset_new : (PushGuard.new q memory index).writeOffset = 0 := rfl

@[simp] theorem PopGuard.slice_new : (PopGuard.new q memory index).slice
    = .fromRawParts memory (q.slotAddr index) q.itemSize := rfl

@[simp] theorem PopGuard.readOffset_new : (PopGuard.new q memory index).readOffset = 0 := rfl

end New

def PushGuard.write (g : PushGuard p) (bytes : Chunk p) : Outcome (Usize p × PushGuard p) := do
  let room ← b.sub g.slice.len g.writeOffset
  let bytesToWrite := cmpMin room bytes.len
  let stop ← b.add g.writeOffset bytesToWrite
  let src ← bytes.range 0 bytesToWrite
  let slice ← g.slice.copyFromSlice g.writeOffset stop src
  let writeOffset ← b.add g.writeOffset bytesToWrite
  .ok (bytesToWrite, { slice, writeOffset })

/-- With the buffer as it is afterwards. -/
def PopGuard.read (g : PopGuard p) (buffer : Chunk p) :
    Outcome (Usize p × Chunk p × PopGuard p) := do
  let rest ← b.sub g.slice.len g.readOffset
  let bytesToRead := cmpMin rest buffer.len
  let stop ← b.add g.readOffset bytesToRead
  let src ← g.slice.range g.readOffset stop
  let buffer ← buffer.copyFromSlice 0 bytesToRead src
  let readOffset ← b.add g.readOffset bytesToRead
  .ok (bytesToRead, buffer, { g with readOffset })

/-- Some calls of `write`, one after the other. -/
def PushGuard.writes : PushGuard p → List (Chunk p) → Outcome (List (Usize p) × PushGuard p)
  | g, [] => .ok ([], g)
  | g, chunk :: chunks => do
    let (n, g) ← g.write b chunk
    let (counts, g) ← g.writes chunks
    .ok (n :: counts, g)

/-- Some calls of `read`, one after the other. -/
def PopGuard.reads :
    PopGuard p → List (Chunk p) → Outcome (List (Usize p) × List (Chunk p) × PopGuard p)
  | g, [] => .ok ([], [], g)
  | g, buffer :: buffers => do
    let (n, buffer, g) ← g.read b buffer
    let (counts, buffers, g) ← g.reads buffers
    .ok (n :: counts, buffer :: buffers, g)

/-- The first bytes of each chunk: those that a call has accepted or returned. -/
def gathered : List (Chunk p) → List (Usize p) → List UInt8
  | chunk :: chunks, n :: counts => chunk.bytes.take n.toNat ++ gathered chunks counts
  | _, _ => []

/-! ## One chunk -/

theorem toNat_cmpMin (x y : Usize p) : (cmpMin x y).toNat = min x.toNat y.toNat := by
  unfold cmpMin
  split
  · next hle => exact (Nat.min_eq_left hle).symm
  · next hlt => exact (Nat.min_eq_right (Nat.le_of_not_le hlt)).symm

/-- The arithmetic that both sides do: how much is moved, and where it ends. -/
theorem advance {slot : Chunk p} (chunk : Chunk p) {offset : Usize p}
    (hoffset : offset.toNat ≤ slot.bytes.length) :
    ∃ room n stop : Usize p, b.sub slot.len offset = .ok room ∧ cmpMin room chunk.len = n ∧
      b.add offset n = .ok stop ∧
      n.toNat = min (slot.bytes.length - offset.toNat) chunk.bytes.length ∧
      stop.toNat = offset.toNat + n.toNat := by
  have hroom : (slot.len - offset).toNat = slot.bytes.length - offset.toNat := by
    rw [BitVec.toNat_sub_of_le (by rwa [BitVec.le_def, Chunk.toNat_len]), Chunk.toNat_len]
  have hn : (cmpMin (slot.len - offset) chunk.len).toNat
      = min (slot.bytes.length - offset.toNat) chunk.bytes.length := by
    rw [toNat_cmpMin, hroom, Chunk.toNat_len]
  have hlt : offset.toNat + (cmpMin (slot.len - offset) chunk.len).toNat < 2 ^ p.bits := by
    have := slot.length_lt
    omega
  exact ⟨_, _, _, Build.sub_of_le (by rwa [Chunk.toNat_len]), rfl, Build.add_of_lt hlt, hn,
    BitVec.toNat_add_of_lt hlt⟩

theorem PushGuard.write_spec {g : PushGuard p} (h : g.writeOffset.toNat ≤ g.slice.bytes.length)
    (chunk : Chunk p) : ∃ n g', g.write b chunk = .ok (n, g') ∧
      n.toNat = min (g.slice.bytes.length - g.writeOffset.toNat) chunk.bytes.length ∧
      g'.writeOffset.toNat = g.writeOffset.toNat + n.toNat ∧
      g'.slice.bytes = g.slice.bytes.take g.writeOffset.toNat
        ++ overwrite (chunk.bytes.take n.toNat) (g.slice.bytes.drop g.writeOffset.toNat) := by
  obtain ⟨room, n, stop, hroom, hmin, hstop, hn, hstopNat⟩ := advance b chunk h
  have hstart : (0 : Usize p).toNat ≤ n.toNat := by simp
  obtain ⟨src, hsrc⟩ := chunk.range_of_le hstart (by omega)
  have hbytes := (Chunk.range_ok hsrc).2.2
  rw [toNat_zero, List.drop_zero] at hbytes
  have hlength : src.bytes.length = stop.toNat - g.writeOffset.toNat := by
    rw [hbytes, List.length_take]
    omega
  obtain ⟨slice, hcopy, hslice⟩ := g.slice.copyFromSlice_of_le (by omega) (by omega) hlength
  refine ⟨n, ⟨slice, stop⟩, ?_, hn, hstopNat, by rw [← hbytes]; exact hslice⟩
  simp only [write, bind, Except.bind, hroom, hmin, hstop, hsrc, hcopy]

theorem PopGuard.read_spec {g : PopGuard p} (h : g.readOffset.toNat ≤ g.slice.bytes.length)
    (buffer : Chunk p) : ∃ n buffer' g', g.read b buffer = .ok (n, buffer', g') ∧
      n.toNat = min (g.slice.bytes.length - g.readOffset.toNat) buffer.bytes.length ∧
      g'.readOffset.toNat = g.readOffset.toNat + n.toNat ∧ g'.slice = g.slice ∧
      buffer'.bytes
        = overwrite ((g.slice.bytes.drop g.readOffset.toNat).take n.toNat) buffer.bytes := by
  obtain ⟨rest, n, stop, hrest, hmin, hstop, hn, hstopNat⟩ := advance b buffer h
  have hstart : g.readOffset.toNat ≤ stop.toNat := by omega
  obtain ⟨src, hsrc⟩ := g.slice.range_of_le hstart (by omega)
  have hbytes := (Chunk.range_ok hsrc).2.2
  rw [List.drop_take, hstopNat, Nat.add_sub_cancel_left] at hbytes
  have hlength : src.bytes.length = n.toNat - (0 : Usize p).toNat := by
    rw [hbytes, List.length_take, List.length_drop, toNat_zero]
    omega
  obtain ⟨buffer', hcopy, hbuffer⟩ := buffer.copyFromSlice_of_le (by simp) (by omega) hlength
  refine ⟨n, buffer', { g with readOffset := stop }, ?_, hn, hstopNat, rfl, ?_⟩
  · simp only [read, bind, Except.bind, hrest, hmin, hstop, hsrc, hcopy]
  · rw [hbuffer, hbytes]
    rfl

/-! ## Any number of chunks -/

/-- A chunk that is cut to the room there is, and what of the rest fits behind it. -/
theorem take_min_append (x y : List UInt8) (k : Nat) :
    x.take (min k x.length) ++ y.take (k - min k x.length) = (x ++ y).take k := by
  rw [List.take_append]
  rcases Nat.le_total k x.length with hle | hle
  · rw [Nat.min_eq_left hle, Nat.sub_self, Nat.sub_eq_zero_of_le hle]
  · rw [Nat.min_eq_right hle, List.take_of_length_le hle, List.take_length]

/-- What a buffer takes of the rest, and what the buffers after it take. -/
theorem take_min_drop (x : List UInt8) (k l : Nat) :
    x.take (min x.length k) ++ (x.drop (min x.length k)).take l = x.take (k + l) := by
  rw [← List.take_add]
  rcases Nat.le_total x.length k with hle | hle
  · rw [Nat.min_eq_left hle, List.take_of_length_le (Nat.le_add_right _ _),
      List.take_of_length_le (Nat.le_trans hle (Nat.le_add_right _ _))]
  · rw [Nat.min_eq_right hle]

/-- What begins with `x` agrees with `x` as far as both go. -/
theorem take_agree (x y : List UInt8) (k : Nat) :
    ((x ++ y).take k).take x.length = x.take ((x ++ y).take k).length := by
  rw [List.take_take, List.take_append_of_le_length (Nat.min_le_left _ _), List.take_eq_take_iff,
    List.length_take, List.length_append]
  omega

/-- The bytes that are accepted are the first ones of all, and the slot begins with them. -/
theorem PushGuard.writes_spec {g : PushGuard p} (h : g.writeOffset.toNat ≤ g.slice.bytes.length)
    (chunks : List (Chunk p)) : ∃ counts g', g.writes b chunks = .ok (counts, g') ∧
      gathered chunks counts
        = (chunks.flatMap Chunk.bytes).take (g.slice.bytes.length - g.writeOffset.toNat) ∧
      (counts.map BitVec.toNat).sum = (gathered chunks counts).length ∧
      g'.slice.bytes = g.slice.bytes.take g.writeOffset.toNat
        ++ overwrite (gathered chunks counts) (g.slice.bytes.drop g.writeOffset.toNat) := by
  induction chunks generalizing g with
  | nil => exact ⟨[], g, rfl, by simp [gathered], rfl, by simp [gathered, overwrite]⟩
  | cons chunk chunks ih =>
    obtain ⟨n, g₁, hwrite, hn, hoffset, hslice⟩ := write_spec b h chunk
    have htake : (chunk.bytes.take n.toNat).length = n.toNat := by
      rw [List.length_take]
      omega
    have hfront : (g.slice.bytes.take g.writeOffset.toNat ++ chunk.bytes.take n.toNat).length
        = g₁.writeOffset.toNat := by
      rw [List.length_append, List.length_take, htake, hoffset]
      omega
    have hlength : g₁.slice.bytes.length = g.slice.bytes.length := by
      rw [hslice, List.length_append, length_overwrite, ← List.length_append, List.take_append_drop]
      rw [htake, List.length_drop]
      omega
    rw [overwrite, htake, List.drop_drop, ← List.append_assoc] at hslice
    obtain ⟨counts, g', hwrites, hgathered, hsum, hslice'⟩ := ih (g := g₁) (by omega)
    refine ⟨n :: counts, g', ?_, ?_, ?_, ?_⟩
    · simp only [writes, bind, Except.bind, hwrite, hwrites]
    · rw [gathered, hgathered, hlength, hoffset, ← Nat.sub_sub, hn, List.flatMap_cons]
      exact take_min_append _ _ _
    · rw [List.map_cons, List.sum_cons, hsum, gathered, List.length_append, htake]
    · rw [hslice', hslice, ← hfront, List.take_left, List.drop_left, gathered, overwrite_append, htake,
        List.drop_drop, List.append_assoc]

/-- The bytes that are returned are the next ones of the slot. -/
theorem PopGuard.reads_spec {g : PopGuard p} (h : g.readOffset.toNat ≤ g.slice.bytes.length)
    (buffers : List (Chunk p)) : ∃ counts buffers' g',
      g.reads b buffers = .ok (counts, buffers', g') ∧
      gathered buffers' counts = (g.slice.bytes.drop g.readOffset.toNat).take
        (buffers.map fun buffer => buffer.bytes.length).sum ∧
      (counts.map BitVec.toNat).sum = (gathered buffers' counts).length := by
  induction buffers generalizing g with
  | nil => exact ⟨[], [], g, rfl, by simp [gathered], rfl⟩
  | cons buffer buffers ih =>
    obtain ⟨n, buffer', g₁, hread, hn, hoffset, hslice, hbuffer⟩ := read_spec b h buffer
    have htake : ((g.slice.bytes.drop g.readOffset.toNat).take n.toNat).length = n.toNat := by
      rw [List.length_take, List.length_drop]
      omega
    have hfirst : buffer'.bytes.take n.toNat
        = (g.slice.bytes.drop g.readOffset.toNat).take n.toNat := by
      rw [hbuffer]
      nth_rewrite 1 [← htake]
      exact take_overwrite
    obtain ⟨counts, buffers', g', hreads, hgathered, hsum⟩ := ih (g := g₁) (by
      rw [hslice]
      omega)
    refine ⟨n :: counts, buffer' :: buffers', g', ?_, ?_, ?_⟩
    · simp only [reads, bind, Except.bind, hread, hreads]
    · rw [gathered, hfirst, hgathered, hslice, hoffset, ← List.drop_drop, hn, ← List.length_drop]
      exact take_min_drop _ _ _
    · rw [List.map_cons, List.sum_cons, hsum, gathered, List.length_append, hfirst, htake]

/--
However the two sides cut it, neither panics, and what the pop guard is read for is what the push guard
with its index has accepted, as far as both go.
-/
theorem chunked_access (q : Queue p) (memory : Usize p → UInt8) (index : Usize p)
    (chunks buffers : List (Chunk p)) : ∃ counts push counts' buffers' pop,
      (PushGuard.new q memory index).writes b chunks = .ok (counts, push) ∧
      (PopGuard.new q (push.slice.stored memory (q.slotAddr index)) index).reads b buffers
        = .ok (counts', buffers', pop) ∧
      (counts.map BitVec.toNat).sum
        = min q.itemSize.toNat (chunks.map fun chunk => chunk.bytes.length).sum ∧
      (counts'.map BitVec.toNat).sum
        = min q.itemSize.toNat (buffers.map fun buffer => buffer.bytes.length).sum ∧
      (gathered buffers' counts').take (gathered chunks counts).length
        = (gathered chunks counts).take (gathered buffers' counts').length := by
  obtain ⟨counts, push, hwrites, hwritten, hsum, hslice⟩ :=
    PushGuard.writes_spec b (g := .new q memory index) (by simp) chunks
  obtain ⟨counts', buffers', pop, hreads, hread, hsum'⟩ := PopGuard.reads_spec b
    (g := .new q (push.slice.stored memory (q.slotAddr index)) index) (by simp) buffers
  simp only [PushGuard.slice_new, PushGuard.writeOffset_new, toNat_zero, Nat.sub_zero, List.take_zero,
    List.nil_append, List.drop_zero, Chunk.length_fromRawParts] at hwritten hslice
  have hfits : (gathered chunks counts).length ≤ q.itemSize.toNat := by
    rw [hwritten]
    exact List.length_take_le _ _
  have hlength : push.slice.bytes.length = q.itemSize.toNat := by
    rw [hslice, length_overwrite (by rwa [Chunk.length_fromRawParts]), Chunk.length_fromRawParts]
  simp only [PopGuard.slice_new, PopGuard.readOffset_new, toNat_zero, List.drop_zero,
    Chunk.fromRawParts_stored hlength] at hread
  refine ⟨counts, push, counts', buffers', pop, hwrites, hreads, ?_, ?_, ?_⟩
  · rw [hsum, hwritten, List.length_take, List.length_flatMap]
  · rw [hsum', hread, List.length_take, hlength, Nat.min_comm]
  · rw [hread, hslice]
    exact take_agree _ _ _

end SandboxIpc.Queue
