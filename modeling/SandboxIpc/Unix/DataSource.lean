import SandboxIpc.Unix.Reading

/-!
# Sources of data, `io.rs`

* `SendableDataSource.toRead`, `SendableDataSource.toBytes` — the slices that safe code gets of shared
  memory
* `SendableDataSource.window_of_toRead`, `SendableDataSource.window_of_toBytes` — they are windows of
  maps
-/

namespace SandboxIpc.Unix

variable {p : PointerWidth}

inductive SendableDataSource (p : PointerWidth)
  | file (fd : RawFd)
  | memory (m : SharedMem p)
  | inline (bytes : List UInt8)

/-- A slice that `from_raw_parts` has made. -/
structure Slice (p : PointerWidth) where
  pointer : Usize p
  len : Usize p

/-- Without the positions of the two cursors, which are 0. -/
inductive SendableDataSourceReader (p : PointerWidth)
  | file (fd : RawFd)
  | memory (map : SharedMemMap p) (slice : Slice p)
  | inline (bytes : List UInt8)

inductive SendableDataSourceBytes (p : PointerWidth)
  | vec (bytes : List UInt8)
  | shared (map : SharedMemMap p)

namespace SendableDataSource

def toRead (b : Build) (page : PageSize p) (mmap : Mmap p) :
    SendableDataSource p → Outcome (SendableDataSourceReader p)
  | .file fd => .ok (.file fd)
  | .memory m => do
    let map ← m.map b page mmap StdRange.rangeFull.toRangeArgument .read
    return .memory map ⟨map.pointer, map.len⟩
  | .inline bytes => .ok (.inline bytes)

/-- `readToEnd` is what the file has left. -/
def toBytes (b : Build) (page : PageSize p) (mmap : Mmap p)
    (readToEnd : RawFd → Except IoError (List UInt8)) :
    SendableDataSource p → Outcome (SendableDataSourceBytes p)
  | .file fd => do
    let buffer ← (readToEnd fd).mapError .err
    return .vec buffer
  | .memory m => do
    let map ← m.map b page mmap StdRange.rangeFull.toRangeArgument .read
    return .shared map
  | .inline bytes => .ok (.vec bytes)

/-- The `Deserialize` of a source. -/
def reader [Bincode] : Reader :=
  .plain 4 fun tag =>
    match Bincode.u32.read tag with
    | .error message => .fail (.error message)
    | .ok (tag, _) =>
      match tag.toNat with
      | 0 => .fd .done
      | 1 => .memory .done
      | 2 => .plain 8 fun length =>
        match readUsize length with
        | .error message => .fail (.error message)
        | .ok (length, _) => .plain length fun _ => .done
      | n => .fail (.error s!"invalid value: integer `{n}`, expected variant index 0 <= i < 3")

end SendableDataSource

/-- The slice that `deref` makes of a map. -/
def SendableDataSourceBytes.deref : SendableDataSourceBytes p → List UInt8 ⊕ Slice p
  | .vec bytes => .inl bytes
  | .shared map => .inr ⟨map.pointer, map.len⟩

/-- Every byte of a slice into the mapping is one of the first `size` bytes of the object. -/
def Slice.Inside (slice : Slice p) (map : SharedMemMap p) (size : Nat) : Prop :=
  ∀ k < slice.len.toNat, map.object slice.pointer + k < size

namespace SendableDataSource

variable {b : Build} {page : PageSize p} {mmap : Mmap p} {m : SharedMem p} {map : SharedMemMap p}
  {slice : Slice p}

theorem window_of_toRead (h : (memory m).toRead b page mmap = .ok (.memory map slice)) :
    m.map b page mmap StdRange.rangeFull.toRangeArgument .read = .ok map ∧
      slice = ⟨map.pointer, map.len⟩ := by
  unfold toRead at h
  dsimp only at h
  cases hmap : m.map b page mmap StdRange.rangeFull.toRangeArgument .read with
  | error e =>
    rw [hmap] at h
    cases h
  | ok map' =>
    rw [hmap] at h
    obtain ⟨rfl, rfl⟩ := SendableDataSourceReader.memory.inj (Except.ok.inj h)
    exact ⟨rfl, rfl⟩

theorem window_of_toBytes {readToEnd : RawFd → Except IoError (List UInt8)}
    {bytes : SendableDataSourceBytes p} (h : (memory m).toBytes b page mmap readToEnd = .ok bytes)
    (hderef : bytes.deref = .inr slice) :
    ∃ map, m.map b page mmap StdRange.rangeFull.toRangeArgument .read = .ok map ∧
      bytes = .shared map ∧ slice = ⟨map.pointer, map.len⟩ := by
  unfold toBytes at h
  dsimp only at h
  cases hmap : m.map b page mmap StdRange.rangeFull.toRangeArgument .read with
  | error e =>
    rw [hmap] at h
    cases h
  | ok map =>
    rw [hmap] at h
    obtain rfl := Except.ok.inj h
    exact ⟨map, rfl, rfl, (Sum.inr.inj hderef).symm⟩

end SendableDataSource

end SandboxIpc.Unix
