import Mathlib.Data.List.Basic
import Mathlib.Data.Vector.Basic
import Mathlib.Logic.Equiv.Defs

/-!
# Formats

How values of a type are written, and how one is read from the front of some bytes. In a format of a
fixed width every byte counts: what is read is what was written, and anything long enough is read as
some value.

* `Format` — a format with its laws
* `Format.read_cut` — bytes that may have been cut short: the value is read, or nothing
* `Codec` — a format of a fixed width
* `word`, `pair`, `vector`, `iso` — integers, least byte first, and formats made of others
* `Codec.read_eq_ok_iff` — reading undoes writing, and nothing else is read
* `Codec.read_eq_error_iff` — only bytes that are too few are refused
* `Codec.encode_decode` — any bytes of the right length are those of a value
-/

namespace Infra

/-- Reading from the front of some bytes. -/
abbrev Reads (ε : Type) := StateT (List UInt8) (Except ε)

/-! ## Formats of any length -/

structure Format (ε α : Type) where
  encode : α → List UInt8
  read : Reads ε α
  read_encode : ∀ a rest, read (encode a ++ rest) = .ok (a, rest)
  read_take : ∀ a n, n < (encode a).length → ∃ e, read ((encode a).take n) = .error e

/-- Either the first part is cut, or the rest. -/
theorem take_append_cut (x rest : List UInt8) (len : Nat) :
    len < x.length ∧ (x ++ rest).take len = x.take len ∨
      (x ++ rest).take len = x ++ rest.take (len - x.length) := by
  by_cases hlen : len < x.length
  · exact .inl ⟨hlen, List.take_append_of_le_length (Nat.le_of_lt hlen)⟩
  · right
    rw [List.take_append, List.take_of_length_le (Nat.le_of_not_lt hlen)]

/-- Of bytes that have been cut short the value is read, or nothing. -/
theorem Format.read_cut {ε α : Type} (f : Format ε α) (a : α) (rest : List UInt8) (len : Nat) :
    (∃ e, f.read ((f.encode a ++ rest).take len) = .error e) ∨
      ∃ len', f.read ((f.encode a ++ rest).take len) = .ok (a, rest.take len') := by
  rcases take_append_cut (f.encode a) rest len with ⟨hlen, heq⟩ | heq
  · rw [heq]
    exact .inl (f.read_take a len hlen)
  · rw [heq, f.read_encode]
    exact .inr ⟨_, rfl⟩

/-! ## Formats of a fixed width -/

/-- `short` is the error if there are not enough bytes. -/
structure Codec {ε : Type} (short : ε) (α : Type) where
  width : Nat
  encode : α → List UInt8
  read : Reads ε α
  length_encode : ∀ a, (encode a).length = width
  read_encode : ∀ a rest, read (encode a ++ rest) = .ok (a, rest)
  exists_encode : ∀ bytes, width ≤ bytes.length → ∃ a rest, bytes = encode a ++ rest
  read_short : ∀ bytes, bytes.length < width → read bytes = .error short

namespace Codec

variable {ε : Type} {short : ε} {α β : Type}

section Laws

variable (c : Codec short α)

/-- Reading undoes writing, and nothing else is read. -/
theorem read_eq_ok_iff {bytes : List UInt8} {a : α} {rest : List UInt8} :
    c.read bytes = .ok (a, rest) ↔ bytes = c.encode a ++ rest := by
  refine ⟨fun hread => ?_, fun h => h ▸ c.read_encode a rest⟩
  rcases Nat.lt_or_ge bytes.length c.width with hlt | hle
  · rw [c.read_short bytes hlt] at hread
    cases hread
  · obtain ⟨a', rest', rfl⟩ := c.exists_encode bytes hle
    rw [c.read_encode] at hread
    obtain ⟨rfl, rfl⟩ := Prod.mk.inj (Except.ok.inj hread)
    rfl

/-- Only bytes that are too few are refused. -/
theorem read_eq_error_iff {bytes : List UInt8} {e : ε} :
    c.read bytes = .error e ↔ bytes.length < c.width ∧ e = short := by
  constructor
  · intro hread
    rcases Nat.lt_or_ge bytes.length c.width with hlt | hle
    · rw [c.read_short bytes hlt] at hread
      exact ⟨hlt, (Except.error.inj hread).symm⟩
    · obtain ⟨a, rest, rfl⟩ := c.exists_encode bytes hle
      rw [c.read_encode] at hread
      cases hread
  · rintro ⟨hlt, rfl⟩
    exact c.read_short bytes hlt

theorem encode_injective : Function.Injective c.encode := fun a a' h => by
  have hread := c.read_encode a []
  rw [h, c.read_encode] at hread
  exact (Prod.mk.inj (Except.ok.inj hread)).1.symm

/-- A format of a fixed width is a format. -/
def toFormat : Format ε α where
  encode := c.encode
  read := c.read
  read_encode := c.read_encode
  read_take a n h := by
    refine ⟨short, c.read_short _ ?_⟩
    rw [c.length_encode] at h
    exact Nat.lt_of_le_of_lt (List.length_take_le _ _) h

theorem read_cut (a : α) (rest : List UInt8) (len : Nat) :
    (∃ e, c.read ((c.encode a ++ rest).take len) = .error e) ∨
      ∃ len', c.read ((c.encode a ++ rest).take len) = .ok (a, rest.take len') :=
  c.toFormat.read_cut a rest len

/-- The value that some bytes stand for. -/
def decode (bytes : List UInt8) (h : bytes.length = c.width) : α :=
  match hread : c.read bytes with
  | .ok (a, _) => a
  | .error _ => absurd (c.read_eq_error_iff.mp hread).1 (by omega)

theorem encode_decode (bytes : List UInt8) (h : bytes.length = c.width) :
    c.encode (c.decode bytes h) = bytes := by
  obtain ⟨a, rest, hbytes⟩ := c.exists_encode bytes h.ge
  obtain rfl : rest = [] := by
    have hlength := congrArg List.length hbytes
    rw [List.length_append, c.length_encode, h] at hlength
    exact List.eq_nil_of_length_eq_zero (by omega)
  rw [List.append_nil] at hbytes
  have hread : c.read bytes = .ok (a, []) := by
    rw [c.read_eq_ok_iff, List.append_nil, hbytes]
  unfold decode
  split
  · rename_i hok
    rw [hread] at hok
    obtain ⟨rfl, -⟩ := Prod.mk.inj (Except.ok.inj hok)
    exact hbytes.symm
  · rename_i herror
    rw [hread] at herror
    cases herror

end Laws

/-! ## Formats made of others -/

/-- One value after the other. -/
def pair (c : Codec short α) (d : Codec short β) : Codec short (α × β) where
  width := c.width + d.width
  encode x := c.encode x.1 ++ d.encode x.2
  read := do
    let a ← c.read
    let b ← d.read
    return (a, b)
  length_encode x := by rw [List.length_append, c.length_encode, d.length_encode]
  read_encode x rest := by
    have hfirst := c.read_encode x.1 (d.encode x.2 ++ rest)
    have hsecond := d.read_encode x.2 rest
    rw [List.append_assoc]
    simp only [bind, StateT.bind, Except.bind, hfirst, hsecond]
    rfl
  exists_encode bytes h := by
    obtain ⟨a, tail, rfl⟩ := c.exists_encode bytes (by omega)
    rw [List.length_append, c.length_encode] at h
    obtain ⟨b, rest, rfl⟩ := d.exists_encode tail (by omega)
    exact ⟨(a, b), rest, (List.append_assoc ..).symm⟩
  read_short bytes h := by
    rcases Nat.lt_or_ge bytes.length c.width with hlt | hle
    · simp only [bind, StateT.bind, Except.bind, c.read_short bytes hlt]
    · obtain ⟨a, tail, rfl⟩ := c.exists_encode bytes hle
      rw [List.length_append, c.length_encode] at h
      simp only [bind, StateT.bind, Except.bind, c.read_encode a tail,
        d.read_short tail (by omega)]

@[simp] theorem width_pair (c : Codec short α) (d : Codec short β) :
    (c.pair d).width = c.width + d.width := rfl

@[simp] theorem encode_pair (c : Codec short α) (d : Codec short β) (a : α) (b : β) :
    (c.pair d).encode (a, b) = c.encode a ++ d.encode b := rfl

/-- The same format for another type. -/
def iso (c : Codec short α) (e : α ≃ β) : Codec short β where
  width := c.width
  encode b := c.encode (e.symm b)
  read := do
    let a ← c.read
    return e a
  length_encode b := c.length_encode _
  read_encode b rest := by
    have hread := c.read_encode (e.symm b) rest
    simp only [bind, StateT.bind, Except.bind, hread, e.apply_symm_apply]
    rfl
  exists_encode bytes h := by
    obtain ⟨a, rest, rfl⟩ := c.exists_encode bytes h
    exact ⟨e a, rest, by rw [e.symm_apply_apply]⟩
  read_short bytes h := by simp only [bind, StateT.bind, Except.bind, c.read_short bytes h]

@[simp] theorem width_iso (c : Codec short α) (e : α ≃ β) : (c.iso e).width = c.width := rfl

@[simp] theorem encode_iso (c : Codec short α) (e : α ≃ β) (b : β) :
    (c.iso e).encode b = c.encode (e.symm b) := rfl

/-- Some values one after the other. -/
def vector (c : Codec short α) : (n : Nat) → Codec short (List.Vector α n)
  | 0 =>
    { width := 0
      encode := fun _ => []
      read := pure .nil
      length_encode := fun _ => rfl
      read_encode := fun v rest => by
        rw [v.eq_nil]
        rfl
      exists_encode := fun bytes _ => ⟨.nil, bytes, rfl⟩
      read_short := fun _ h => absurd h (Nat.not_lt_zero _) }
  | n + 1 => (c.pair (c.vector n)).iso
    { toFun := fun x => x.1 ::ᵥ x.2
      invFun := fun v => (v.head, v.tail)
      left_inv := fun _ => rfl
      right_inv := List.Vector.cons_head_tail }

@[simp] theorem width_vector (c : Codec short α) (n : Nat) : (c.vector n).width = n * c.width := by
  induction n with
  | zero => exact (Nat.zero_mul _).symm
  | succ n ih =>
    have hwidth : (c.vector (n + 1)).width = c.width + (c.vector n).width := rfl
    rw [hwidth, ih, Nat.succ_mul, Nat.add_comm]

theorem encode_vector (c : Codec short α) {n : Nat} (v : List.Vector α n) :
    (c.vector n).encode v = v.toList.flatMap c.encode := by
  induction v using List.Vector.inductionOn with
  | nil => rfl
  | @cons n a v ih =>
    have hencode : (c.vector (n + 1)).encode (a ::ᵥ v) = c.encode a ++ (c.vector n).encode v := rfl
    rw [hencode, ih, List.Vector.toList_cons, List.flatMap_cons]

/-! ## Integers -/

/-- The low bytes of a number, the least first. -/
def lowBytes : Nat → Nat → List UInt8
  | 0, _ => []
  | n + 1, value => UInt8.ofNat value :: lowBytes n (value / 256)

/-- The number that some bytes stand for. -/
def number : List UInt8 → Nat
  | [] => 0
  | byte :: bytes => byte.toNat + 256 * number bytes

theorem length_lowBytes (n value : Nat) : (lowBytes n value).length = n := by
  induction n generalizing value with
  | zero => rfl
  | succ n ih => exact congrArg (· + 1) (ih _)

theorem number_lowBytes (n value : Nat) : number (lowBytes n value) = value % 256 ^ n := by
  induction n generalizing value with
  | zero => exact (Nat.mod_one value).symm
  | succ n ih =>
    have hlow : (UInt8.ofNat value).toNat = value % 256 := UInt8.toNat_ofNat'
    rw [lowBytes, number, ih, hlow, pow_succ', Nat.mod_mul]

theorem lowBytes_number (bytes : List UInt8) : lowBytes bytes.length (number bytes) = bytes := by
  induction bytes with
  | nil => rfl
  | cons byte bytes ih =>
    have hbyte := byte.toNat_lt
    have hlow : UInt8.ofNat (number (byte :: bytes)) = byte := by
      apply UInt8.toNat_inj.mp
      rw [UInt8.toNat_ofNat', number]
      omega
    have hrest : number (byte :: bytes) / 256 = number bytes := by
      rw [number]
      omega
    rw [List.length_cons, lowBytes, hlow, hrest, ih]

theorem number_lt (bytes : List UInt8) : number bytes < 256 ^ bytes.length := by
  rw [← lowBytes_number bytes, number_lowBytes, length_lowBytes]
  exact Nat.mod_lt _ (Nat.pow_pos (by decide))

/-- An integer of some bytes, the least first. -/
def word (short : ε) (n : Nat) : Codec short (BitVec (8 * n)) where
  width := n
  encode value := lowBytes n value.toNat
  read bytes :=
    if bytes.length < n then .error short
    else .ok (BitVec.ofNat (8 * n) (number (bytes.take n)), bytes.drop n)
  length_encode value := length_lowBytes n value.toNat
  read_encode value rest := by
    have hlength := length_lowBytes n value.toNat
    have hpow : (256 : Nat) ^ n = 2 ^ (8 * n) := (pow_mul 2 8 n).symm
    rw [if_neg (by rw [List.length_append, hlength]; omega), List.take_left' hlength,
      List.drop_left' hlength, number_lowBytes, hpow, Nat.mod_eq_of_lt value.isLt,
      BitVec.ofNat_toNat, BitVec.setWidth_eq]
  exists_encode bytes h := by
    have hlength : (bytes.take n).length = n := List.length_take_of_le h
    have hpow : (256 : Nat) ^ n = 2 ^ (8 * n) := (pow_mul 2 8 n).symm
    have hlt : number (bytes.take n) < 2 ^ (8 * n) := by
      have hnumber := number_lt (bytes.take n)
      rwa [hlength, hpow] at hnumber
    refine ⟨BitVec.ofNat (8 * n) (number (bytes.take n)), bytes.drop n, ?_⟩
    have hback := lowBytes_number (bytes.take n)
    rw [hlength] at hback
    rw [BitVec.toNat_ofNat, Nat.mod_eq_of_lt hlt, hback, List.take_append_drop]
  read_short bytes h := if_pos h

@[simp] theorem width_word (n : Nat) : (word short n).width = n := rfl

end Codec

end Infra
