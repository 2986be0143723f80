import SandboxIpc.Infra.Wrapping

/-!
# The machine the crate is compiled for

`usize` on the two pointer widths the crate supports, the outcomes of a Rust function, and
arithmetic as the two build profiles compile it: a release build wraps, a debug build panics.
-/

namespace SandboxIpc

open Infra

/-- `target_pointer_width`. The crate has a `USIZE_SIZE` for these two only. -/
inductive PointerWidth
  | w32
  | w64
  deriving DecidableEq

namespace PointerWidth

def bits : PointerWidth → Nat
  | w32 => 32
  | w64 => 64

variable (p : PointerWidth)

theorem bits_pos : 0 < p.bits := by cases p <;> decide

theorem two_pow_bits : 2 ^ p.bits = 2 * 2 ^ (p.bits - 1) := by
  rw [Nat.mul_comm, Nat.two_pow_pred_mul_two p.bits_pos]

theorem half_pos : 0 < 2 ^ (p.bits - 1) := Nat.two_pow_pos _

/-- Small constants fit a `usize` of either width. -/
theorem lt_two_pow_bits {k : Nat} (h : k < 2 ^ 31) : k < 2 ^ (p.bits - 1) := by
  cases p with
  | w32 => exact h
  | w64 => exact Nat.lt_of_lt_of_le h (by decide)

end PointerWidth

abbrev Usize (p : PointerWidth) := BitVec p.bits

/-- `usize::MAX`. -/
def usizeMax (p : PointerWidth) : Usize p := BitVec.allOnes p.bits

/-- `isize::MAX as usize`. -/
def isizeMax (p : PointerWidth) : Usize p := BitVec.ofNat p.bits (2 ^ (p.bits - 1) - 1)

/-- `USIZE_SIZE`. -/
def usizeSize (p : PointerWidth) : Usize p :=
  match p with
  | .w32 => 4
  | .w64 => 8

/-- `CACHE_LINE`. -/
def cacheLine (p : PointerWidth) : Usize p := 64

variable {p : PointerWidth}

theorem toNat_usizeMax : (usizeMax p).toNat = 2 ^ p.bits - 1 := BitVec.toNat_allOnes

theorem toNat_isizeMax : (isizeMax p).toNat = 2 ^ (p.bits - 1) - 1 := by
  have h := p.two_pow_bits
  have hpos := p.half_pos
  rw [isizeMax, BitVec.toNat_ofNat, Nat.mod_eq_of_lt (by omega)]

/-- Incrementing the largest `usize` gives zero. -/
theorem toNat_usizeMax_add_one : (usizeMax p + 1).toNat = 0 := by
  cases p <;> decide

/-- A remainder is no larger than the number. -/
theorem toNat_umod_le (x y : Usize p) : (x % y).toNat ≤ x.toNat := by
  rw [BitVec.toNat_umod]
  exact Nat.mod_le _ _

/-! ## Counting up and down by one -/

theorem toNat_zero : (0 : Usize p).toNat = 0 := BitVec.toNat_zero

theorem toNat_one : (1 : Usize p).toNat = 1 := by cases p <;> rfl

theorem eq_zero_iff {x : Usize p} : x = 0 ↔ x.toNat = 0 := by
  constructor
  · rintro rfl
    exact toNat_zero
  · intro h
    exact BitVec.eq_of_toNat_eq (h.trans toNat_zero.symm)

theorem toNat_add_one {x : Usize p} (h : x ≠ usizeMax p) : (x + 1).toNat = x.toNat + 1 :=
  toNat_succ p.bits_pos h

theorem toNat_add_one_of_lt {x y : Usize p} (h : x.toNat < y.toNat) :
    (x + 1).toNat = x.toNat + 1 := by
  have := y.isLt
  rw [BitVec.toNat_add_of_lt (by rw [toNat_one]; omega), toNat_one]

theorem toNat_sub_one {x : Usize p} (h : x ≠ 0) : (x - 1).toNat + 1 = x.toNat := by
  have hpos : 0 < x.toNat := Nat.pos_of_ne_zero fun he => h (eq_zero_iff.mpr he)
  rw [BitVec.toNat_sub_of_le (by rw [BitVec.le_def]; rw [toNat_one]; exact hpos), toNat_one]
  exact Nat.sub_add_cancel hpos

theorem zero_sub_one : (0 : Usize p) - 1 = usizeMax p := by cases p <;> rfl

/-! ## Errors and panics -/

/-- The kinds of `io::Error` the crate makes itself. -/
inductive ErrorKind
  | invalidInput
  | invalidData
  | permissionDenied
  | wouldBlock
  | brokenPipe
  | writeZero
  deriving DecidableEq

/-- An `io::Error`: one the crate makes, or one the operating system reports. -/
inductive IoError
  | new (kind : ErrorKind) (message : String)
  | os (code : Int)
  deriving DecidableEq

/-- `e.kind() == ErrorKind::WouldBlock`, where the system reports it as `eagain`. -/
def IoError.isWouldBlock (eagain : Int) : IoError → Bool
  | .new kind _ => kind = .wouldBlock
  | .os code => code = eagain

/-- `ErrorKind::WouldBlock.into()`. -/
def IoError.wouldBlock : IoError := .new .wouldBlock "operation would block"

/-- The text of an error. The words the system has for a code are left out. -/
def IoError.display : IoError → String
  | .new _ message => message
  | .os code => s!"os error {code}"

/-- A file descriptor of a Unix process, `RawFd` or `c_int`. -/
abbrev RawFd := Int

/-- Why a function that returns `io::Result` gives no value. -/
inductive Stop
  | err (e : IoError)
  | panic (message : String)
  deriving DecidableEq

abbrev Outcome (α : Type) := Except Stop α

/-- How a `Serialize` or `Deserialize` goes wrong: an error with its text, or a panic. -/
inductive Failure
  | error (message : String)
  | panic (message : String)
  deriving DecidableEq

/-- `map_err(|x| io::Error::new(kind, x))`. -/
def Failure.toStop (kind : ErrorKind) : Failure → Stop
  | .error message => .err (.new kind message)
  | .panic message => .panic message

/-- `Err(io::Error::new(kind, message))`. -/
def fail {α : Type} (kind : ErrorKind) (message : String) : Outcome α :=
  .error (.err (.new kind message))

/-- `assert!(cond, message)`. -/
def assert (cond : Prop) [Decidable cond] (message : String) : Outcome Unit :=
  if cond then .ok () else .error (.panic message)

/-! ## Arithmetic of the two build profiles -/

inductive Build
  | debug
  | release
  deriving DecidableEq

namespace Build

variable (b : Build) (x y : Usize p)

/-- `x + y`. -/
def add : Outcome (Usize p) :=
  if b = .debug ∧ 2 ^ p.bits ≤ x.toNat + y.toNat then
    .error (.panic "attempt to add with overflow")
  else .ok (x + y)

/-- `x - y`. -/
def sub : Outcome (Usize p) :=
  if b = .debug ∧ x.toNat < y.toNat then .error (.panic "attempt to subtract with overflow")
  else .ok (x - y)

/-- `x * y`. -/
def mul : Outcome (Usize p) :=
  if b = .debug ∧ 2 ^ p.bits ≤ x.toNat * y.toNat then
    .error (.panic "attempt to multiply with overflow")
  else .ok (x * y)

@[simp] theorem add_release : Build.release.add x y = .ok (x + y) := rfl

variable {b x y}

/-- Where the exact result fits the profiles agree. -/
theorem add_of_lt (h : x.toNat + y.toNat < 2 ^ p.bits) : b.add x y = .ok (x + y) :=
  if_neg fun hb => Nat.not_le.mpr h hb.2

theorem sub_of_le (h : y.toNat ≤ x.toNat) : b.sub x y = .ok (x - y) :=
  if_neg fun hb => Nat.not_lt.mpr h hb.2

theorem mul_of_lt (h : x.toNat * y.toNat < 2 ^ p.bits) : b.mul x y = .ok (x * y) :=
  if_neg fun hb => Nat.not_le.mpr h hb.2

/-- If there is a result it has wrapped around. -/
theorem eq_of_add {z : Usize p} (h : b.add x y = .ok z) : z = x + y := by
  unfold add at h
  split at h
  · cases h
  · exact (Except.ok.inj h).symm

theorem eq_of_mul {z : Usize p} (h : b.mul x y = .ok z) : z = x * y := by
  unfold mul at h
  split at h
  · cases h
  · exact (Except.ok.inj h).symm

/-- Where it does not, a debug build panics. -/
theorem add_debug (h : 2 ^ p.bits ≤ x.toNat + y.toNat) :
    Build.debug.add x y = .error (.panic "attempt to add with overflow") :=
  if_pos ⟨rfl, h⟩

theorem sub_debug (h : x.toNat < y.toNat) :
    Build.debug.sub x y = .error (.panic "attempt to subtract with overflow") :=
  if_pos ⟨rfl, h⟩

theorem mul_debug (h : 2 ^ p.bits ≤ x.toNat * y.toNat) :
    Build.debug.mul x y = .error (.panic "attempt to multiply with overflow") :=
  if_pos ⟨rfl, h⟩

end Build

/-- `x.checked_add(y)`. -/
def checkedAdd (x y : Usize p) : Option (Usize p) :=
  if x.toNat + y.toNat < 2 ^ p.bits then some (x + y) else none

/-- `x.checked_sub(y)`. -/
def checkedSub (x y : Usize p) : Option (Usize p) :=
  if y.toNat ≤ x.toNat then some (x - y) else none

end SandboxIpc
