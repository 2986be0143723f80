import SandboxIpc.Infra.Codec
import SandboxIpc.Ser

/-!
# The encoding of an item, bincode

A `Serialize` hands an item to its serializer in pieces: plain bytes, or a resource of the operating
system, for which the platform answers what is to be written. With a size limit bincode goes through
all the pieces twice, first to add up their sizes and then to write them, and the platform is asked
for each resource both times.

* `Piece`, `resources`, `size` — an item as its `Serialize` hands it over
* `Code` — what is done with it
* `serve` — what the platform answers for some resources, one after the other
* `run_bounds`, `run_invariant`, `run_rel` — any code stays inside its buffer, keeps up what the
  platform keeps up, and does not read the buffer
* `Code.Twice` — the platform is asked for the resources of the item twice, and an item that fits the
  limit is written if it answers
* `Bincode` — what the crate relies on
* `LittleEndian.bincode` — bincode 1 on a little-endian machine
-/

namespace SandboxIpc

open Infra

/-- A call of a serializer; `ρ` are the resources. -/
inductive Piece (ρ : Type)
  | bytes (bytes : List UInt8)
  | resource (r : ρ)

/-- What is done with an item, as far as the platform and the buffer can see it; `α` is what the
platform answers for a resource. -/
inductive Code (ρ α : Type)
  | done
  | fail (failure : Failure)
  /-- Write some bytes; the answer is whether they fitted. -/
  | write (bytes : List UInt8) (next : Bool → Code ρ α)
  | resource (r : ρ) (next : Except String α → Code ρ α)

section Pieces

variable {ρ α : Type}

def resources : List (Piece ρ) → List ρ
  | [] => []
  | .bytes _ :: ps => resources ps
  | .resource r :: ps => r :: resources ps

/-- The size of an item, if the platform writes `width r` bytes for `r`. -/
def size (width : ρ → Nat) : List (Piece ρ) → Nat
  | [] => 0
  | .bytes bytes :: ps => bytes.length + size width ps
  | .resource r :: ps => width r + size width ps

/-- An item as it is written, if these are the answers for its resources. -/
def render (content : α → List UInt8) : List (Piece ρ) → List α → List UInt8
  | [], _ => []
  | .bytes bytes :: ps, answers => bytes ++ render content ps answers
  | .resource _ :: ps, answer :: answers => content answer ++ render content ps answers
  | .resource _ :: ps, [] => render content ps []

end Pieces

namespace Code

variable {ρ α : Type}

def tooLarge : Failure := .error "the size limit has been reached"

section Passes

variable (content : α → List UInt8)

/-- `SizeChecker`: `size` is the size of the pieces before. -/
def sizing (limit : Nat) : List (Piece ρ) → Nat → Code ρ α → Code ρ α
  | [], _, next => next
  | .bytes bytes :: ps, size, next =>
    if size + bytes.length ≤ limit then sizing limit ps (size + bytes.length) next
    else .fail tooLarge
  | .resource r :: ps, size, next =>
    .resource r fun
      | .error message => .fail (.error message)
      | .ok answer =>
        if size + (content answer).length ≤ limit then
          sizing limit ps (size + (content answer).length) next
        else .fail tooLarge

def put (bytes : List UInt8) (next : Code ρ α) : Code ρ α :=
  .write bytes fun
    | true => next
    | false => .fail (.error "io error: failed to write whole buffer")

/-- `bincode::ser::Serializer`. -/
def writing : List (Piece ρ) → Code ρ α
  | [] => .done
  | .bytes bytes :: ps => put bytes (writing ps)
  | .resource r :: ps =>
    .resource r fun
      | .error message => .fail (.error message)
      | .ok answer => put (content answer) (writing ps)

/-- `serialize_into` with a size limit; `content` is what is written for an answer. -/
def bincode (limit : Nat) (ps : List (Piece ρ)) : Code ρ α :=
  sizing content limit ps 0 (writing content ps)

end Passes

variable {σ : Type} (H : Nat → ρ → σ → Except String α × σ)

/-- `H n` is how the platform answers for the resource after the first `n`. -/
def run : Code ρ α → Nat → σ → Cursor → Except Failure Unit × σ × Cursor
  | .done, _, s, c => (.ok (), s, c)
  | .fail failure, _, s, c => (.error failure, s, c)
  | .write bytes next, n, s, c =>
    let (fitted, c) := c.writeAll bytes
    (next fitted).run n s c
  | .resource r next, n, s, c =>
    let (answer, s) := H n r s
    (next answer).run (n + 1) s c

variable {H}

theorem run_write (bytes : List UInt8) (next : Bool → Code ρ α) (n : Nat) (s : σ) (c : Cursor) :
    (Code.write bytes next).run H n s c
      = (next (c.writeAll bytes).1).run H n s (c.writeAll bytes).2 := rfl

theorem run_resource (r : ρ) (next : Except String α → Code ρ α) (n : Nat) (s : σ) (c : Cursor) :
    (Code.resource r next).run H n s c = (next (H n r s).1).run H (n + 1) (H n r s).2 c := rfl

/-- Code stays inside the buffer. -/
theorem run_bounds (code : Code ρ α) (n : Nat) (s : σ) {c : Cursor}
    (h : c.position ≤ c.buffer.length) :
    (code.run H n s c).2.2.position ≤ c.buffer.length ∧
      (code.run H n s c).2.2.buffer.length = c.buffer.length := by
  induction code generalizing n s c with
  | done => exact ⟨h, rfl⟩
  | fail failure => exact ⟨h, rfl⟩
  | write bytes next ih =>
    have hnext := ih (c.writeAll bytes).1 n s (Cursor.position_writeAll_le h bytes)
    rwa [Cursor.length_writeAll h] at hnext
  | resource r next ih => exact ih _ (n + 1) _ h

/-- What the platform keeps up with every answer is kept up. -/
theorem run_invariant {P : σ → Prop} (hH : ∀ n r s, P s → P (H n r s).2) (code : Code ρ α) (n : Nat)
    {s : σ} (hs : P s) (c : Cursor) : P (code.run H n s c).2.1 := by
  induction code generalizing n s c with
  | done => exact hs
  | fail failure => exact hs
  | write bytes next ih => exact ih _ n hs _
  | resource r next ih => exact ih _ (n + 1) (hH n r s hs) c

/-- The code asks for such resources only. -/
def Within (Q : ρ → Prop) : Code ρ α → Prop
  | .done => True
  | .fail _ => True
  | .write _ next => ∀ fitted, (next fitted).Within Q
  | .resource r next => Q r ∧ ∀ answer, (next answer).Within Q

/-- What the platform keeps up for the resources that are asked for. -/
theorem run_within {P : σ → Prop} {Q : ρ → Prop} (hH : ∀ n r s, Q r → P s → P (H n r s).2)
    {code : Code ρ α} (hcode : code.Within Q) (n : Nat) {s : σ} (hs : P s) (c : Cursor) :
    P (code.run H n s c).2.1 := by
  induction code generalizing n s c with
  | done => exact hs
  | fail failure => exact hs
  | write bytes next ih => exact ih _ (hcode _) n hs _
  | resource r next ih => exact ih _ (hcode.2 _) (n + 1) (hH n r s hcode.1 hs) c

theorem within_put {content : List UInt8} {Q : ρ → Prop} {next : Code ρ α} (h : next.Within Q) :
    (put content next).Within Q := by
  intro fitted
  cases fitted with
  | true => exact h
  | false => exact trivial

theorem Within.mono {Q Q' : ρ → Prop} (hQ : ∀ r, Q r → Q' r) {code : Code ρ α}
    (h : code.Within Q) : code.Within Q' := by
  induction code with
  | done => exact trivial
  | fail failure => exact trivial
  | write bytes next ih => exact fun fitted => ih fitted (h fitted)
  | resource r next ih => exact ⟨hQ r h.1, fun answer => ih answer (h.2 answer)⟩

/-- The two passes ask for the resources of the item. -/
theorem within_bincode {content : α → List UInt8} {limit : Nat} {ps : List (Piece ρ)}
    {Q : ρ → Prop} (h : ∀ r ∈ resources ps, Q r) :
    (bincode content limit ps : Code ρ α).Within Q := by
  have hwriting : (writing content ps).Within Q := by
    induction ps with
    | nil => exact trivial
    | cons piece ps ih =>
      cases piece with
      | bytes bytes => exact within_put (ih h)
      | resource r =>
        refine ⟨h r (.head _), fun answer => ?_⟩
        cases answer with
        | error message => exact trivial
        | ok answer => exact within_put (ih fun r hr => h r (.tail _ hr))
  unfold bincode
  generalize writing content ps = next at hwriting
  generalize 0 = sz
  induction ps generalizing sz with
  | nil => exact hwriting
  | cons piece ps ih =>
    cases piece with
    | bytes bytes =>
      unfold sizing
      split
      · exact ih h _
      · exact trivial
    | resource r =>
      refine ⟨h r (.head _), fun answer => ?_⟩
      cases answer with
      | error message => exact trivial
      | ok answer =>
        dsimp only
        split
        · exact ih (fun r hr => h r (.tail _ hr)) _
        · exact trivial

/-- Two platforms that give the same answers, with buffers that held different bytes before. -/
theorem run_rel {σ' : Type} {H' : Nat → ρ → σ' → Except String α × σ'} {P : σ → σ' → Prop}
    (hH : ∀ n r s s', P s s' → (H' n r s').1 = (H n r s).1 ∧ P (H n r s).2 (H' n r s').2)
    (code : Code ρ α) (n : Nat) {s : σ} {s' : σ'} (hs : P s s') {c c' : Cursor} (hc : c.Same c') :
    (code.run H' n s' c').1 = (code.run H n s c).1 ∧
      P (code.run H n s c).2.1 (code.run H' n s' c').2.1 ∧
      (code.run H n s c).2.2.Same (code.run H' n s' c').2.2 := by
  induction code generalizing n s s' c c' with
  | done => exact ⟨rfl, hs, hc⟩
  | fail failure => exact ⟨rfl, hs, hc⟩
  | write bytes next ih =>
    obtain ⟨hfitted, hsame⟩ := hc.writeAll bytes
    rw [run_write, run_write, hfitted]
    exact ih _ n hs hsame
  | resource r next ih =>
    obtain ⟨hanswer, hP⟩ := hH n r s s' hs
    rw [run_resource, run_resource, hanswer]
    exact ih _ (n + 1) hP hc

/-- What the buffer held before does not matter. -/
theorem run_congr (code : Code ρ α) (n : Nat) (s : σ) {c c' : Cursor} (hc : c.Same c') :
    (code.run H n s c').2.2.written = (code.run H n s c).2.2.written := by
  refine (code.run_rel (P := Eq) ?_ n rfl hc).2.2.written
  rintro n r s _ rfl
  exact ⟨rfl, rfl⟩

end Code

/-- What the platform answers for some resources, one after the other, until it refuses one. -/
def serve {ρ α σ : Type} (H : Nat → ρ → σ → Except String α × σ) :
    List ρ → Nat → σ → Except String (List α) × σ
  | [], _, s => (.ok [], s)
  | r :: rs, n, s =>
    match H n r s with
    | (.error message, s) => (.error message, s)
    | (.ok answer, s) =>
      let (answers, s) := serve H rs (n + 1) s
      (answers.map (answer :: ·), s)

section Run

variable {ρ α σ : Type} {H : Nat → ρ → σ → Except String α × σ}

theorem serve_cons (r : ρ) (rs : List ρ) (n : Nat) (s : σ) :
    serve H (r :: rs) n s = match H n r s with
      | (.error message, s) => (.error message, s)
      | (.ok answer, s) =>
        ((serve H rs (n + 1) s).1.map (answer :: ·), (serve H rs (n + 1) s).2) := rfl

theorem serve_append (rs rs' : List ρ) (n : Nat) (s : σ) :
    serve H (rs ++ rs') n s = match serve H rs n s with
      | (.error message, s) => (.error message, s)
      | (.ok answers, s) =>
        ((serve H rs' (n + rs.length) s).1.map (answers ++ ·), (serve H rs' (n + rs.length) s).2) := by
  induction rs generalizing n s with
  | nil =>
    show serve H rs' n s = ((serve H rs' n s).1.map id, (serve H rs' n s).2)
    cases (serve H rs' n s) with
    | mk answers s => cases answers <;> rfl
  | cons r rs ih =>
    have hindex : n + (r :: rs).length = n + 1 + rs.length := by
      rw [List.length_cons]
      omega
    rw [List.cons_append, hindex, serve_cons, serve_cons]
    rcases H n r s with ⟨message | answer, s⟩
    · rfl
    · dsimp only
      rw [ih]
      rcases serve H rs (n + 1) s with ⟨message | answers, s⟩
      · rfl
      · dsimp only [Except.map]
        cases (serve H rs' (n + 1 + rs.length) s).1 <;> rfl

theorem length_serve {rs : List ρ} {n : Nat} {s : σ} {answers : List α}
    (h : (serve H rs n s).1 = .ok answers) : answers.length = rs.length := by
  induction rs generalizing n s answers with
  | nil =>
    obtain rfl := Except.ok.inj h
    rfl
  | cons r rs ih =>
    rw [serve_cons] at h
    rcases hr : H n r s with ⟨message | answer, s'⟩
    · rw [hr] at h
      cases h
    · rw [hr] at h
      dsimp only at h
      rcases hrest : (serve H rs (n + 1) s').1 with message | answers'
      · rw [hrest] at h
        cases h
      · rw [hrest] at h
        obtain rfl := Except.ok.inj h
        exact congrArg (· + 1) (ih hrest)

namespace Code

theorem run_put {bytes : List UInt8} {c : Cursor}
    (h : c.position + bytes.length ≤ c.buffer.length) (next : Code ρ α) (n : Nat) (s : σ) :
    (put bytes next).run H n s c = next.run H n s (c.writeAll bytes).2 := by
  rw [put, run_write, (Cursor.writeAll_of_fits h).1]

/-- The outcome of a pass with these answers. -/
def outcome : Except String (List α) → Except Failure Unit
  | .error message => .error (.error message)
  | .ok _ => .ok ()

variable {content : α → List UInt8} {width : ρ → Nat}
  (hwidth : ∀ n r s answer, (H n r s).1 = .ok answer → (content answer).length = width r)

include hwidth

/-- The first pass, if the item fits: it asks for the resources and writes nothing. -/
theorem run_sizing {limit : Nat} {ps : List (Piece ρ)} {sz : Nat}
    (h : sz + size width ps ≤ limit) (next : Code ρ α) (n : Nat) (s : σ) (c : Cursor) :
    (sizing content limit ps sz next).run H n s c = match serve H (resources ps) n s with
      | (.error message, s) => (.error (.error message), s, c)
      | (.ok _, s) => next.run H (n + (resources ps).length) s c := by
  induction ps generalizing sz n s with
  | nil => rfl
  | cons p ps ih =>
    cases p with
    | bytes bytes =>
      rw [size, ← Nat.add_assoc] at h
      rw [sizing, if_pos (Nat.le_trans (Nat.le_add_right _ _) h)]
      exact ih h n s
    | resource r =>
      rw [size, ← Nat.add_assoc] at h
      have hindex : n + (resources (.resource r :: ps)).length = n + 1 + (resources ps).length := by
        rw [resources, List.length_cons]
        omega
      rw [hindex, sizing, run_resource, resources, serve_cons]
      rcases hr : H n r s with ⟨message | answer, s'⟩
      · rfl
      · have hcontent := hwidth n r s answer (by rw [hr])
        dsimp only
        rw [hcontent, if_pos (Nat.le_trans (Nat.le_add_right _ _) h), ih h]
        rcases serve H (resources ps) (n + 1) s' with ⟨message | answers, s''⟩ <;> rfl

/-- The first pass ends with an error if the item does not fit. -/
theorem run_sizing_large {limit : Nat} {ps : List (Piece ρ)} {sz : Nat} (hsz : sz ≤ limit)
    (h : limit < sz + size width ps) (next : Code ρ α) (n : Nat) (s : σ) (c : Cursor) :
    ∃ failure s', (sizing content limit ps sz next).run H n s c = (.error failure, s', c) := by
  induction ps generalizing sz n s with
  | nil => exact absurd h (Nat.not_lt.mpr hsz)
  | cons p ps ih =>
    cases p with
    | bytes bytes =>
      rw [size, ← Nat.add_assoc] at h
      rw [sizing]
      split
      · next hle => exact ih hle h n s
      · exact ⟨_, _, rfl⟩
    | resource r =>
      rw [size, ← Nat.add_assoc] at h
      rw [sizing, run_resource]
      rcases hr : H n r s with ⟨message | answer, s'⟩
      · exact ⟨_, _, rfl⟩
      · have hcontent := hwidth n r s answer (by rw [hr])
        dsimp only
        rw [hcontent]
        split
        · next hle => exact ih hle h (n + 1) s'
        · exact ⟨_, _, rfl⟩

/-- The second pass, if there is room for the item: it asks for the resources and writes. -/
theorem run_writing {ps : List (Piece ρ)} {c : Cursor}
    (h : c.position + size width ps ≤ c.buffer.length) (n : Nat) (s : σ) :
    ∃ c', (writing content ps).run H n s c
        = (outcome (serve H (resources ps) n s).1, (serve H (resources ps) n s).2, c') ∧
      ∀ answers, (serve H (resources ps) n s).1 = .ok answers →
        c'.written = c.written ++ render content ps answers := by
  induction ps generalizing c n s with
  | nil =>
    refine ⟨c, rfl, ?_⟩
    intro answers _
    exact (List.append_nil _).symm
  | cons p ps ih =>
    cases p with
    | bytes bytes =>
      rw [size, ← Nat.add_assoc] at h
      have hfits : c.position + bytes.length ≤ c.buffer.length :=
        Nat.le_trans (Nat.le_add_right _ _) h
      obtain ⟨-, hposition, hwritten⟩ := Cursor.writeAll_of_fits hfits
      obtain ⟨c', hrun, hrender⟩ := ih (c := (c.writeAll bytes).2) (by
        rw [hposition, Cursor.length_writeAll (by omega)]
        exact h) n s
      refine ⟨c', ?_, ?_⟩
      · rw [writing, run_put hfits]
        exact hrun
      · intro answers hanswers
        rw [hrender answers hanswers, hwritten, List.append_assoc]
        rfl
    | resource r =>
      rw [size, ← Nat.add_assoc] at h
      rw [writing, run_resource, resources, serve_cons]
      rcases hr : H n r s with ⟨message | answer, s'⟩
      · exact ⟨c, rfl, nofun⟩
      · have hcontent := hwidth n r s answer (by rw [hr])
        rw [← hcontent] at h
        have hfits : c.position + (content answer).length ≤ c.buffer.length :=
          Nat.le_trans (Nat.le_add_right _ _) h
        obtain ⟨-, hposition, hwritten⟩ := Cursor.writeAll_of_fits hfits
        obtain ⟨c', hrun, hrender⟩ := ih (c := (c.writeAll (content answer)).2) (by
          rw [hposition, Cursor.length_writeAll (by omega)]
          exact h) (n + 1) s'
        refine ⟨c', ?_, ?_⟩
        · dsimp only
          rw [run_put hfits, hrun]
          cases (serve H (resources ps) (n + 1) s').1 <;> rfl
        · intro answers hanswers
          dsimp only at hanswers
          cases hrest : (serve H (resources ps) (n + 1) s').1 with
          | error message =>
            rw [hrest] at hanswers
            cases hanswers
          | ok rest =>
            rw [hrest] at hanswers
            obtain rfl := Except.ok.inj hanswers
            rw [hrender rest hrest, hwritten, List.append_assoc]
            rfl

/-- An item that fits is written if the platform answers for its resources twice, and refused with
the text of the platform if not. -/
theorem run_bincode {ps : List (Piece ρ)} {buffer : List UInt8} (h : size width ps ≤ buffer.length)
    (s : σ) :
    ∃ c, (bincode content buffer.length ps).run H 0 s ⟨buffer, 0⟩
        = (outcome (serve H (resources ps ++ resources ps) 0 s).1,
          (serve H (resources ps ++ resources ps) 0 s).2, c) ∧
      ∀ answers, (serve H (resources ps ++ resources ps) 0 s).1 = .ok answers →
        c.written = render content ps (answers.drop (resources ps).length) := by
  rw [serve_append, bincode, run_sizing hwidth (by rwa [Nat.zero_add])]
  rcases hfirst : serve H (resources ps) 0 s with ⟨message | first, s'⟩
  · exact ⟨_, rfl, nofun⟩
  · dsimp only
    obtain ⟨c, hrun, hrender⟩ := run_writing hwidth (c := ⟨buffer, 0⟩)
      (by rwa [Nat.zero_add]) (0 + (resources ps).length) s'
    refine ⟨c, ?_, ?_⟩
    · rw [hrun]
      cases (serve H (resources ps) (0 + (resources ps).length) s').1 <;> rfl
    · intro answers hanswers
      cases hsecond : (serve H (resources ps) (0 + (resources ps).length) s').1 with
      | error message =>
        rw [hsecond] at hanswers
        cases hanswers
      | ok second =>
        rw [hsecond] at hanswers
        obtain rfl := Except.ok.inj hanswers
        have hlength : first.length = (resources ps).length := length_serve (by rw [hfirst])
        rw [← hlength, List.drop_left]
        exact hrender second hsecond

/-- An item that does not fit is refused. -/
theorem run_bincode_large {limit : Nat} {ps : List (Piece ρ)} (h : limit < size width ps)
    (s : σ) (c : Cursor) :
    ∃ failure s', (bincode content limit ps).run H 0 s c = (.error failure, s', c) :=
  run_sizing_large hwidth (Nat.zero_le _) (by rwa [Nat.zero_add]) _ 0 s c

end Code

end Run

/-! ## What the crate relies on -/

/-- The bytes of a `Uuid`. -/
structure Token where
  bytes : List UInt8
  length_bytes : bytes.length = 16
  deriving DecidableEq

/-- `Uuid::nil`. -/
def Token.nil : Token := ⟨List.replicate 16 0, rfl⟩

/-- The platform is asked for the resources of the item, and is asked twice if the item fits the limit.
An item is written with the answers of the second time, and refused if it does not fit or if the
platform refuses. -/
structure Code.Twice {ρ α : Type} (content : α → List UInt8) (limit : Nat) (ps : List (Piece ρ))
    (code : Code ρ α) : Prop where
  within : code.Within (· ∈ resources ps)
  run_fits : ∀ {σ : Type} {H : Nat → ρ → σ → Except String α × σ} {width : ρ → Nat},
    (∀ n r s answer, (H n r s).1 = .ok answer → (content answer).length = width r) →
    size width ps ≤ limit → ∀ (s : σ) {buffer : List UInt8}, buffer.length = limit →
    ∃ c, code.run H 0 s ⟨buffer, 0⟩
        = (Code.outcome (serve H (resources ps ++ resources ps) 0 s).1,
          (serve H (resources ps ++ resources ps) 0 s).2, c) ∧
      ∀ answers, (serve H (resources ps ++ resources ps) 0 s).1 = .ok answers →
        c.written = render content ps (answers.drop (resources ps).length)
  run_large : ∀ {σ : Type} {H : Nat → ρ → σ → Except String α × σ} {width : ρ → Nat},
    (∀ n r s answer, (H n r s).1 = .ok answer → (content answer).length = width r) →
    limit < size width ps → ∀ (s : σ) (c : Cursor),
    ∃ failure s', code.run H 0 s c = (.error failure, s', c)

/-- bincode 1 as `wrap` configures it, and `Uuid` in it. Neither is part of the crate; these are the
formats and the laws that the crate relies on. -/
class Bincode where
  /-- The error for missing bytes. -/
  short : String
  u8 : Codec short (BitVec 8)
  u16 : Codec short (BitVec 16)
  u32 : Codec short (BitVec 32)
  u64 : Codec short (BitVec 64)
  width_u8 : u8.width = 1
  width_u16 : u16.width = 2
  width_u32 : u32.width = 4
  width_u64 : u64.width = 8
  bool : Format String Bool
  /-- The tag of an `Option`. -/
  tag : Format String Bool
  uuid : Format String Token
  /-- The elements of a tuple, for a visitor. -/
  Access : Type
  access (len : Nat) (bytes : List UInt8) : Access
  /-- The bytes after the elements that have been read. -/
  remaining : Access → List UInt8
  /-- `next_element`. -/
  nextElement {α : Type} (c : Codec short α) : StateT Access (Except String) (Option α)
  remaining_access (len : Nat) (bytes : List UInt8) : remaining (access len bytes) = bytes
  nextElement_zero {α : Type} (c : Codec short α) (bytes : List UInt8) :
    nextElement c (access 0 bytes) = .ok (none, access 0 bytes)
  nextElement_error {α : Type} (c : Codec short α) (len : Nat) {bytes : List UInt8}
    {message : String} (h : c.read bytes = .error message) :
    nextElement c (access (len + 1) bytes) = .error message
  nextElement_ok {α : Type} (c : Codec short α) (len : Nat) {bytes rest : List UInt8} {x : α}
    (h : c.read bytes = .ok (x, rest)) :
    nextElement c (access (len + 1) bytes) = .ok (some x, access len rest)
  /-- `serialize_into`; `content` is what is written for an answer of the platform. -/
  serializeInto {ρ α : Type} (content : α → List UInt8) (limit : Nat) (ps : List (Piece ρ)) : Code ρ α
  twice {ρ α : Type} (content : α → List UInt8) (limit : Nat) (ps : List (Piece ρ)) :
    (serializeInto content limit ps).Twice content limit ps

section Usize

variable [Bincode]

/-- A `usize` travels as a `u64`. -/
def usizeBytes (n : Nat) : List UInt8 := Bincode.u64.encode (BitVec.ofNat 64 n)

def readUsize (bytes : List UInt8) : Except String (Nat × List UInt8) :=
  match Bincode.u64.read bytes with
  | .error message => .error message
  | .ok (value, bytes) => .ok (value.toNat, bytes)

@[simp] theorem length_usizeBytes (n : Nat) : (usizeBytes n).length = 8 :=
  (Bincode.u64.length_encode _).trans Bincode.width_u64

/-- A `usize` is read back. -/
theorem readUsize_usizeBytes {n : Nat} (h : n < 2 ^ 64) (rest : List UInt8) :
    readUsize (usizeBytes n ++ rest) = .ok (n, rest) := by
  unfold readUsize usizeBytes
  rw [Bincode.u64.read_encode]
  dsimp only
  rw [BitVec.toNat_ofNat, Nat.mod_eq_of_lt h]

/-- What is read are eight bytes. -/
theorem eq_of_readUsize {bytes rest : List UInt8} {n : Nat} (h : readUsize bytes = .ok (n, rest)) :
    bytes = usizeBytes n ++ rest ∧ rest = bytes.drop 8 := by
  unfold readUsize at h
  rcases hread : Bincode.u64.read bytes with message | ⟨value, bytes'⟩
  · rw [hread] at h
    cases h
  · rw [hread] at h
    obtain ⟨rfl, rfl⟩ := Prod.mk.inj (Except.ok.inj h)
    have hbytes : bytes = usizeBytes value.toNat ++ bytes' := by
      unfold usizeBytes
      rw [BitVec.ofNat_toNat, BitVec.setWidth_eq]
      exact Bincode.u64.read_eq_ok_iff.mp hread
    refine ⟨hbytes, ?_⟩
    rw [hbytes, List.drop_left' (length_usizeBytes _)]

theorem readUsize_cut (rest : List UInt8) (len : Nat) {n : Nat} (h : n < 2 ^ 64) :
    (∃ message, readUsize ((usizeBytes n ++ rest).take len) = .error message) ∨
      ∃ len', readUsize ((usizeBytes n ++ rest).take len) = .ok (n, rest.take len') := by
  have hvalue : (BitVec.ofNat 64 n).toNat = n := by
    rw [BitVec.toNat_ofNat, Nat.mod_eq_of_lt h]
  unfold readUsize usizeBytes
  rcases Bincode.u64.read_cut (BitVec.ofNat 64 n) rest len with ⟨message, heq⟩ | ⟨len', heq⟩
  · rw [heq]
    exact .inl ⟨message, rfl⟩
  · rw [heq]
    dsimp only
    rw [hvalue]
    exact .inr ⟨len', rfl⟩

end Usize

/-- Some bytes, and those after them. -/
def takeBytes (short : String) (n : Nat) (bytes : List UInt8) :
    Except String (List UInt8 × List UInt8) :=
  if bytes.length < n then .error short else .ok (bytes.take n, bytes.drop n)

theorem takeBytes_append (short : String) (x rest : List UInt8) :
    takeBytes short x.length (x ++ rest) = .ok (x, rest) := by
  unfold takeBytes
  rw [if_neg (by simp), List.take_left, List.drop_left]

/-! ## bincode 1 -/

namespace LittleEndian

def short : String := "io error: unexpected end of file"

/-- A byte that is 0 or 1. -/
def flag (invalid : Nat → String) : Format String Bool where
  encode b := [if b then 1 else 0]
  read bytes :=
    match bytes with
    | [] => .error short
    | byte :: bytes =>
      if byte = 0 then .ok (false, bytes)
      else if byte = 1 then .ok (true, bytes)
      else .error (invalid byte.toNat)
  read_encode b rest := by cases b <;> rfl
  read_take b n h := by
    obtain rfl : n = 0 := Nat.lt_one_iff.mp h
    exact ⟨short, rfl⟩

def u64 : Codec short (BitVec 64) := .word short 8

def readUuid (bytes : List UInt8) : Except String (Token × List UInt8) :=
  match u64.read bytes with
  | .error message => .error message
  | .ok (n, bytes) =>
    match takeBytes short n.toNat bytes with
    | .error message => .error message
    | .ok (token, bytes) =>
      if h : token.length = 16 then .ok (⟨token, h⟩, bytes)
      else .error s!"invalid bytes length: expected 16, found {token.length}"

/-- A `Uuid` is serialized as a byte string. -/
def uuid : Format String Token where
  encode token := u64.encode 16 ++ token.bytes
  read := readUuid
  read_encode token rest := by
    have htake := takeBytes_append short token.bytes rest
    rw [token.length_bytes] at htake
    unfold readUuid
    rw [List.append_assoc, u64.read_encode]
    dsimp only
    rw [show (16 : BitVec 64).toNat = 16 from rfl, htake]
    dsimp only
    rw [dif_pos token.length_bytes]
  read_take token n h := by
    unfold readUuid
    rcases take_append_cut (u64.encode 16) token.bytes n with ⟨hlen, heq⟩ | heq
    · rw [heq, u64.read_short _ (Nat.lt_of_le_of_lt (List.length_take_le _ _) hlen)]
      exact ⟨short, rfl⟩
    · have hcut : (token.bytes.take (n - (u64.encode 16).length)).length
          < (16 : BitVec 64).toNat := by
        rw [List.length_append, token.length_bytes] at h
        rw [List.length_take, token.length_bytes]
        show _ < 16
        omega
      rw [heq, u64.read_encode]
      dsimp only
      rw [takeBytes, if_pos hcut]
      exact ⟨short, rfl⟩

/-- The elements of a tuple. -/
structure Access where
  len : Nat
  bytes : List UInt8

def Access.nextElement {α : Type} (c : Codec short α) :
    StateT Access (Except String) (Option α) := fun access =>
  match access.len with
  | 0 => .ok (none, access)
  | len + 1 =>
    match c.read access.bytes with
    | .error message => .error message
    | .ok (value, bytes) => .ok (some value, ⟨len, bytes⟩)

scoped instance bincode : Bincode where
  short
  u8 := .word short 1
  u16 := .word short 2
  u32 := .word short 4
  u64
  width_u8 := Codec.width_word 1
  width_u16 := Codec.width_word 2
  width_u32 := Codec.width_word 4
  width_u64 := Codec.width_word 8
  bool := flag fun n => s!"invalid u8 while decoding bool, expected 0 or 1, found {n}"
  tag := flag fun n => s!"tag for enum is not valid, found {n}"
  uuid
  Access
  access len bytes := ⟨len, bytes⟩
  remaining access := access.bytes
  nextElement := Access.nextElement
  remaining_access _ _ := rfl
  nextElement_zero _ _ := rfl
  nextElement_error c len bytes message h := by
    unfold Access.nextElement
    dsimp only
    rw [h]
  nextElement_ok c len bytes rest x h := by
    unfold Access.nextElement
    dsimp only
    rw [h]
  serializeInto := Code.bincode
  twice content limit ps :=
    { within := Code.within_bincode fun _ hr => hr
      run_fits := by
        rintro σ H width hwidth h s buffer rfl
        exact Code.run_bincode hwidth h s
      run_large := fun hwidth h s c => Code.run_bincode_large hwidth h s c }

end LittleEndian

end SandboxIpc
