import SandboxIpc.Unix.Payload
import Mathlib.Data.List.Forall2
import Mathlib.Data.Option.Basic

/-!
# What is read back of a message

A `Deserialize` reads plain bytes, and indices of descriptors in the list that has come with them.

* `SharedMem.deserialize` — the derived `Deserialize`
* `Field` — what a message of any type is made of; `Field.pieces` is how it is written
* `Reader` — the `Deserialize` of a type that is made of the types of the crate
* `Reader.yields_wire` — what is read of a message, cut short or not, is what was written, with the
  descriptors in sight in the place of the indices
-/

namespace SandboxIpc.Unix

open Infra

/-! ## Lists -/

section Lists

variable {α : Type} {l : List α} {i : Nat} {x : α}

theorem drop_of_getElem? (h : l[i]? = some x) : l.drop i = x :: l.drop (i + 1) := by
  obtain ⟨hlt, rfl⟩ := List.getElem?_eq_some_iff.mp h
  exact List.drop_eq_getElem_cons hlt

theorem getElem?_of_drop {tail : List α} (h : x :: tail <+: l.drop i) :
    l[i]? = some x ∧ tail <+: l.drop (i + 1) := by
  have hget : l[i]? = some x := by
    obtain ⟨rest, hrest⟩ := h
    rw [← List.head?_drop, ← hrest]
    rfl
  rw [drop_of_getElem? hget] at h
  exact ⟨hget, (List.cons_prefix_cons.mp h).2⟩

end Lists

/-- A relation is carried from the one half of some pairs to the other. -/
theorem forall₂_of_zip {α β γ : Type} {S : α → γ → Prop} {Q : β → γ → Prop} {l : List α}
    {l' : List β} {o : List γ} (h : List.Forall₂ S l o) (hlength : l'.length = l.length)
    (hpairs : ∀ x ∈ l.zip l', ∀ c, S x.1 c → Q x.2 c) : List.Forall₂ Q l' o := by
  induction h generalizing l' with
  | nil =>
    obtain rfl := List.length_eq_zero_iff.mp hlength
    exact .nil
  | @cons a c l o hac _ ih =>
    match l', hlength with
    | b :: l', hlength =>
      exact .cons (hpairs (a, b) (.head _) c hac)
        (ih (Nat.succ.inj hlength) fun x hx => hpairs x (.tail _ hx))

theorem exists_of_forall₂ {α β : Type} {S : α → β → Prop} {l : List α} {l' : List β}
    (h : List.Forall₂ S l l') {x : α} (hx : x ∈ l) : ∃ y ∈ l', S x y := by
  induction h with
  | nil => cases hx
  | @cons a b l l' hab _ ih =>
    rcases List.mem_cons.mp hx with rfl | hx
    · exact ⟨b, .head _, hab⟩
    · obtain ⟨y, hy, hxy⟩ := ih hx
      exact ⟨y, .tail _ hy, hxy⟩

variable {p : PointerWidth} {R : Type}

/-! ## What a decoder yields -/

namespace Decoder

/-- Whatever comes out of the decoder has the property. -/
def Yields (answers : Nat → FcntlAnswers) (r : HandleReceiver) (P : R → Prop) (d : Decoder R) :
    Prop :=
  ∀ n x, (d.run answers (some r) n).2 = .ok x → P x

variable {answers : Nat → FcntlAnswers} {r : HandleReceiver} {P : R → Prop}

theorem yields_fail (failure : Failure) : Yields answers r P (.fail failure) := by
  intro n x hx
  cases hx

theorem yields_done {x : R} (h : P x) : Yields answers r P (.done x) := by
  intro n x' hx
  obtain rfl := Except.ok.inj hx
  exact h

theorem yields_sendableFd {index : Nat} {next : Except String RawFd → Decoder R}
    (hok : ∀ fd, r.visible[index]? = some fd → Yields answers r P (next (.ok fd)))
    (herror : ∀ message, Yields answers r P (next (.error message))) :
    Yields answers r P (.sendableFd index next) := by
  intro n x hx
  have hx : ((next ((r.recv index (answers n)).mapError IoError.display)).run answers (some r)
    (n + 1)).2 = .ok x := hx
  cases hrecv : r.recv index (answers n) with
  | error e =>
    rw [hrecv] at hx
    exact herror _ _ _ hx
  | ok fd =>
    rw [hrecv] at hx
    exact hok fd (HandleReceiver.visible_of_recv hrecv) _ _ hx

end Decoder

/-! ## Reading plain data -/

/-- A `usize` is as small as a `u64`. -/
theorem toNat_lt_two_pow (size : Usize p) : size.toNat < 2 ^ 64 :=
  Nat.lt_of_lt_of_le size.isLt (Nat.pow_le_pow_right (by decide) (by cases p <;> decide))

variable [Bincode]

def readBytes (n : Nat) (bytes : List UInt8) : Except String (List UInt8 × List UInt8) :=
  takeBytes Bincode.short n bytes

/-- A `usize`, which travels as a `u64`. -/
def readSize (p : PointerWidth) (bytes : List UInt8) : Except String (Usize p × List UInt8) :=
  match readUsize bytes with
  | .error message => .error message
  | .ok (n, bytes) =>
    if n < 2 ^ p.bits then .ok (BitVec.ofNat _ n, bytes)
    else .error s!"invalid value: integer `{n}`, expected usize"

/-! ## The types of the crate -/

section Types

/-- A `SendableFd`, and what follows it. -/
def SendableFd.deserialize (bytes : List UInt8) (next : RawFd → List UInt8 → Decoder R) :
    Decoder R :=
  match readUsize bytes with
  | .error message => .fail (.error message)
  | .ok (index, bytes) => .sendableFd index fun
    | .error message => .fail (.error message)
    | .ok fd => next fd bytes

/-- The fields of a `SharedMem` after `rw_fd`, and the token that `shm::SharedMem` adds. -/
def SharedMem.deserializeRest (rwFd : Option RawFd) (bytes : List UInt8)
    (next : SharedMem p → Token → List UInt8 → Decoder R) : Decoder R :=
  SendableFd.deserialize bytes fun roFd bytes =>
    match readSize p bytes with
    | .error message => .fail (.error message)
    | .ok (size, bytes) =>
      match Bincode.uuid.read bytes with
      | .error message => .fail (.error message)
      | .ok (token, bytes) => next ⟨rwFd, roFd, size⟩ token bytes

def SharedMem.deserialize (bytes : List UInt8)
    (next : SharedMem p → Token → List UInt8 → Decoder R) : Decoder R :=
  match Bincode.tag.read bytes with
  | .error message => .fail (.error message)
  | .ok (false, bytes) => deserializeRest none bytes next
  | .ok (true, bytes) =>
    SendableFd.deserialize bytes fun rwFd bytes => deserializeRest (some rwFd) bytes next

end Types

/-! ## Messages of any type -/

/-- A part of a message. `D` is what stands for a descriptor. -/
inductive Field (p : PointerWidth) (D : Type)
  | plain (bytes : List UInt8)
  | memory (rw : Option D) (ro : D) (size : Usize p) (token : Token)
  | fd (d : D)

namespace Field

variable {D D' : Type}

/-- What a field hands to a serializer. -/
def pieces : Field p D → List (Piece D)
  | .plain bytes => [.bytes bytes]
  | .memory rw ro size token =>
    (match rw with
      | none => [.bytes (Bincode.tag.encode false)]
      | some d => [.bytes (Bincode.tag.encode true), .resource d])
    ++ [.resource ro, .bytes (usizeBytes size.toNat), .bytes (Bincode.uuid.encode token)]
  | .fd d => [.resource d]

/-- A field of shared memory is serialized as the crate does it. -/
theorem pieces_memory (m : SharedMem p) (token : Token) :
    (Field.memory m.rwFd m.roFd m.size token).pieces = m.serialization token := by
  unfold pieces SharedMem.serialization
  cases m.rwFd <;> rfl

/-- The descriptors in a message. -/
def descriptors (fields : List (Field p D)) : List D := resources (fields.flatMap pieces)

theorem descriptors_cons (f : Field p D) (fields : List (Field p D)) :
    descriptors (f :: fields) = resources f.pieces ++ descriptors fields := by
  cases f with
  | plain | fd => rfl
  | memory rw ro size token => cases rw <;> rfl

theorem resources_memory (rw : Option D) (ro : D) (size : Usize p) (token : Token) :
    resources (memory rw ro size token).pieces = rw.toList ++ [ro] := by
  cases rw <;> rfl

theorem mem_descriptors {fields : List (Field p D)} {d : D} :
    d ∈ descriptors fields ↔ ∃ f ∈ fields, d ∈ resources f.pieces := by
  induction fields with
  | nil => exact ⟨nofun, nofun⟩
  | cons f fields ih =>
    rw [descriptors_cons, List.mem_append, ih]
    exact (List.exists_mem_cons_iff (fun f => d ∈ resources f.pieces) f fields).symm

/-- Fields that differ in what stands for their descriptors only. -/
def Rel (S : D → D' → Prop) : Field p D → Field p D' → Prop
  | .plain bytes, .plain bytes' => bytes = bytes'
  | .memory rw ro size token, .memory rw' ro' size' token' =>
    Option.Rel S rw rw' ∧ S ro ro' ∧ size = size' ∧ token = token'
  | .fd d, .fd d' => S d d'
  | _, _ => False

/-- A message in bytes, if its descriptors are numbered from `i` on. -/
def wire (i : Nat) (fields : List (Field p D)) : List UInt8 :=
  render usizeBytes (fields.flatMap pieces) (List.range' i (descriptors fields).length)

end Field

/-- The `Deserialize` of a type, as a sequence of reads. What comes next may depend on plain data. -/
inductive Reader
  | done
  | fail (failure : Failure)
  | plain (n : Nat) (next : List UInt8 → Reader)
  | memory (next : Reader)
  | fd (next : Reader)

namespace Reader

/-- `fields` are those that have been read. -/
def decoder : Reader → List (Field p RawFd) → List UInt8 → Decoder (List (Field p RawFd))
  | .done, fields, _ => .done fields
  | .fail failure, _, _ => .fail failure
  | .plain n next, fields, bytes =>
    match readBytes n bytes with
    | .error message => .fail (.error message)
    | .ok (read, bytes) => (next read).decoder (fields ++ [.plain read]) bytes
  | .memory next, fields, bytes =>
    SharedMem.deserialize bytes fun m token bytes =>
      next.decoder (fields ++ [.memory m.rwFd m.roFd m.size token]) bytes
  | .fd next, fields, bytes =>
    SendableFd.deserialize bytes fun fd bytes => next.decoder (fields ++ [.fd fd]) bytes

/-- The fields are those of a value of the type. -/
def accepts {D : Type} : Reader → List (Field p D) → Bool
  | .done, [] => true
  | .plain n next, .plain bytes :: fields => bytes.length = n && (next bytes).accepts fields
  | .memory next, .memory .. :: fields => next.accepts fields
  | .fd next, .fd _ :: fields => next.accepts fields
  | _, _ => false

end Reader

/-! ## Reading what was written -/

section Written

variable (rest : List UInt8)

theorem readBytes_append (x : List UInt8) : readBytes x.length (x ++ rest) = .ok (x, rest) :=
  takeBytes_append _ x rest

theorem readSize_append (size : Usize p) :
    readSize p (usizeBytes size.toNat ++ rest) = .ok (size, rest) := by
  unfold readSize
  rw [readUsize_usizeBytes (toNat_lt_two_pow size)]
  dsimp only
  rw [if_pos size.isLt, BitVec.ofNat_toNat, BitVec.setWidth_eq]

end Written

/-! ## Bytes that are cut short -/

section Cut

variable (rest : List UInt8) (len : Nat)

theorem readBytes_cut (x : List UInt8) :
    (∃ message, readBytes x.length ((x ++ rest).take len) = .error message) ∨
      ∃ len', readBytes x.length ((x ++ rest).take len) = .ok (x, rest.take len') := by
  rcases take_append_cut x rest len with ⟨hcut, heq⟩ | heq
  · rw [heq]
    exact .inl ⟨_, if_pos (Nat.lt_of_le_of_lt (List.length_take_le _ _) hcut)⟩
  · right
    rw [heq, readBytes_append]
    exact ⟨_, rfl⟩

theorem readSize_cut (size : Usize p) :
    (∃ message, readSize p ((usizeBytes size.toNat ++ rest).take len) = .error message) ∨
      ∃ len', readSize p ((usizeBytes size.toNat ++ rest).take len) = .ok (size, rest.take len') := by
  unfold readSize
  rcases readUsize_cut rest len (toNat_lt_two_pow size) with ⟨message, heq⟩ | ⟨len', heq⟩
  · rw [heq]
    exact .inl ⟨message, rfl⟩
  · right
    rw [heq]
    dsimp only
    rw [if_pos size.isLt, BitVec.ofNat_toNat, BitVec.setWidth_eq]
    exact ⟨len', rfl⟩

end Cut

/-! ## What is read of a message that is cut short -/

namespace Decoder

variable {answers : Nat → FcntlAnswers} {r : HandleReceiver} {P : R → Prop}

variable (rest : List UInt8) (len : Nat)

theorem yields_deserialize {i : Nat} (hi : i < 2 ^ 64) {next : RawFd → List UInt8 → Decoder R}
    (h : ∀ fd len, r.visible[i]? = some fd → Yields answers r P (next fd (rest.take len))) :
    Yields answers r P (SendableFd.deserialize ((usizeBytes i ++ rest).take len) next) := by
  unfold SendableFd.deserialize
  rcases readUsize_cut rest len hi with ⟨message, heq⟩ | ⟨len', heq⟩
  · rw [heq]
    exact yields_fail _
  · rw [heq]
    exact yields_sendableFd (fun fd hfd => h fd len' hfd) fun message => yields_fail _

theorem yields_deserializeRest {i : Nat} (hi : i < 2 ^ 64) (rwFd : Option RawFd) (size : Usize p)
    (token : Token) {next : SharedMem p → Token → List UInt8 → Decoder R}
    (h : ∀ roFd len, r.visible[i]? = some roFd →
      Yields answers r P (next ⟨rwFd, roFd, size⟩ token (rest.take len))) :
    Yields answers r P (SharedMem.deserializeRest rwFd ((usizeBytes i ++
      (usizeBytes size.toNat ++ (Bincode.uuid.encode token ++ rest))).take len) next) := by
  refine yields_deserialize _ len hi fun roFd len hroFd => ?_
  rcases readSize_cut (Bincode.uuid.encode token ++ rest) len size with ⟨message, heq⟩ | ⟨len', heq⟩
  · rw [heq]
    exact yields_fail _
  · rw [heq]
    dsimp only
    rcases Bincode.uuid.read_cut token rest len' with ⟨message, heq⟩ | ⟨len'', heq⟩
    · rw [heq]
      exact yields_fail _
    · rw [heq]
      exact h roFd len'' hroFd

end Decoder

/-! ## The bytes of a field -/

namespace Field

variable {D : Type} (i : Nat) (fields : List (Field p D))

theorem wire_plain (bytes : List UInt8) : wire i (.plain bytes :: fields) = bytes ++ wire i fields :=
  rfl

theorem wire_readOnly (ro : D) (size : Usize p) (token : Token) :
    wire i (.memory none ro size token :: fields)
      = Bincode.tag.encode false ++ (usizeBytes i ++ (usizeBytes size.toNat ++ (Bincode.uuid.encode token
        ++ wire (i + 1) fields))) := rfl

theorem wire_readWrite (rw ro : D) (size : Usize p) (token : Token) :
    wire i (.memory (some rw) ro size token :: fields)
      = Bincode.tag.encode true ++ (usizeBytes i ++ (usizeBytes (i + 1) ++ (usizeBytes size.toNat
        ++ (Bincode.uuid.encode token ++ wire (i + 2) fields)))) := rfl

theorem wire_fd (d : D) : wire i (.fd d :: fields) = usizeBytes i ++ wire (i + 1) fields := rfl

end Field

/-! ## Fields with other descriptors in them -/

namespace Field

variable {D D' : Type} {S Q : D → D' → Prop} {f : Field p D} {f' : Field p D'}

theorem Rel.imp (h : f.Rel S f') (himp : ∀ d ∈ resources f.pieces, ∀ d', S d d' → Q d d') :
    f.Rel Q f' := by
  cases f with
  | plain bytes =>
    cases f' with
    | plain => exact h
    | memory | fd => exact h.elim
  | memory rw ro size token =>
    cases f' with
    | memory rw' ro' size' token' =>
      obtain ⟨hrw, hro, hrest⟩ := h
      cases hrw with
      | some hrw =>
        exact ⟨.some (himp _ (.head _) _ hrw), himp _ (.tail _ (.head _)) _ hro, hrest⟩
      | none => exact ⟨.none, himp _ (.head _) _ hro, hrest⟩
    | plain | fd => exact h.elim
  | fd d =>
    cases f' with
    | fd d' => exact himp _ (.head _) _ h
    | plain | memory => exact h.elim

/-- Such messages have their descriptors in the same places. -/
theorem descriptors_rel {fields : List (Field p D)} {fields' : List (Field p D')}
    (h : List.Forall₂ (Rel S) fields fields') :
    List.Forall₂ S (descriptors fields) (descriptors fields') ∧
      ∀ i, wire i fields = wire i fields' := by
  induction h with
  | nil => exact ⟨.nil, fun i => rfl⟩
  | @cons f f' fields fields' hrel _ ih =>
    obtain ⟨hdescriptors, hwire⟩ := ih
    cases f with
    | plain bytes =>
      cases f' with
      | plain bytes' =>
        obtain rfl : bytes = bytes' := hrel
        exact ⟨hdescriptors, fun i => by rw [wire_plain, wire_plain, hwire]⟩
      | memory | fd => exact hrel.elim
    | memory rw ro size token =>
      cases f' with
      | memory rw' ro' size' token' =>
        obtain ⟨hrw, hro, rfl, rfl⟩ := hrel
        cases hrw with
        | none =>
          exact ⟨.cons hro hdescriptors, fun i => by rw [wire_readOnly, wire_readOnly, hwire]⟩
        | some hrw =>
          exact ⟨.cons hrw (.cons hro hdescriptors),
            fun i => by rw [wire_readWrite, wire_readWrite, hwire]⟩
      | plain | fd => exact hrel.elim
    | fd d =>
      cases f' with
      | fd d' => exact ⟨.cons hrel hdescriptors, fun i => by rw [wire_fd, wire_fd, hwire]⟩
      | plain | memory => exact hrel.elim

end Field

/-! ## The round trip -/

/-- The descriptor stands in `visible` where what it stands for stands in `ds`. -/
def Seen {D : Type} (visible : List RawFd) (ds : List D) (fd : RawFd) (d : D) : Prop :=
  ∃ i : Nat, visible[i]? = some fd ∧ ds[i]? = some d

namespace Reader

variable {D : Type}

/-- What is read of `fields`, numbered from `i` on: `read` is what has been read before them. -/
def ReadBack (visible : List RawFd) (ds : List D) (i : Nat) (read : List (Field p RawFd))
    (fields : List (Field p D)) (x : List (Field p RawFd)) : Prop :=
  ∃ back, x = read ++ back ∧ List.Forall₂ (Field.Rel (Seen visible ds)) back fields ∧
    (Field.descriptors back).Sublist (visible.drop i)

variable {answers : Nat → FcntlAnswers} {r : HandleReceiver}

theorem ReadBack.cons {visible : List RawFd} {ds : List D} {i j : Nat} {read : List (Field p RawFd)}
    {field : Field p D} {fields : List (Field p D)} {field' : Field p RawFd} {x : List (Field p RawFd)}
    (h : ReadBack visible ds j (read ++ [field']) fields x)
    (hrel : field'.Rel (Seen visible ds) field)
    (hdrop : visible.drop i = resources field'.pieces ++ visible.drop j) :
    ReadBack visible ds i read (field :: fields) x := by
  obtain ⟨back, rfl, hback, hsub⟩ := h
  refine ⟨field' :: back, by rw [List.append_assoc]; rfl, .cons hrel hback, ?_⟩
  rw [Field.descriptors_cons, hdrop]
  exact hsub.append_left _

/-- What is read back of a message, cut short or not, are the fields that were written. Its
descriptors are where the message says, and others may follow them. -/
theorem yields_wire {reader : Reader} {fields : List (Field p D)}
    (haccepts : reader.accepts fields = true) {ds : List D} (hds : ds.length ≤ 2 ^ 64) {i : Nat}
    (hdrop : Field.descriptors fields <+: ds.drop i) (read : List (Field p RawFd)) (len : Nat) :
    (reader.decoder read ((Field.wire i fields).take len)).Yields answers r
      (ReadBack r.visible ds i read fields) := by
  have hsmall : ∀ {j : Nat} {d : D}, ds[j]? = some d → j < 2 ^ 64 := fun h =>
    Nat.lt_of_lt_of_le (List.getElem?_eq_some_iff.mp h).1 hds
  induction reader generalizing fields i read len with
  | done =>
    cases fields with
    | nil => exact Decoder.yields_done ⟨[], (List.append_nil _).symm, .nil, List.nil_sublist _⟩
    | cons field fields => cases haccepts
  | fail failure => exact Decoder.yields_fail failure
  | plain n next ih =>
    match fields, haccepts with
    | .plain bytes :: fields, haccepts =>
      obtain ⟨hn, hnext⟩ := (Bool.and_eq_true _ _).mp haccepts
      obtain rfl := of_decide_eq_true hn
      unfold decoder
      rw [Field.wire_plain]
      rcases readBytes_cut (Field.wire i fields) len bytes with ⟨message, heq⟩ | ⟨len', heq⟩
      · rw [heq]
        exact Decoder.yields_fail _
      · rw [heq]
        intro k x hx
        exact (ih bytes hnext hdrop _ len' k x hx).cons rfl rfl
  | memory next ih =>
    match fields, haccepts with
    | .memory none ro size token :: fields, haccepts =>
      obtain ⟨hro, hdrop⟩ := getElem?_of_drop hdrop
      unfold decoder SharedMem.deserialize
      rw [Field.wire_readOnly]
      rcases Bincode.tag.read_cut false _ len with ⟨message, heq⟩ | ⟨len', heq⟩
      · rw [heq]
        exact Decoder.yields_fail _
      · rw [heq]
        refine Decoder.yields_deserializeRest _ _ (hsmall hro) none size token fun roFd len hroFd => ?_
        intro k x hx
        exact (ih haccepts hdrop _ len k x hx).cons ⟨.none, ⟨i, hroFd, hro⟩, rfl, rfl⟩
          (drop_of_getElem? hroFd)
    | .memory (some rw) ro size token :: fields, haccepts =>
      obtain ⟨hrw, hdrop⟩ := getElem?_of_drop hdrop
      obtain ⟨hro, hdrop⟩ := getElem?_of_drop hdrop
      unfold decoder SharedMem.deserialize
      rw [Field.wire_readWrite]
      rcases Bincode.tag.read_cut true _ len with ⟨message, heq⟩ | ⟨len', heq⟩
      · rw [heq]
        exact Decoder.yields_fail _
      · rw [heq]
        refine Decoder.yields_deserialize _ _ (hsmall hrw) fun rwFd len hrwFd => ?_
        refine Decoder.yields_deserializeRest _ _ (hsmall hro) (some rwFd) size token
          fun roFd len hroFd => ?_
        intro k x hx
        refine (ih haccepts hdrop _ len k x hx).cons
          ⟨.some ⟨i, hrwFd, hrw⟩, ⟨i + 1, hroFd, hro⟩, rfl, rfl⟩ ?_
        rw [drop_of_getElem? hrwFd, drop_of_getElem? hroFd]
        rfl
  | fd next ih =>
    match fields, haccepts with
    | .fd d :: fields, haccepts =>
      obtain ⟨hd, hdrop⟩ := getElem?_of_drop hdrop
      unfold decoder
      rw [Field.wire_fd]
      refine Decoder.yields_deserialize _ len (hsmall hd) fun fd len hfd => ?_
      intro k x hx
      exact (ih haccepts hdrop _ len k x hx).cons ⟨i, hfd, hd⟩ (drop_of_getElem? hfd)

end Reader

end SandboxIpc.Unix
