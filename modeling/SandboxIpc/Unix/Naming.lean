import SandboxIpc.Unix.Reading

/-!
# What the bytes of a message name

The bytes may be anything. If they are read to the end, the descriptors that are handed out are those
in sight at the indices that stand in the bytes.

* `Decoder.Takes` — what a decoder is handed of the descriptors in sight, and makes of it
* `Reader.indices` — the bytes as fields, with the indices in the place of the descriptors
* `Reader.hands_indices` — what is read is these fields, with the descriptors in sight there
-/

namespace SandboxIpc.Unix

variable {p : PointerWidth} {R : Type}

/-! ## What a decoder hands out -/

/-- The descriptors that `recv` has returned. -/
def handed (calls : List RecvCall) : List RawFd := calls.filterMap fun c => c.result.toOption

namespace Decoder

/-- What the decoder is handed of `fds` are `P`, and a value that it makes is a `Q`. -/
def Takes (answers : Nat → FcntlAnswers) (fds : List RawFd) (P : RawFd → Prop) (Q : R → Prop) :
    Decoder R → Nat → Prop
  | .done value, _ => Q value
  | .fail _, _ => True
  | .sendableFd index next, n =>
    match fds[index]? with
    | none => (next (.error outOfRange.display)).Takes answers fds P Q (n + 1)
    | some fd =>
      match (answers n).accept fd with
      | .ok fd => P fd ∧ (next (.ok fd)).Takes answers fds P Q (n + 1)
      | .error e => (next (.error e.display)).Takes answers fds P Q (n + 1)

theorem takes_iff {answers : Nat → FcntlAnswers} {r : HandleReceiver} {P : RawFd → Prop}
    {Q : R → Prop} {d : Decoder R} {n : Nat} : d.Takes answers r.visible P Q n ↔
      (∀ c ∈ (d.run answers (some r) n).1, ∀ fd, c.result = .ok fd → P fd) ∧
        ∀ x, (d.run answers (some r) n).2 = .ok x → Q x := by
  induction d generalizing n with
  | done value =>
    refine ⟨fun h => ⟨List.forall_mem_nil _, fun x hx => Except.ok.inj hx ▸ h⟩, fun h => h.2 value rfl⟩
  | fail failure => exact iff_of_true trivial ⟨List.forall_mem_nil _, nofun⟩
  | sendableFd index next ih =>
    have hrun : ((Decoder.sendableFd index next).run answers (some r) n).2
        = ((next ((r.recv index (answers n)).mapError IoError.display)).run answers (some r)
          (n + 1)).2 := rfl
    rw [calls_sendableFd, hrun, List.forall_mem_cons, HandleReceiver.recv_eq, Takes]
    cases r.visible[index]? with
    | none =>
      refine (ih _).trans (and_congr_left' (and_iff_right ?_).symm)
      intro fd h
      cases h
    | some fd =>
      dsimp only
      cases (answers n).accept fd with
      | ok fd' =>
        have hfirst : (∀ fd, (.ok fd' : Except IoError RawFd) = .ok fd → P fd) ↔ P fd' :=
          ⟨fun h => h fd' rfl, fun h fd hfd => Except.ok.inj hfd ▸ h⟩
        rw [hfirst, and_assoc]
        exact and_congr_right' (ih _)
      | error e =>
        refine (ih _).trans (and_congr_left' (and_iff_right ?_).symm)
        intro fd h
        cases h

/-- The property holds of what comes out of the decoder, and of what it has been handed for it. -/
def Hands (answers : Nat → FcntlAnswers) (r : HandleReceiver) (P : List RawFd → R → Prop)
    (d : Decoder R) : Prop :=
  ∀ n x, (d.run answers (some r) n).2 = .ok x → P (handed (d.run answers (some r) n).1) x

variable {answers : Nat → FcntlAnswers} {r : HandleReceiver} {P : List RawFd → R → Prop}

theorem hands_fail (failure : Failure) : Hands answers r P (.fail failure) := by
  intro n x hx
  cases hx

theorem hands_done {x : R} (h : P [] x) : Hands answers r P (.done x) := by
  intro n x' hx
  obtain rfl := Except.ok.inj hx
  exact h

theorem hands_sendableFd {index : Nat} {next : Except String RawFd → Decoder R}
    (hok : ∀ fd, r.visible[index]? = some fd →
      Hands answers r (fun fds => P (fd :: fds)) (next (.ok fd)))
    (herror : ∀ message, Hands answers r P (next (.error message))) :
    Hands answers r P (.sendableFd index next) := by
  intro n x hx
  have hx : ((next ((r.recv index (answers n)).mapError IoError.display)).run answers (some r)
    (n + 1)).2 = .ok x := hx
  rw [calls_sendableFd]
  cases hrecv : r.recv index (answers n) with
  | error e =>
    rw [hrecv] at hx
    exact herror _ _ _ hx
  | ok fd =>
    rw [hrecv] at hx
    exact hok fd (HandleReceiver.visible_of_recv hrecv) _ _ hx

end Decoder

variable [Bincode]

/-! ## Fields with indices -/

namespace SharedMem

def indicesRest (rw : Option Nat) (bytes : List UInt8) : Option (Field p Nat × List UInt8) :=
  match readUsize bytes with
  | .error _ => none
  | .ok (ro, bytes) =>
    match readSize p bytes with
    | .error _ => none
    | .ok (size, bytes) =>
      match Bincode.uuid.read bytes with
      | .error _ => none
      | .ok (token, bytes) => some (.memory rw ro size token, bytes)

def indices (bytes : List UInt8) : Option (Field p Nat × List UInt8) :=
  match Bincode.tag.read bytes with
  | .error _ => none
  | .ok (false, bytes) => indicesRest none bytes
  | .ok (true, bytes) =>
    match readUsize bytes with
    | .error _ => none
    | .ok (rw, bytes) => indicesRest (some rw) bytes

end SharedMem

/-- The fields that the bytes stand for, if they are a value of the type. -/
def Reader.indices : Reader → List UInt8 → Option (List (Field p Nat))
  | .done, _ => some []
  | .fail _, _ => none
  | .plain n next, bytes =>
    match readBytes n bytes with
    | .error _ => none
    | .ok (read, bytes) => ((next read).indices bytes).map (.plain read :: ·)
  | .memory next, bytes =>
    match SharedMem.indices bytes with
    | none => none
    | some (field, bytes) => (next.indices bytes).map (field :: ·)
  | .fd next, bytes =>
    match readUsize bytes with
    | .error _ => none
    | .ok (index, bytes) => (next.indices bytes).map (.fd index :: ·)

/-! ## What is handed out -/

namespace Decoder

variable {answers : Nat → FcntlAnswers} {r : HandleReceiver} {P : List RawFd → R → Prop}
  {bytes : List UInt8}

theorem hands_deserialize {next : RawFd → List UInt8 → Decoder R}
    (h : ∀ i rest fd, readUsize bytes = .ok (i, rest) → r.visible[i]? = some fd →
      Hands answers r (fun fds => P (fd :: fds)) (next fd rest)) :
    Hands answers r P (SendableFd.deserialize bytes next) := by
  unfold SendableFd.deserialize
  rcases hread : readUsize bytes with message | ⟨i, rest⟩
  · exact hands_fail _
  · exact hands_sendableFd (fun fd hfd => h i rest fd hread hfd) fun message => hands_fail _

theorem hands_deserializeRest (rwFd : Option RawFd) (rw : Option Nat)
    {next : SharedMem p → Token → List UInt8 → Decoder R}
    (h : ∀ i size token rest fd,
      SharedMem.indicesRest rw bytes = some (.memory rw i size token, rest) →
      r.visible[i]? = some fd →
      Hands answers r (fun fds => P (fd :: fds)) (next ⟨rwFd, fd, size⟩ token rest)) :
    Hands answers r P (SharedMem.deserializeRest rwFd bytes next) := by
  refine hands_deserialize fun i rest fd hindex hfd => ?_
  rcases hsize : readSize p rest with message | ⟨size, rest'⟩
  · exact hands_fail _
  · dsimp only
    rcases htoken : Bincode.uuid.read rest' with message | ⟨token, rest''⟩
    · exact hands_fail _
    · refine h i size token rest'' fd ?_ hfd
      unfold SharedMem.indicesRest
      rw [hindex]
      dsimp only
      rw [hsize]
      dsimp only
      rw [htoken]

end Decoder

/-! ## What is read -/

namespace Reader

/-- What is read of the bytes, after `read`: `fds` are the descriptors in it. -/
def Named (visible : List RawFd) (reader : Reader) (bytes : List UInt8) (read : List (Field p RawFd))
    (fds : List RawFd) (x : List (Field p RawFd)) : Prop :=
  ∃ back fields, reader.indices bytes = some fields ∧ x = read ++ back ∧
    Field.descriptors back = fds ∧
    List.Forall₂ (Field.Rel fun fd i => visible[i]? = some fd) back fields

variable {visible : List RawFd} {answers : Nat → FcntlAnswers} {r : HandleReceiver}

theorem Named.cons {reader next : Reader} {bytes rest : List UInt8} {read x : List (Field p RawFd)}
    {fds : List RawFd} (field' : Field p RawFd) (field : Field p Nat)
    (h : Named visible next rest (read ++ [field']) fds x)
    (hindices : ∀ fields, next.indices rest = some fields →
      reader.indices bytes = some (field :: fields))
    (hrel : field'.Rel (fun fd i => visible[i]? = some fd) field) :
    Named visible reader bytes read (resources field'.pieces ++ fds) x := by
  obtain ⟨back, fields, hnext, rfl, rfl, hback⟩ := h
  exact ⟨field' :: back, field :: fields, hindices fields hnext, by rw [List.append_assoc]; rfl,
    Field.descriptors_cons _ _, .cons hrel hback⟩

/-- What is read is what the bytes name. -/
theorem hands_indices (reader : Reader) (read : List (Field p RawFd)) (bytes : List UInt8) :
    (reader.decoder read bytes).Hands answers r (Named r.visible reader bytes read) := by
  induction reader generalizing read bytes with
  | done => exact Decoder.hands_done ⟨[], [], rfl, (List.append_nil _).symm, rfl, .nil⟩
  | fail failure => exact Decoder.hands_fail failure
  | plain n next ih =>
    unfold decoder
    rcases hread : readBytes n bytes with message | ⟨plain, rest⟩
    · exact Decoder.hands_fail _
    · intro k x hx
      refine (ih plain _ rest k x hx).cons (.plain plain) (.plain plain) (fun fields hfields => ?_) rfl
      unfold indices
      rw [hread]
      dsimp only
      rw [hfields]
      rfl
  | memory next ih =>
    unfold decoder SharedMem.deserialize
    rcases htag : Bincode.tag.read bytes with message | ⟨_ | _, rest⟩
    · exact Decoder.hands_fail _
    · refine Decoder.hands_deserializeRest none none fun ro size token rest' roFd hrest hroFd => ?_
      intro k x hx
      refine (ih _ rest' k x hx).cons (.memory none roFd size token) (.memory none ro size token)
        (fun fields hfields => ?_) ⟨.none, hroFd, rfl, rfl⟩
      unfold indices SharedMem.indices
      rw [htag]
      dsimp only
      rw [hrest]
      dsimp only
      rw [hfields]
      rfl
    · refine Decoder.hands_deserialize fun rw rest' rwFd hrw hrwFd => ?_
      refine Decoder.hands_deserializeRest (some rwFd) (some rw)
        fun ro size token rest'' roFd hrest hroFd => ?_
      intro k x hx
      refine (ih _ rest'' k x hx).cons (.memory (some rwFd) roFd size token)
        (.memory (some rw) ro size token) (fun fields hfields => ?_) ⟨.some hrwFd, hroFd, rfl, rfl⟩
      unfold indices SharedMem.indices
      rw [htag]
      dsimp only
      rw [hrw]
      dsimp only
      rw [hrest]
      dsimp only
      rw [hfields]
      rfl
  | fd next ih =>
    unfold decoder
    refine Decoder.hands_deserialize fun i rest fd hindex hfd => ?_
    intro k x hx
    refine (ih _ rest k x hx).cons (.fd fd) (.fd i) (fun fields hfields => ?_) hfd
    unfold indices
    rw [hindex]
    dsimp only
    rw [hfields]
    rfl

end Reader

end SandboxIpc.Unix
