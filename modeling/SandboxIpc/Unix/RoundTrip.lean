import SandboxIpc.Ser.Passes
import SandboxIpc.Unix.Copies

/-!
# The round trip of a message

* `Payload.fields` — an item as its `Serialize` goes through it
* `Reader.run_wire` — what is read of a message, if all its descriptors are in sight
* `Sender` — a process that sends messages, and what its descriptors refer to
* `resources_resolve` — every resource is received as the object that was sent in its place
-/

namespace SandboxIpc.Unix

open Infra

variable {libc : Libc} {p : PointerWidth} {R : Type}

/-! ## Items as fields -/

section Items

variable [Bincode]

/-- The parts of an item in the order in which they are serialized. -/
def Payload.fields : Payload p → List (Field p RawFd)
  | .plain bytes => [.plain bytes]
  | .sendableFd fd => [.fd fd]
  | .scopedFd fd => [.fd fd]
  | .sendableFile fd => [.fd fd]
  | .sendableSocket fd => [.fd fd]
  | .sharedMem m token => [.memory m.rwFd m.roFd m.size token]
  | .preMessageChannel pre maxMessageSize =>
    [.fd pre.fd, .plain (usizeBytes maxMessageSize.toNat)]
  | .preRawMessageChannel pre => [.fd pre.fd]
  | .mutexHandle rawOffset token =>
    [.plain (usizeBytes rawOffset.toNat), .plain (Bincode.uuid.encode token)]
  | .processHandle => []
  | .both first second => first.fields ++ second.fields

/-- They are serialized as the crate does it. -/
theorem Payload.pieces_fields (item : Payload p) :
    item.fields.flatMap Field.pieces = item.serialization := by
  induction item with
  | plain | sendableFd | scopedFd | sendableFile | sendableSocket | preMessageChannel
  | preRawMessageChannel | mutexHandle | processHandle => rfl
  | sharedMem m token => exact (List.flatMap_singleton _ _).trans (Field.pieces_memory m token)
  | both first second ihf ihs =>
    unfold Payload.fields
    rw [List.flatMap_append, ihf, ihs]
    rfl

theorem Payload.descriptors_fields (item : Payload p) :
    Field.descriptors item.fields = item.descriptors := congrArg resources item.pieces_fields

/-- The `serialize` of an item by an encoder that goes through it `passes` times before it writes. -/
def Payload.encodeAfter (passes limit : Nat) (item : Payload p) : Encoder :=
  encoder (.passes usizeBytes limit item.serialization passes)

end Items

/-! ## Reading a whole message -/

namespace Decoder

variable {answers : Nat → FcntlAnswers} {r : HandleReceiver}

/-- The outcome of a decoder that asks for a descriptor. -/
theorem outcome_sendableFd (index : Nat) (next : Except String RawFd → Decoder R) (n : Nat) :
    ((Decoder.sendableFd index next).run answers (some r) n).2
      = ((next ((r.recv index (answers n)).mapError IoError.display)).run answers (some r)
          (n + 1)).2 := rfl

variable [Bincode]

/-- An index in sight, and the system accepts the descriptor there. -/
theorem run_deserialize {i : Nat} (hi : i < 2 ^ 64) {fd : RawFd} (hfd : r.visible[i]? = some fd)
    {n : Nat} (haccept : (answers n).accept fd = .ok fd) (rest : List UInt8)
    (next : RawFd → List UInt8 → Decoder R) :
    ((SendableFd.deserialize (usizeBytes i ++ rest) next).run answers (some r) n).2
      = ((next fd rest).run answers (some r) (n + 1)).2 := by
  have hrecv : r.recv i (answers n) = .ok fd := by
    rw [HandleReceiver.recv_eq, hfd]
    exact haccept
  unfold SendableFd.deserialize
  rw [readUsize_usizeBytes hi]
  dsimp only
  rw [outcome_sendableFd, hrecv]
  rfl

theorem run_deserializeRest {i : Nat} (hi : i < 2 ^ 64) {fd : RawFd} (hfd : r.visible[i]? = some fd)
    {n : Nat} (haccept : (answers n).accept fd = .ok fd) (rwFd : Option RawFd) (size : Usize p)
    (token : Token) (rest : List UInt8) (next : SharedMem p → Token → List UInt8 → Decoder R) :
    ((SharedMem.deserializeRest rwFd (usizeBytes i ++ (usizeBytes size.toNat
        ++ (Bincode.uuid.encode token ++ rest))) next).run answers (some r) n).2
      = ((next ⟨rwFd, fd, size⟩ token rest).run answers (some r) (n + 1)).2 := by
  unfold SharedMem.deserializeRest
  rw [run_deserialize hi hfd haccept, readSize_append]
  dsimp only
  rw [Bincode.uuid.read_encode]

end Decoder

namespace Reader

variable [Bincode] {D : Type} {S : RawFd → D → Prop} {answers : Nat → FcntlAnswers} {r : HandleReceiver}

/-- What is read of a message that is complete, with its descriptors numbered from `i` on. -/
theorem run_wire {reader : Reader} {fields : List (Field p D)}
    (haccepts : reader.accepts fields = true) {fds : List RawFd} {i : Nat}
    (hdrop : fds <+: r.visible.drop i) (hrel : List.Forall₂ S fds (Field.descriptors fields))
    (hsystem : ∀ n, ∀ fd ∈ fds, (answers n).accept fd = .ok fd) (read : List (Field p RawFd))
    (n : Nat) :
    ∃ back, ((reader.decoder read (Field.wire i fields)).run answers (some r) n).2
        = .ok (read ++ back) ∧ List.Forall₂ (Field.Rel S) back fields := by
  have hsmall : ∀ {j : Nat} {fd : RawFd}, r.visible[j]? = some fd → j < 2 ^ 64 := by
    intro j fd h
    have hlt := (List.getElem?_eq_some_iff.mp h).1
    have hle : r.visible.length ≤ maxMsgFds := by
      unfold HandleReceiver.visible
      rw [List.length_take]
      exact Nat.le_trans (Nat.min_le_left _ _) r.fdsCount_le
    exact Nat.lt_trans (Nat.lt_of_lt_of_le hlt hle) (by decide)
  induction reader generalizing fields fds i read n with
  | done =>
    cases fields with
    | nil => exact ⟨[], by rw [List.append_nil]; rfl, .nil⟩
    | cons field fields => cases haccepts
  | fail failure => cases fields <;> cases haccepts
  | plain len next ih =>
    cases fields with
    | nil => cases haccepts
    | cons field fields =>
      cases field with
      | memory | fd => cases haccepts
      | plain bytes =>
        obtain ⟨hlen, hnext⟩ := (Bool.and_eq_true _ _).mp haccepts
        obtain rfl := of_decide_eq_true hlen
        obtain ⟨back, hrun, hback⟩ := ih bytes hnext hdrop hrel hsystem (read ++ [.plain bytes]) n
        refine ⟨.plain bytes :: back, ?_, .cons rfl hback⟩
        unfold decoder
        rw [Field.wire_plain, readBytes_append]
        dsimp only
        rw [hrun, List.append_assoc]
        rfl
  | fd next ih =>
    cases fields with
    | nil => cases haccepts
    | cons field fields =>
      cases field with
      | plain | memory => cases haccepts
      | fd d =>
        obtain ⟨fd, fds, hd, hrest, rfl⟩ := List.forall₂_cons_right_iff.mp hrel
        obtain ⟨hfd, hdrop⟩ := getElem?_of_drop hdrop
        have hfirst := hsystem n fd (.head _)
        obtain ⟨back, hrun, hback⟩ := ih haccepts hdrop hrest
          (fun n fd hfd => hsystem n fd (.tail _ hfd)) (read ++ [.fd fd]) (n + 1)
        refine ⟨.fd fd :: back, ?_, .cons hd hback⟩
        unfold decoder
        rw [Field.wire_fd, Decoder.run_deserialize (hsmall hfd) hfd hfirst, hrun, List.append_assoc]
        rfl
  | memory next ih =>
    cases fields with
    | nil => cases haccepts
    | cons field fields =>
      cases field with
      | plain | fd => cases haccepts
      | memory rw ro size token =>
        cases rw with
        | none =>
          obtain ⟨roFd, fds, hro, hrest, rfl⟩ := List.forall₂_cons_right_iff.mp hrel
          obtain ⟨hroFd, hdrop⟩ := getElem?_of_drop hdrop
          have hfirst := hsystem n roFd (.head _)
          obtain ⟨back, hrun, hback⟩ := ih haccepts hdrop hrest
            (fun n fd hfd => hsystem n fd (.tail _ hfd)) (read ++ [.memory none roFd size token])
            (n + 1)
          refine ⟨.memory none roFd size token :: back, ?_, .cons ⟨.none, hro, rfl, rfl⟩ hback⟩
          unfold decoder SharedMem.deserialize
          rw [Field.wire_readOnly, Bincode.tag.read_encode]
          dsimp only
          rw [Decoder.run_deserializeRest (hsmall hroFd) hroFd hfirst, hrun, List.append_assoc]
          rfl
        | some rw =>
          obtain ⟨rwFd, fds', hrw, hrest, rfl⟩ := List.forall₂_cons_right_iff.mp hrel
          obtain ⟨roFd, fds, hro, hlast, rfl⟩ := List.forall₂_cons_right_iff.mp hrest
          obtain ⟨hrwFd, hdrop⟩ := getElem?_of_drop hdrop
          obtain ⟨hroFd, hdrop⟩ := getElem?_of_drop hdrop
          have hfirst := hsystem n rwFd (.head _)
          have hsecond := hsystem (n + 1) roFd (.tail _ (.head _))
          obtain ⟨back, hrun, hback⟩ := ih haccepts hdrop hlast
            (fun n fd hfd => hsystem n fd (.tail _ (.tail _ hfd)))
            (read ++ [.memory (some rwFd) roFd size token]) (n + 1 + 1)
          refine ⟨.memory (some rwFd) roFd size token :: back, ?_,
            .cons ⟨.some hrw, hro, rfl, rfl⟩ hback⟩
          unfold decoder SharedMem.deserialize
          rw [Field.wire_readWrite, Bincode.tag.read_encode]
          dsimp only
          rw [Decoder.run_deserialize (hsmall hrwFd) hrwFd hfirst,
            Decoder.run_deserializeRest (hsmall hroFd) hroFd hsecond, hrun, List.append_assoc]
          rfl

end Reader

/-! ## A process that sends -/

variable {O : Type}

/-- An open descriptor. -/
structure Opened (O : Type) where
  object : O
  /-- Not in the source: `HandleSender::send` has duplicated it. Nobody else knows of it. -/
  forMessage : Bool
  deriving DecidableEq

structure Sender (libc : Libc) (O : Type) where
  state : State libc
  table : Registry RawFd (Opened O)

/-- Two descriptors refer to the same open object. -/
def SameObject (objects objects' : RawFd → Option O) (fd fd' : RawFd) : Prop :=
  ∃ o, objects fd = some o ∧ objects' fd' = some o

namespace Sender

/-- What its descriptors refer to. -/
def objects (s : Sender libc O) (fd : RawFd) : Option O := (s.table fd).map Opened.object

inductive Act (T O : Type)
  /-- A call of the channel. -/
  | call (a : Unix.Act T)
  /-- The process gets a descriptor, from wherever. -/
  | obtain (fd : RawFd) (object : O)
  /-- The process closes a descriptor of its own. -/
  | close (fd : RawFd)

section Steps

variable [DecidableEq O] {T : Type} (encode : T → Encoder) (decode : List UInt8 → Decoder R)

def step (s : Sender libc O) : Act T O → Option (Sender libc O)
  | .call a =>
    let copies := s.state.copies encode a
    if s.table.CanCopy copies then
      some ⟨next encode decode s.state a,
        s.table.put (s.table.copied (fun opened => ⟨opened.object, true⟩) copies)⟩
    else none
  | .obtain fd object =>
    if s.table.Free [fd] then some { s with table := s.table.put [(fd, ⟨object, false⟩)] } else none
  | .close fd =>
    match s.table fd with
    | some ⟨_, false⟩ => some { s with table := s.table.close [fd] }
    | _ => none

/-- Any process with a channel, whatever it has done before. -/
def system : System (Sender libc O) (Act T O) where
  init _ := True
  step := step encode decode

end Steps

/-- The channel is not read, and accepts no other item. -/
def Quiet {T : Type} (encode : T → Encoder) : Sender libc O × Act T O → Prop
  | (s, .call a) => a.recvmsg = none ∧ accepted encode s.state a = none
  | _ => True

/-- A message that waits to be sent, with duplicates of the descriptors `sources`. -/
structure Carries (objects : RawFd → Option O) (m : Message) (sources : List RawFd)
    (s : Sender libc O) : Prop where
  pending : ∀ n, s.state.channel.bufferedSend = some n →
    s.state.channel.txBuffer.take n = m.bytes ∧ s.state.channel.io.cmsg.rights = m.fds
  duplicates : List.Forall₂
    (fun new fd => ∃ o, s.table new = some ⟨o, true⟩ ∧ objects fd = some o) m.fds sources

variable {T : Type} {encode : T → Encoder} {decode : List UInt8 → Decoder R}
  {objects : RawFd → Option O} {m : Message} {sources : List RawFd} {s : Sender libc O}

/-- A call that neither reads nor accepts leaves the message and its descriptors where they are. -/
theorem pending_next (decode : List UInt8 → Decoder R) {s : State libc} {a : Unix.Act T}
    (hread : a.recvmsg = none) (hacc : accepted encode s a = none) {n : Nat}
    (hn : (next encode decode s a).channel.bufferedSend = some n) :
    s.channel.bufferedSend = some n ∧
      (next encode decode s a).channel.txBuffer = s.channel.txBuffer ∧
      (next encode decode s a).channel.io.cmsg = s.channel.io.cmsg := by
  have hmove := move_next encode decode s a
  rw [hacc] at hmove
  generalize next encode decode s a = s' at hmove hn
  cases hmove with
  | flush _ hf =>
    cases hf with
    | kept => exact ⟨hn, rfl, rfl⟩
    | taken hb hrest =>
      rcases hrest with rfl | rfl
      · exact ⟨hb.trans hn, rfl, rfl⟩
      · cases hn
  | reject _ _ hnone => exact absurd (hnone.symm.trans hn) nofun
  | @poll r =>
    have hnone : r.outcome = none := hread
    rw [hnone]
    exact ⟨hn, rfl, rfl⟩

variable [DecidableEq O]

theorem Carries.step (h : Carries objects m sources s) {a : Act T O} (hquiet : Quiet encode (s, a))
    {s' : Sender libc O} (hs : s.step encode decode a = some s') : Carries objects m sources s' := by
  have hmono : ∀ {t : Registry RawFd (Opened O)},
      (∀ fd o, s.table fd = some ⟨o, true⟩ → t fd = some ⟨o, true⟩) →
      List.Forall₂ (fun new fd => ∃ o, t new = some ⟨o, true⟩ ∧ objects fd = some o) m.fds sources :=
    fun ht => h.duplicates.imp fun _ _ ⟨o, hnew, hfd⟩ => ⟨o, ht _ o hnew, hfd⟩
  cases a with
  | call a =>
    obtain ⟨hcan, hs⟩ := Option.ite_none_right_eq_some.mp hs
    obtain rfl := Option.some.inj hs
    refine ⟨fun n hn => ?_, hmono fun fd o => Registry.put_copied_of_eq_some hcan⟩
    obtain ⟨hb, htx, hcmsg⟩ := pending_next decode hquiet.1 hquiet.2 hn
    dsimp only
    rw [htx, hcmsg]
    exact h.pending n hb
  | obtain fd object =>
    obtain ⟨hfree, hs⟩ := Option.ite_none_right_eq_some.mp hs
    obtain rfl := Option.some.inj hs
    exact ⟨h.pending, hmono fun fd o => Registry.put_of_eq_some hfree⟩
  | close fd =>
    unfold Sender.step at hs
    dsimp only at hs
    split at hs
    · next o hfd =>
      obtain rfl := Option.some.inj hs
      refine ⟨h.pending, hmono fun fd' o' hfd' => ?_⟩
      -- what is duplicated for a message is not the user's to close
      have hne : fd' ∉ [fd] := by
        intro hmem
        rw [List.mem_singleton.mp hmem, hfd] at hfd'
        cases hfd'
      exact (Registry.close_of_notMem hne).trans hfd'
    · cases hs

/-- A message that waits keeps its duplicates through any calls that do not read or accept. -/
theorem Carries.run {s' : Sender libc O} (h : Carries objects m sources s)
    {mid : List (Sender libc O × Act T O)}
    (hr : Run ((system encode decode).startingAt s) mid s') (hquiet : ∀ e ∈ mid, Quiet encode e) :
    Carries objects m sources s' := by
  refine hr.invariant_of (Quiet encode) (Carries objects m sources) ?_ ?_ hquiet
  · rintro s rfl
    exact h
  · intro s a s' h hquiet hs
    exact h.step hquiet hs

section Items

variable [Bincode]

/-- A message that is accepted carries duplicates of the descriptors of the item, those of the last
pass after those of the others. -/
theorem carries_of_accepted {passes : Payload p → Nat} {limit : Nat} {item : Payload p}
    {w : WriteAnswers} {dups : Nat → DupAnswers} {s' : Sender libc O}
    (hacc : accepted (fun item => item.encodeAfter (passes item) limit) s.state
      (.startSend item w dups) = some m)
    (hs : s.step (fun item => item.encodeAfter (passes item) limit) decode
      (.call (.startSend item w dups)) = some s') :
    m.bytes = render usizeBytes item.serialization
        (List.range' (passes item * item.descriptors.length) item.descriptors.length) ∧
      Carries s.objects m (repeated (passes item + 1) item.descriptors) s' := by
  obtain ⟨hcan, hs⟩ := Option.ite_none_right_eq_some.mp hs
  obtain rfl := Option.some.inj hs
  have hmove := move_next (fun item => Payload.encodeAfter (passes item) limit item) decode s.state
    (.startSend item w dups)
  obtain ⟨item', w', dups', writing, sender, heq, hready, hrun, hsender, rfl⟩ := run_of_accepted hacc
  obtain ⟨rfl, rfl, rfl⟩ := Act.startSend.inj heq
  obtain ⟨hwritten, sender', hsender', hlength, hcopies⟩ := Encoder.copies_of_passes hrun
  obtain rfl := Option.some.inj (hsender.symm.trans hsender')
  refine ⟨hwritten, fun n hn => ?_, ?_⟩
  · rw [hacc] at hmove
    dsimp only at hn ⊢
    generalize next _ decode s.state _ = s' at hmove hn ⊢
    cases hmove with
    | accept _ _ hset htx =>
      obtain rfl := Option.some.inj hn
      exact ⟨htx, (Cmsg.rights_setFds hset).1⟩
  · have heq : s.state.copies (fun item => item.encodeAfter (passes item) limit)
        (.startSend item w dups)
          = (repeated (passes item + 1) item.descriptors).zip sender.recorded := by
      unfold State.copies
      dsimp only
      rw [hready]
      exact hcopies
    have hsame : List.Forall₂ Eq (repeated (passes item + 1) item.descriptors)
        (repeated (passes item + 1) item.descriptors) := List.forall₂_refl _
    refine forall₂_of_zip hsame hlength fun x hx fd hfd => ?_
    rw [← heq] at hx
    obtain ⟨opened, hopened⟩ := Option.isSome_iff_exists.mp (hcan.1 x hx)
    refine ⟨opened.object, Registry.put_copied_of_mem hcan hx hopened, ?_⟩
    unfold objects
    rw [← hfd, hopened]
    rfl

/--
Every resource of a message that is accepted, and sent before the channel is read again, is received
as the open object that was sent in its place, however often the encoder goes through the message.
-/
theorem resources_resolve {passes : Payload p → Nat} {limit : Nat} {item : Payload p}
    {w : WriteAnswers} {dups : Nat → DupAnswers} {s₀ s₁ s₂ : Sender libc O}
    (hacc : accepted (fun item => item.encodeAfter (passes item) limit) s₀.state
      (.startSend item w dups) = some m)
    (hs : s₀.step (fun item => item.encodeAfter (passes item) limit) decode
      (.call (.startSend item w dups)) = some s₁)
    {mid : List (Sender libc O × Act (Payload p) O)}
    (hr : Run ((system (fun item => item.encodeAfter (passes item) limit) decode).startingAt s₁)
      mid s₂)
    (hquiet : ∀ e ∈ mid, Quiet (fun item => item.encodeAfter (passes item) limit) e)
    {a : Unix.Act (Payload p)} {taken : Message}
    (htakes : Takes (fun item => item.encodeAfter (passes item) limit) decode (s₂.state, a) taken)
    {received : RawFd → Option O} {d : Datagram} (hbytes : d.bytes = taken.bytes)
    (hfds : List.Forall₂ (SameObject received s₂.objects) d.fds taken.fds)
    {reader : Reader} (haccepts : reader.accepts item.fields = true)
    {receiver : State libc} {r : ReadAnswers} (hd : r.outcome = some (.ok d))
    (hwhole : d.bytes.length ≤ receiver.channel.rxBuffer.length)
    {answers : Nat → FcntlAnswers} (hsystem : ∀ n, ∀ fd ∈ d.fds, (answers n).accept fd = .ok fd) :
    ∃ fields, ((reader.decoder [] d.bytes).run answers
        (some (.ofCmsg (receiver.channel.io.cmsg.recvmsg (.ok d)))) 0).2 = .ok fields ∧
      List.Forall₂ (Field.Rel (SameObject received s₀.objects)) fields item.fields ∧
      (d.bytes ≠ [] → receiver.received (reader.decoder []) r answers = some fields) := by
  obtain ⟨hwire, haccepted⟩ := carries_of_accepted hacc hs
  have hcarries : Carries s₀.objects m (repeated (passes item + 1) item.descriptors) s₂ :=
    haccepted.run hr hquiet
  obtain ⟨n, hn, rfl⟩ := pending_of_takes htakes
  obtain ⟨hpending, hrights⟩ := hcarries.pending n hn
  -- the indices in the bytes are those of the last pass
  have hbytes : d.bytes = Field.wire (passes item * item.descriptors.length) item.fields := by
    rw [hbytes, hpending, hwire, Field.wire, item.pieces_fields, item.descriptors_fields]
  have hall : List.Forall₂ (SameObject received s₀.objects) d.fds
      (repeated (passes item + 1) item.descriptors) := by
    dsimp only at hfds
    rw [hrights] at hfds
    refine forall₂_of_zip hcarries.duplicates hfds.length_eq ?_
    rintro ⟨new, fd'⟩ hx fd ⟨o, hnew, hfd⟩
    obtain ⟨o', hfd', hnew'⟩ := List.forall₂_zip hfds.flip hx
    obtain rfl : o = o' := Option.some.inj ((congrArg (Option.map Opened.object) hnew).symm.trans hnew')
    exact ⟨o, hfd', hfd⟩
  have hlast : List.Forall₂ (SameObject received s₀.objects)
      (d.fds.drop (passes item * item.descriptors.length)) (Field.descriptors item.fields) := by
    have hdrop := List.forall₂_drop (passes item * item.descriptors.length) hall
    rw [drop_repeated] at hdrop
    rwa [item.descriptors_fields]
  have hvisible := visible_of_datagram receiver.channel.io.cmsg d
  have htail : d.fds.drop (passes item * item.descriptors.length)
      <+: (HandleReceiver.ofCmsg (receiver.channel.io.cmsg.recvmsg (.ok d))).visible.drop
        (passes item * item.descriptors.length) := by
    rw [hvisible]
    split
    · -- leftovers are in sight, but there is nothing to be found among them
      next hnone =>
        rw [hnone, List.drop_nil]
        exact List.nil_prefix
    · exact List.prefix_refl _
  obtain ⟨fields, hrun, hrel⟩ := Reader.run_wire haccepts htail hlast
    (fun n fd hfd => hsystem n fd (List.drop_subset _ _ hfd)) [] 0
  rw [← hbytes] at hrun
  refine ⟨fields, hrun, hrel, fun hne => ?_⟩
  exact State.received_of_run hd hwhole hne hrun

end Items

end Sender

/-! ## Shared memory that is sent after two passes -/

open LittleEndian

/-- A handle that can be written to, and a byte. -/
def memoryItem : Payload .w64 :=
  .both (.sharedMem ⟨some 3, 4, 4096⟩ .nil) (.plain [7])

def memoryFields : List (Field .w64 RawFd) := [.memory (some 3) 4 4096 .nil, .plain [7]]

/-- The descriptors of the handle are open for the objects 0 and 1. -/
def memorySender : Sender linux Nat where
  state := freshChannel
  table fd := if fd = 3 then some ⟨0, false⟩ else if fd = 4 then some ⟨1, false⟩ else none

/-- What is open at the other end when the message has arrived. -/
def memoryArrived (fd : RawFd) : Option Nat :=
  if fd = 30 ∨ fd = 32 ∨ fd = 34 then some 0
  else if fd = 31 ∨ fd = 33 ∨ fd = 35 then some 1
  else none

def memoryDatagram : Datagram :=
  ⟨Field.wire 4 memoryFields, [30, 31, 32, 33, 34, 35], by decide⟩

def memoryEncode (item : Payload .w64) : Encoder := item.encodeAfter 2 64

/-- The process once it has accepted the item. -/
def memoryAccepted : Sender linux Nat :=
  (memorySender.step memoryEncode SendableFd.decode
    (.call (.startSend memoryItem blocked dupsFrom7))).getD memorySender

/-- The send is blocked, and the user closes the descriptors that were sent. -/
def blockedSend : List (Sender.Act (Payload .w64) Nat) :=
  [.call (.pollComplete blocked), .close 3, .close 4]

def blockedRun : List (Sender linux Nat × Sender.Act (Payload .w64) Nat) × Sender linux Nat :=
  ((Sender.system memoryEncode SendableFd.decode).replay memoryAccepted blockedSend).getD
    ([], memoryAccepted)

/-- The handle is received as one for the objects 0 and 1, with the descriptors of the last pass. -/
theorem resources_resolve_memory : ∃ fields,
    ((Reader.decoder (.memory (.plain 1 fun _ => .done)) [] memoryDatagram.bytes).run accepting
      (some (.ofCmsg (freshChannel.channel.io.cmsg.recvmsg (.ok memoryDatagram)))) 0).2 = .ok fields ∧
    List.Forall₂ (Field.Rel (SameObject memoryArrived memorySender.objects)) fields memoryFields ∧
    (memoryDatagram.bytes ≠ [] →
      freshChannel.received (Reader.decoder (p := .w64) (.memory (.plain 1 fun _ => .done)) [])
        ⟨.ok true, .ok memoryDatagram, .ok ()⟩ accepting = some fields) := by
  have hacc : accepted memoryEncode memorySender.state (.startSend memoryItem blocked dupsFrom7)
      = some ⟨Field.wire 4 memoryFields, [7, 8, 9, 10, 11, 12]⟩ := by rfl
  have hs : memorySender.step memoryEncode SendableFd.decode
      (.call (.startSend memoryItem blocked dupsFrom7)) = some memoryAccepted := rfl
  have hr : Run ((Sender.system memoryEncode SendableFd.decode).startingAt memoryAccepted)
      blockedRun.1 blockedRun.2 := Run.of_replay blockedSend rfl rfl
  have hquiet : ∀ e ∈ blockedRun.1, Sender.Quiet memoryEncode e :=
    List.forall_mem_cons.mpr ⟨⟨rfl, rfl⟩, List.forall_mem_cons.mpr ⟨trivial,
      List.forall_mem_singleton.mpr trivial⟩⟩
  have htakes : Takes memoryEncode SendableFd.decode
      (blockedRun.2.state, .pollComplete ⟨.ok true, .ok 50, .ok ()⟩)
      ⟨Field.wire 4 memoryFields, [7, 8, 9, 10, 11, 12]⟩ := by rfl
  have hfds : List.Forall₂ (SameObject memoryArrived blockedRun.2.objects) memoryDatagram.fds
      [7, 8, 9, 10, 11, 12] :=
    .cons ⟨0, rfl, rfl⟩ (.cons ⟨1, rfl, rfl⟩ (.cons ⟨0, rfl, rfl⟩ (.cons ⟨1, rfl, rfl⟩
      (.cons ⟨0, rfl, rfl⟩ (.cons ⟨1, rfl, rfl⟩ .nil)))))
  exact Sender.resources_resolve hacc hs hr hquiet htakes rfl hfds rfl rfl (by decide)
    fun _ _ _ => rfl

end SandboxIpc.Unix
