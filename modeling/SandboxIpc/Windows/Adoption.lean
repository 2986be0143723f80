import SandboxIpc.Windows.Payload
import Mathlib.Data.List.Forall2

/-!
# Handles that a message makes the receiver adopt

On the wire a handle is the number it has in the receiving process. `HandleReceiver` has no list to
look a number up in: whatever number is read, `WinHandle::from_raw` makes an owned handle of it.

* `Building` — the code of a `Deserialize`, with the objects it makes
* `Inbox` — a channel and the messages any peer has written to it
* `AdoptsOwn` — what is adopted has been duplicated for the message, and is adopted once
* `adopts_own_iff` — the bytes decide whether it is
* `namesOwn_of_answers` — bytes that were serialized by the crate name what was duplicated for them
* `adopts_foreign` — a peer that has duplicated nothing can name any handle of the receiver
-/

namespace SandboxIpc.Windows

open Infra

/-- The types that own the handle they are made of. A `WinHandle` may become part of another type. -/
inductive Owner
  | winHandle
  | file
  | sharedMem
  deriving DecidableEq

structure Owned where
  owner : Owner
  handle : Handle
  deriving DecidableEq

/-- It has no fields. -/
structure HandleReceiver where

/-- The `deserialize` of `SendableWinHandle`. `number` is what there is to read, and `fromRaw` is
whether `WinHandle::from_raw` makes a handle of a number. -/
def SendableWinHandle.adopt (receiver : Option HandleReceiver) (fromRaw : Handle → Bool)
    (number : Except String Handle) : Except String Handle :=
  match receiver with
  | none => .error "attempted to deserialize handle outside of IPC channel"
  | some _ =>
    match number with
    | .error message => .error message
    | .ok handle =>
      if fromRaw handle then .ok handle else .error "invalid Windows handle received"

/-- The code of a `Deserialize`, once it has its bytes. The inheritable handles of a
`ChildMessageChannel` are read as bare numbers too, so they are a `winHandle` like the others. -/
inductive Building (R : Type)
  | done (value : R)
  | fail (failure : Failure)
  /-- Deserialize a `SendableWinHandle` that reads this number, and make an object of it. -/
  | winHandle (owner : Owner) (number : Except String Handle) (next : Except String Handle → Building R)

namespace Building

variable {R : Type} (receiver : Option HandleReceiver) (fromRaw : Handle → Bool)

def run : Building R → Except Failure R
  | .done value => .ok value
  | .fail failure => .error failure
  | .winHandle _ number next => (next (SendableWinHandle.adopt receiver fromRaw number)).run

/-- The objects that are made, oldest first. -/
def objects : Building R → List Owned
  | .done _ => []
  | .fail _ => []
  | .winHandle owner number next =>
    match SendableWinHandle.adopt receiver fromRaw number with
    | .error message => (next (.error message)).objects
    | .ok handle => ⟨owner, handle⟩ :: (next (.ok handle)).objects

/-- The numbers in the bytes of which a handle can be made. -/
def named : Building R → List Handle
  | .done _ => []
  | .fail _ => []
  | .winHandle _ (.error message) next => (next (.error message)).named
  | .winHandle _ (.ok number) next =>
    if fromRaw number then number :: (next (.ok number)).named
    else (next (.error "invalid Windows handle received")).named

/-- A receiver makes an object of every number. -/
theorem handles_objects (b : Building R) :
    (b.objects (some ⟨⟩) fromRaw).map Owned.handle = b.named fromRaw := by
  induction b with
  | done value => rfl
  | fail failure => rfl
  | winHandle owner number next ih =>
    cases number with
    | error message => exact ih (.error message)
    | ok number =>
      unfold objects named SendableWinHandle.adopt
      dsimp only
      cases fromRaw number with
      | true => exact congrArg (number :: ·) (ih (.ok number))
      | false => exact ih (.error "invalid Windows handle received")

end Building

/-! ## The types of the crate -/

section Types

variable [Bincode] {R : Type}

/-- A `WinHandle` that becomes the given type, and what follows it. -/
def SendableWinHandle.deserialize (owner : Owner) (bytes : List UInt8)
    (next : Handle → List UInt8 → Building R) : Building R :=
  .winHandle owner ((readUsize bytes).map Prod.fst) fun
    | .error message => .fail (.error message)
    | .ok handle => next handle (bytes.drop 8)

def SendableFile.deserialize (bytes : List UInt8) (next : Handle → List UInt8 → Building R) :
    Building R :=
  SendableWinHandle.deserialize .file bytes next

/-- A pair of a `SendableWinHandle` and a `usize`. -/
def SharedMem.deserialize (bytes : List UInt8) (next : Handle × Nat → List UInt8 → Building R) :
    Building R :=
  SendableWinHandle.deserialize .sharedMem bytes fun handle bytes =>
    match readUsize bytes with
    | .error message => .fail (.error message)
    | .ok (size, bytes) => next (handle, size) bytes

end Types

/-! ## The receiving end -/

/-- A message in the pipe. -/
structure Arrival where
  bytes : List UInt8
  /-- Not in the source: what `HandleSender::send` has duplicated into the receiving process for it. -/
  made : List Handle

structure Inbox where
  channel : State
  /-- What the peers have written and nobody has read, oldest first. -/
  incoming : List Arrival

namespace Inbox

inductive Act
  /-- A peer writes whatever it likes. -/
  | write (m : Arrival)
  /-- The user polls the channel. -/
  | poll (ready : Except IoError Unit)

/-- What the pipe answers to a read. -/
def answer (s : Inbox) (ready : Except IoError Unit) : Except IoError (List UInt8) :=
  match ready, s.incoming with
  | .error e, _ => .error e
  | .ok (), [] => .error .wouldBlock
  | .ok (), m :: _ => .ok m.bytes

/-- The message a call reads. -/
def reads (s : Inbox) : Act → Option Arrival
  | .poll (.ok ()) => s.incoming.head?
  | _ => none

section Step

variable {R : Type} (fromRaw : Handle → Bool) (build : List UInt8 → Building R)

/-- `before_deserialize` has put a receiver into the thread-local. -/
def decode (bytes : List UInt8) : Except Failure R := (build bytes).run (some ⟨⟩) fromRaw

def step (s : Inbox) : Act → Option Inbox
  | .write m => some { s with incoming := s.incoming ++ [m] }
  | .poll ready =>
    let (_, channel, _) := s.channel.poll wsaewouldblock (MessageChannel.read (s.answer ready))
      (deserialize (decode fromRaw build)) ()
    some { channel, incoming := if ready.isOk then s.incoming.tail else s.incoming }

/-- A channel that nobody has written to yet. -/
def system (bufferSize : Nat) : System Inbox Act where
  init s := s.channel.rxBuffer.length = bufferSize ∧ s.incoming = []
  step := step fromRaw build

/-- The objects a call makes. -/
def adopted (s : Inbox) : Act → List Owned
  | .write _ => []
  | .poll ready =>
    match (MessageChannel.read (s.answer ready) s.channel.rxBuffer.length s.channel.io).1 with
    | .error _ => []
    | .ok message =>
      if message.length = 0 then [] else (build message).objects (some ⟨⟩) fromRaw

/-- Whatever a message makes the process own has been duplicated for that message, and has one
owner. -/
def AdoptsOwn (h : List (Inbox × Act)) : Prop :=
  Always (fun _ e => ∀ m, e.1.reads e.2 = some m →
    (∀ o ∈ e.1.adopted fromRaw build e.2, o.handle ∈ m.made) ∧
      ((e.1.adopted fromRaw build e.2).map Owned.handle).Nodup) h

/-- The message names nothing but what was duplicated for it, and each only once. -/
def NamesOwn (m : Arrival) (length : Nat) : Prop :=
  m.bytes.take length ≠ [] →
    (∀ handle ∈ (build (m.bytes.take length)).named fromRaw, handle ∈ m.made) ∧
      ((build (m.bytes.take length)).named fromRaw).Nodup

variable {fromRaw build}

/-- A call reads a message if and only if the pipe has one to give. -/
theorem answer_of_reads {s : Inbox} {ready : Except IoError Unit} {m : Arrival}
    (h : s.reads (.poll ready) = some m) : s.answer ready = .ok m.bytes := by
  obtain ⟨channel, incoming⟩ := s
  cases ready with
  | error e => cases h
  | ok _ =>
    cases incoming with
    | nil => cases h
    | cons m' incoming =>
      obtain rfl := Option.some.inj h
      rfl

/-- The handles that are adopted are those the bytes name. -/
theorem handles_adopted {s : Inbox} {a : Act} {m : Arrival} (h : s.reads a = some m) :
    (s.adopted fromRaw build a).map Owned.handle
      = if m.bytes.take s.channel.rxBuffer.length = [] then []
        else (build (m.bytes.take s.channel.rxBuffer.length)).named fromRaw := by
  cases a with
  | write m' => cases h
  | poll ready =>
    unfold adopted
    dsimp only
    rw [answer_of_reads h]
    dsimp only [MessageChannel.read, Except.map]
    by_cases hempty : m.bytes.take s.channel.rxBuffer.length = []
    · rw [if_pos hempty, hempty]
      rfl
    · rw [if_neg hempty, if_neg fun hzero => hempty (List.length_eq_zero_iff.mp hzero),
        Building.handles_objects]

/-- The buffer of the channel never changes its length. -/
theorem length_of_run {bufferSize : Nat} {h : List (Inbox × Act)} {s : Inbox}
    (hr : Run (system fromRaw build bufferSize) h s) : s.channel.rxBuffer.length = bufferSize := by
  refine hr.invariant_of (fun _ => True) (·.channel.rxBuffer.length = bufferSize) ?_ ?_
    fun _ _ => trivial
  · rintro s ⟨hlength, -⟩
    exact hlength
  · intro s a s' hs _ hstep
    cases a with
    | write m =>
      obtain rfl := Option.some.inj hstep
      exact hs
    | poll ready =>
      obtain rfl := Option.some.inj hstep
      refine (BincodeDatagram.length_rxBuffer_poll wsaewouldblock ?_).trans hs
      intro message hmessage
      unfold MessageChannel.read at hmessage
      cases hanswer : s.answer ready with
      | error e =>
        rw [hanswer] at hmessage
        cases hmessage
      | ok bytes =>
        rw [hanswer] at hmessage
        obtain rfl : bytes.take s.channel.rxBuffer.length = message := Except.ok.inj hmessage
        exact List.length_take_le _ _

/--
What is read is adopted.

A process owns only handles that `HandleSender::send` has duplicated for the message that brought
them, and each of them once, if and only if every message that it reads names only these, and each
of them once.
-/
theorem adopts_own_iff {bufferSize : Nat} {h : List (Inbox × Act)} {s : Inbox}
    (hr : Run (system fromRaw build bufferSize) h s) :
    AdoptsOwn fromRaw build h ↔
      ∀ e ∈ h, ∀ m, e.1.reads e.2 = some m → NamesOwn fromRaw build m bufferSize := by
  have hone : ∀ e ∈ h, ∀ m, e.1.reads e.2 = some m →
      ((∀ o ∈ e.1.adopted fromRaw build e.2, o.handle ∈ m.made) ∧
        ((e.1.adopted fromRaw build e.2).map Owned.handle).Nodup ↔
      NamesOwn fromRaw build m bufferSize) := by
    intro e he m hm
    obtain ⟨pre, hpre, -⟩ := hr.of_mem he
    have hlength := length_of_run hpre
    have hmem : (∀ o ∈ e.1.adopted fromRaw build e.2, o.handle ∈ m.made) ↔
        ∀ handle ∈ (e.1.adopted fromRaw build e.2).map Owned.handle, handle ∈ m.made :=
      List.forall_mem_map.symm
    rw [hmem, handles_adopted hm, hlength]
    unfold NamesOwn
    by_cases hempty : m.bytes.take bufferSize = []
    · rw [if_pos hempty]
      exact iff_of_true ⟨nofun, List.nodup_nil⟩ fun hne => absurd hempty hne
    · rw [if_neg hempty, forall_prop_of_true hempty]
  constructor
  · intro hadopts e he m hm
    obtain ⟨pre, post, rfl⟩ := List.append_of_mem he
    exact (hone e he m hm).mp (hadopts pre e post rfl m hm)
  · rintro hnames pre e post rfl m hm
    have he : e ∈ pre ++ e :: post := List.mem_append_right _ (.head _)
    exact (hone e he m hm).mpr (hnames e he m hm)

end Step

end Inbox

/-! ## Messages of the crate -/

/-- A handle is sent as a handle. -/
inductive Answers : Resource → Sent → Prop
  | handle (handle remote : Handle) : Answers (.handle handle) (.handle remote)
  | socket (socket : RawSocket) (info : WsaProtoInfo) : Answers (.socket socket) (.protoInfo info)

/-- What is served are answers to the resources. -/
theorem answers_of_serve (a : Nat → SendAnswers) (rs : List Resource) (n : Nat) (making : Making)
    {sent : List Sent} (h : (serve (serveResource a) rs n making).1 = .ok sent) :
    List.Forall₂ Answers rs sent := by
  induction rs generalizing n making sent with
  | nil =>
    obtain rfl := Except.ok.inj h
    exact .nil
  | cons r rs ih =>
    rw [serve_cons] at h
    have hfirst : ∀ x, (serveResource a n r making).1 = .ok x → Answers r x := by
      intro x hx
      unfold serveResource at hx
      cases r with
      | handle handle =>
        dsimp only at hx
        generalize (SendableWinHandle.serialize making handle (a n)).1 = result at hx
        cases result with
        | error message => cases hx
        | ok remote =>
          obtain rfl := Except.ok.inj hx
          exact .handle handle remote
      | socket socket =>
        dsimp only at hx
        generalize SendableSocket.serialize making socket (a n) = result at hx
        cases result with
        | error message => cases hx
        | ok info =>
          obtain rfl := Except.ok.inj hx
          exact .socket socket info
    rcases hserve : serveResource a n r making with ⟨message | x, making'⟩
    · rw [hserve] at h
      cases h
    · rw [hserve] at h hfirst
      dsimp only at h
      rcases hrest : (serve (serveResource a) rs (n + 1) making').1 with message | rest
      · rw [hrest] at h
        cases h
      · rw [hrest] at h
        obtain rfl := Except.ok.inj h
        exact .cons (hfirst x rfl) (ih (n + 1) making' hrest)

section Messages

variable [Bincode]

/-- What is read back of some pieces, when only the handles among them are of interest. -/
def Building.ofPieces : List (Piece Resource) → List UInt8 → Building Unit
  | [], _ => .done ()
  | .bytes bytes :: ps, input => ofPieces ps (input.drop bytes.length)
  | .resource (.handle _) :: ps, input =>
    SendableWinHandle.deserialize .winHandle input fun _ input => ofPieces ps input
  | .resource (.socket s) :: ps, input => ofPieces ps (input.drop (Resource.socket s).width)

/-- A number that is read and accepted is named, and then comes what follows it. -/
theorem named_deserialize {R : Type} {fromRaw : Handle → Bool} {owner : Owner}
    {input rest : List UInt8} {number : Nat} {next : Handle → List UInt8 → Building R}
    (hread : readUsize input = .ok (number, rest)) (hraw : fromRaw number = true) :
    (SendableWinHandle.deserialize owner input next).named fromRaw
      = number :: (next number rest).named fromRaw := by
  rw [(eq_of_readUsize hread).2]
  unfold SendableWinHandle.deserialize
  rw [hread]
  exact if_pos hraw

/-- What is read back of an item are the handles that were written. -/
theorem named_ofPieces {fromRaw : Handle → Bool} {ps : List (Piece Resource)} {sent : List Sent}
    (h : List.Forall₂ Answers (resources ps) sent)
    (hraw : ∀ handle ∈ remotes sent, fromRaw handle = true ∧ handle < 2 ^ 64) :
    (Building.ofPieces ps (render Sent.content ps sent)).named fromRaw = remotes sent := by
  induction ps generalizing sent with
  | nil =>
    obtain rfl := List.forall₂_nil_left_iff.mp h
    rfl
  | cons piece ps ih =>
    cases piece with
    | bytes bytes =>
      unfold Building.ofPieces render
      rw [List.drop_left]
      exact ih h hraw
    | resource r =>
      cases h with
      | @cons _ x _ rest hfirst hrest =>
        cases hfirst with
        | handle handle remote =>
          obtain ⟨hvalid, hsize⟩ := hraw remote (.head _)
          have hread := readUsize_usizeBytes hsize (render Sent.content ps rest)
          show (SendableWinHandle.deserialize .winHandle
            (usizeBytes remote ++ render Sent.content ps rest) _).named fromRaw = remote :: _
          rw [named_deserialize hread hvalid, ih hrest fun x hx => hraw x (.tail _ hx)]
        | socket socket info =>
          have hskip : (info.bytes ++ render Sent.content ps rest).drop 628
              = render Sent.content ps rest := List.drop_left' info.length_bytes
          show (Building.ofPieces ps (List.drop 628 (info.bytes ++ _))).named fromRaw = _
          rw [hskip]
          exact ih hrest hraw

/--
A message of the crate names only what was duplicated for it.

The item was accepted on a channel, which made these handles in the target for it, those of the first
pass and those of the second, and no two of the latter are the same.
-/
theorem namesOwn_of_answers {p : PointerWidth} {item : Payload p} {io : MessageChannel}
    {a : SerializeAnswers} {sent : List Sent} (h : item.answers io a = .ok sent)
    {fromRaw : Handle → Bool}
    (hraw : ∀ handle ∈ remotes sent, fromRaw handle = true ∧ handle < 2 ^ 64)
    (hnodup : (remotes (sent.drop item.resources.length)).Nodup) {length : Nat}
    (hfits : (render Sent.content item.serialization (sent.drop item.resources.length)).length
      ≤ length) :
    Inbox.NamesOwn fromRaw (Building.ofPieces item.serialization)
      ⟨render Sent.content item.serialization (sent.drop item.resources.length), remotes sent⟩
      length := by
  have hall := answers_of_serve a.send _ 0 _ h
  have hsecond : List.Forall₂ Answers item.resources (sent.drop item.resources.length) := by
    have hdrop := List.forall₂_drop item.resources.length hall
    rwa [List.drop_left] at hdrop
  have hsub : ∀ handle ∈ remotes (sent.drop item.resources.length), handle ∈ remotes sent := by
    intro handle hmem
    rw [← List.take_append_drop item.resources.length sent, remotes_append]
    exact List.mem_append_right _ hmem
  intro _
  dsimp only
  rw [List.take_of_length_le hfits,
    named_ofPieces hsecond fun handle hmem => hraw handle (hsub handle hmem)]
  exact ⟨hsub, hnodup⟩

end Messages

/-! ## A handle that nobody has sent -/

namespace Inbox

open LittleEndian

/-- A sealed end that nobody has written to. -/
def quiet : Inbox := ⟨.wrap ⟨⟨3, []⟩, false, .none, [], []⟩ 64, []⟩

/-- Null and `INVALID_HANDLE_VALUE` are no handles. -/
def notNull (handle : Handle) : Bool := handle ≠ 0 ∧ handle ≠ 2 ^ 64 - 1

/-- The `deserialize` of two files. -/
def filePair (bytes : List UInt8) : Building (Handle × Handle) :=
  SendableFile.deserialize bytes fun first bytes =>
    SendableFile.deserialize bytes fun second _ => .done (first, second)

/-- What was made for the message is adopted. -/
theorem adopts_own_pair : ∃ h s, Run (system notNull filePair 64) h s ∧
    (h.map fun e => e.1.adopted notNull filePair e.2) = [[], [⟨.file, 100⟩, ⟨.file, 101⟩]] ∧
    AdoptsOwn notNull filePair h := by
  have hr : Run (system notNull filePair 64) _ _ := Run.of_replay (s := quiet)
    [.write ⟨usizeBytes 100 ++ usizeBytes 101, [100, 101]⟩, .poll (.ok ())] ⟨rfl, rfl⟩ rfl
  refine ⟨_, _, hr, by decide, (adopts_own_iff hr).mpr ?_⟩
  intro e he m hm
  rcases List.mem_cons.mp he with rfl | he
  · cases hm
  · obtain rfl := List.mem_singleton.mp he
    obtain rfl := Option.some.inj hm
    exact fun _ => ⟨by decide, by decide⟩

/-- A peer that has duplicated nothing has the process own two files that are the handle four. -/
theorem adopts_foreign : ∃ h s, Run (system notNull filePair 64) h s ∧
    (h.map fun e => e.1.adopted notNull filePair e.2) = [[], [⟨.file, 4⟩, ⟨.file, 4⟩]] ∧
    ¬ AdoptsOwn notNull filePair h := by
  have hr : Run (system notNull filePair 64) _ _ := Run.of_replay (s := quiet)
    [.write ⟨usizeBytes 4 ++ usizeBytes 4, []⟩, .poll (.ok ())] ⟨rfl, rfl⟩ rfl
  refine ⟨_, _, hr, by decide, fun hadopts => ?_⟩
  obtain ⟨hmade, -⟩ := hadopts [_] _ [] rfl ⟨usizeBytes 4 ++ usizeBytes 4, []⟩ rfl
  exact absurd (hmade ⟨.file, 4⟩ (by decide)) (by decide)

end Inbox

end SandboxIpc.Windows
