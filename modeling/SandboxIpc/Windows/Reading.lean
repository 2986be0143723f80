import SandboxIpc.Windows.Adoption

/-!
# Reading an item

An item by its parts, and what is read of the message that was made of it.

* `Part`, `partsOf` — the parts of an item, with what stands for its handles
* `Reader` — the `Deserialize` of a type
* `Reader.run_building` — what is read of a message
-/

namespace SandboxIpc.Windows

open Infra

/-! ## The parts of an item -/

/-- A part of an item. `H` is what stands for a handle. A socket is its protocol information. -/
inductive Part (H : Type)
  | plain (bytes : List UInt8)
  | handle (h : H)
  | socket (info : WsaProtoInfo)

namespace Part

variable {H H' H'' : Type}

def map (f : H → H') : Part H → Part H'
  | .plain bytes => .plain bytes
  | .handle h => .handle (f h)
  | .socket info => .socket info

theorem map_map (f : H → H') (g : H' → H'') (part : Part H) :
    (part.map f).map g = part.map fun h => g (f h) := by
  cases part <;> rfl

/-- The handles among some parts. -/
def handles : List (Part H) → List H
  | [] => []
  | .handle h :: parts => h :: handles parts
  | .plain _ :: parts => handles parts
  | .socket _ :: parts => handles parts

theorem map_congr {f g : H → H'} {parts : List (Part H)} (h : ∀ x ∈ handles parts, f x = g x) :
    parts.map (map f) = parts.map (map g) := by
  induction parts with
  | nil => rfl
  | cons part parts ih =>
    cases part with
    | handle x =>
      have hrest := ih fun y hy => h y (.tail _ hy)
      show Part.handle (f x) :: parts.map (map f) = Part.handle (g x) :: parts.map (map g)
      rw [h x (.head _), hrest]
    | plain | socket => exact congrArg (_ :: ·) (ih h)

theorem handles_map (f : H → H') (parts : List (Part H)) :
    handles (parts.map (map f)) = (handles parts).map f := by
  induction parts with
  | nil => rfl
  | cons part parts ih =>
    cases part with
    | handle x => exact congrArg (f x :: ·) ih
    | plain | socket => exact ih

end Part

/-- An item by its parts, with what the system has answered for its resources. A handle comes with
the one that was made of it. -/
def partsOf : List (Piece Resource) → List Sent → List (Part (Handle × Handle))
  | .bytes bytes :: ps, sent => .plain bytes :: partsOf ps sent
  | .resource (.handle handle) :: ps, .handle remote :: sent =>
    .handle (handle, remote) :: partsOf ps sent
  | .resource (.socket _) :: ps, .protoInfo info :: sent => .socket info :: partsOf ps sent
  | _, _ => []

theorem handles_partsOf {ps : List (Piece Resource)} {sent : List Sent}
    (h : List.Forall₂ Answers (resources ps) sent) :
    Part.handles (partsOf ps sent) = (handlesOf (resources ps)).zip (remotes sent) := by
  induction ps generalizing sent with
  | nil =>
    obtain rfl := List.forall₂_nil_left_iff.mp h
    rfl
  | cons piece ps ih =>
    cases piece with
    | bytes bytes => exact ih h
    | resource r =>
      cases h with
      | @cons _ x _ rest hfirst hrest =>
        cases hfirst with
        | handle handle remote => exact congrArg ((handle, remote) :: ·) (ih hrest)
        | socket socket info => exact ih hrest

/-- The handles that were made are those that are sent. -/
theorem remotes_partsOf {ps : List (Piece Resource)} {sent : List Sent}
    (h : List.Forall₂ Answers (resources ps) sent) :
    (Part.handles (partsOf ps sent)).map Prod.snd = remotes sent := by
  induction ps generalizing sent with
  | nil =>
    obtain rfl := List.forall₂_nil_left_iff.mp h
    rfl
  | cons piece ps ih =>
    cases piece with
    | bytes bytes => exact ih h
    | resource r =>
      cases h with
      | @cons _ x _ rest hfirst hrest =>
        cases hfirst with
        | handle handle remote => exact congrArg (remote :: ·) (ih hrest)
        | socket socket info => exact ih hrest

/-- For every handle one has been made. -/
theorem length_remotes {rs : List Resource} {sent : List Sent} (h : List.Forall₂ Answers rs sent) :
    (remotes sent).length = (handlesOf rs).length := by
  induction h with
  | nil => rfl
  | cons hfirst _ ih =>
    cases hfirst with
    | handle handle remote => exact congrArg (· + 1) ih
    | socket socket info => exact ih

/-- A message has the size of its item. -/
theorem length_render [Bincode] {ps : List (Piece Resource)} {sent : List Sent}
    (h : List.Forall₂ Answers (resources ps) sent) :
    (render Sent.content ps sent).length = size Resource.width ps := by
  induction ps generalizing sent with
  | nil => rfl
  | cons piece ps ih =>
    cases piece with
    | bytes bytes =>
      unfold render size
      rw [List.length_append, ih h]
    | resource r =>
      cases h with
      | @cons _ x _ rest hfirst hrest =>
        have hwidth : x.content.length = r.width := by
          cases hfirst with
          | handle handle remote => exact length_usizeBytes remote
          | socket socket info => exact info.length_bytes
        unfold render size
        rw [List.length_append, ih hrest, hwidth]

/-! ## The type of an item -/

section Types

variable [Bincode] {R : Type} (wsaSocket : WsaProtoInfo → Except IoError RawSocket)

/-- The `deserialize` of `SendableSocket` on a channel. `wsaSocket` is the answer of `WSASocketW`. -/
def SendableSocket.deserialize (bytes : List UInt8)
    (next : WsaProtoInfo → RawSocket → List UInt8 → Building R) : Building R :=
  if h : (bytes.take 628).length = 628 then
    match wsaSocket ⟨bytes.take 628, h⟩ with
    | .error e => .fail (.error e.display)
    | .ok socket => next ⟨bytes.take 628, h⟩ socket (bytes.drop 628)
  else .fail (.error Bincode.short)

end Types

/-- The `Deserialize` of a type as a sequence of reads. What comes next may depend on plain data. -/
inductive Reader
  | done
  | fail (failure : Failure)
  | plain (length : Nat) (next : List UInt8 → Reader)
  | winHandle (owner : Owner) (next : Reader)
  | socket (next : Reader)

namespace Reader

/-- The pieces are those of a value of the type. -/
def accepts : Reader → List (Piece Resource) → Bool
  | .done, [] => true
  | .plain length next, .bytes bytes :: ps => bytes.length = length && (next bytes).accepts ps
  | .winHandle _ next, .resource (.handle _) :: ps => next.accepts ps
  | .socket next, .resource (.socket _) :: ps => next.accepts ps
  | _, _ => false

/-- A number that `WinHandle::from_raw` accepts is handed on. -/
theorem run_winHandle {R : Type} {fromRaw : Handle → Bool} {number : Handle}
    (hraw : fromRaw number = true) (owner : Owner) (next : Except String Handle → Building R) :
    (Building.winHandle owner (.ok number) next).run (some ⟨⟩) fromRaw
      = (next (.ok number)).run (some ⟨⟩) fromRaw := by
  have hadopt : SendableWinHandle.adopt (some ⟨⟩) fromRaw (.ok number) = .ok number := if_pos hraw
  exact congrArg (fun answer => (next answer).run (some ⟨⟩) fromRaw) hadopt

variable [Bincode]

/-- `read` are the parts that have been read. -/
def building (wsaSocket : WsaProtoInfo → Except IoError RawSocket) :
    Reader → List (Part Handle) → List UInt8 → Building (List (Part Handle))
  | .done, read, _ => .done read
  | .fail failure, _, _ => .fail failure
  | .plain length next, read, bytes =>
    if bytes.length < length then .fail (.error Bincode.short)
    else (next (bytes.take length)).building wsaSocket (read ++ [.plain (bytes.take length)])
      (bytes.drop length)
  | .winHandle owner next, read, bytes =>
    SendableWinHandle.deserialize owner bytes fun handle bytes =>
      next.building wsaSocket (read ++ [.handle handle]) bytes
  | .socket next, read, bytes =>
    SendableSocket.deserialize wsaSocket bytes fun info _ bytes =>
      next.building wsaSocket (read ++ [.socket info]) bytes

variable {wsaSocket : WsaProtoInfo → Except IoError RawSocket} {fromRaw : Handle → Bool}

/-- A handle that was written is read, and becomes the object of somebody. -/
theorem run_deserialize {R : Type} (owner : Owner) {handle : Handle} (hsize : handle < 2 ^ 64)
    (hraw : fromRaw handle = true) (rest : List UInt8) (next : Handle → List UInt8 → Building R) :
    (SendableWinHandle.deserialize owner (usizeBytes handle ++ rest) next).run (some ⟨⟩) fromRaw
        = (next handle rest).run (some ⟨⟩) fromRaw ∧
      (SendableWinHandle.deserialize owner (usizeBytes handle ++ rest) next).named fromRaw
        = handle :: (next handle rest).named fromRaw := by
  have hread := readUsize_usizeBytes hsize rest
  refine ⟨?_, named_deserialize hread hraw⟩
  unfold SendableWinHandle.deserialize
  rw [hread, ← (eq_of_readUsize hread).2]
  exact run_winHandle hraw owner _

/-- The protocol information of a socket is read, and a socket is made of it. -/
theorem deserialize_socket {R : Type} {info : WsaProtoInfo} {socket : RawSocket}
    (h : wsaSocket info = .ok socket) (rest : List UInt8)
    (next : WsaProtoInfo → RawSocket → List UInt8 → Building R) :
    SendableSocket.deserialize wsaSocket (info.bytes ++ rest) next = next info socket rest := by
  have htake : (info.bytes ++ rest).take 628 = info.bytes := List.take_left' info.length_bytes
  have hdrop : (info.bytes ++ rest).drop 628 = rest := List.drop_left' info.length_bytes
  unfold SendableSocket.deserialize
  simp only [htake, hdrop]
  rw [dif_pos info.length_bytes, h]

/--
What is read of a message.

The item was of this type. It is read part by part, each handle as the number that was written for
it, and these numbers are all the handles that the message names.
-/
theorem run_building {reader : Reader} {ps : List (Piece Resource)}
    (haccepts : reader.accepts ps = true) {sent : List Sent}
    (hsent : List.Forall₂ Answers (resources ps) sent)
    (hraw : ∀ handle ∈ remotes sent, fromRaw handle = true ∧ handle < 2 ^ 64)
    (hsockets : ∀ info, ∃ socket, wsaSocket info = .ok socket) (read : List (Part Handle)) :
    (reader.building wsaSocket read (render Sent.content ps sent)).run (some ⟨⟩) fromRaw
        = .ok (read ++ (partsOf ps sent).map (Part.map Prod.snd)) ∧
      (reader.building wsaSocket read (render Sent.content ps sent)).named fromRaw
        = remotes sent := by
  induction reader generalizing ps sent read with
  | done =>
    cases ps with
    | nil =>
      obtain rfl := List.forall₂_nil_left_iff.mp hsent
      exact ⟨congrArg Except.ok (List.append_nil read).symm, rfl⟩
    | cons piece ps => cases haccepts
  | fail failure => cases ps <;> cases haccepts
  | plain length next ih =>
    cases ps with
    | nil => cases haccepts
    | cons piece ps =>
      cases piece with
      | resource r => cases haccepts
      | bytes bytes =>
        obtain ⟨hlength, hnext⟩ := (Bool.and_eq_true _ _).mp haccepts
        obtain rfl := of_decide_eq_true hlength
        unfold building render
        rw [if_neg (by simp), List.take_left, List.drop_left]
        obtain ⟨hrun, hnamed⟩ := ih bytes hnext hsent hraw (read ++ [.plain bytes])
        refine ⟨?_, hnamed⟩
        rw [hrun, List.append_assoc]
        rfl
  | winHandle owner next ih =>
    cases ps with
    | nil => cases haccepts
    | cons piece ps =>
      cases piece with
      | bytes bytes => cases haccepts
      | resource r =>
        cases hsent with
        | @cons _ x _ rest hfirst hrest =>
          cases hfirst with
          | socket socket info => cases haccepts
          | handle handle remote =>
            obtain ⟨hvalid, hsize⟩ := hraw remote (.head _)
            obtain ⟨hrun, hnamed⟩ := run_deserialize owner hsize hvalid
              (render Sent.content ps rest)
              fun handle bytes => next.building wsaSocket (read ++ [.handle handle]) bytes
            obtain ⟨hrest, hothers⟩ := ih haccepts hrest (fun x hx => hraw x (.tail _ hx))
              (read ++ [.handle remote])
            refine ⟨hrun.trans ?_, hnamed.trans (congrArg (remote :: ·) hothers)⟩
            rw [hrest, List.append_assoc]
            rfl
  | socket next ih =>
    cases ps with
    | nil => cases haccepts
    | cons piece ps =>
      cases piece with
      | bytes bytes => cases haccepts
      | resource r =>
        cases hsent with
        | @cons _ x _ rest hfirst hrest =>
          cases hfirst with
          | handle handle remote => cases haccepts
          | socket socket info =>
            obtain ⟨made, hmade⟩ := hsockets info
            show (SendableSocket.deserialize wsaSocket
                (info.bytes ++ render Sent.content ps rest) _).run (some ⟨⟩) fromRaw = _ ∧
              (SendableSocket.deserialize wsaSocket
                (info.bytes ++ render Sent.content ps rest) _).named fromRaw = _
            rw [deserialize_socket hmade]
            obtain ⟨hrun, hothers⟩ := ih haccepts hrest hraw (read ++ [.socket info])
            refine ⟨?_, hothers⟩
            rw [hrun, List.append_assoc]
            rfl

end Reader

end SandboxIpc.Windows
