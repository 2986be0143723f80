import SandboxIpc.Ser.Bincode

/-!
# Handles inside a message, `windows/mod.rs`

A handle is duplicated into the process at the other end while the item is serialized, and what is
written is the handle it has there. The `HandleSender` notes what it has made, and closes it again
when it is dropped, unless `commit` has made it forget.

* `HandleSender` — `send`, `remote_process_id`, and its drop
* `serveResource` — the `serialize` of a handle or a socket
* `serve_sealed` — a sender without a target refuses the first of them
* `serve_made` — the handles that are made for some resources
-/

namespace SandboxIpc.Windows

open Infra

/-- `HANDLE`, as a `usize`. -/
abbrev Handle := Nat

/-- `RawSocket`. -/
abbrev RawSocket := Nat

structure ProcessHandle where
  handle : Handle
  id : BitVec 32

inductive HandleTarget
  | none
  | currentProcess
  | remoteProcess (process : ProcessHandle)

/-- The fields of a `WsaProtoInfo` one after the other, as they are serialized. -/
structure WsaProtoInfo where
  bytes : List UInt8
  length_bytes : bytes.length = 628

/-- What the system answers for one resource. The first argument of `duplicateHandle` is the process
the handle is to go to. -/
structure SendAnswers where
  getCurrentProcess : Handle
  getCurrentProcessId : BitVec 32
  duplicateHandle : Handle → Handle → Except IoError Handle
  wsaDuplicateSocket : RawSocket → BitVec 32 → Except IoError WsaProtoInfo

/-- Whether the system closes a handle of the current process or of another one. -/
structure CloseAnswers where
  closeHandle : Handle → Bool
  duplicateHandle : Handle → Handle → Bool

structure HandleSender where
  target : HandleTarget
  handles : List Handle

/-- The error of a sealed channel. -/
def notConfigured : IoError := .new .brokenPipe "this pipe is not configured to send handles"

namespace HandleSender

def send (s : HandleSender) (handle : Handle) (a : SendAnswers) :
    Except IoError Handle × HandleSender :=
  let remoteProcessHandle : Except IoError Handle :=
    match s.target with
    | .currentProcess => .ok a.getCurrentProcess
    | .remoteProcess remote => .ok remote.handle
    | .none => .error notConfigured
  match remoteProcessHandle with
  | .error e => (.error e, s)
  | .ok process =>
    match a.duplicateHandle process handle with
    | .error e => (.error e, s)
    | .ok remoteHandle => (.ok remoteHandle, { s with handles := s.handles ++ [remoteHandle] })

def remoteProcessId (s : HandleSender) (a : SendAnswers) : Except IoError (BitVec 32) :=
  match s.target with
  | .currentProcess => .ok a.getCurrentProcessId
  | .remoteProcess remote => .ok remote.id
  | .none => .error notConfigured

theorem send_cases (s : HandleSender) (handle : Handle) (a : SendAnswers) :
    (∃ e, s.send handle a = (.error e, s)) ∨
    ∃ remote, s.send handle a = (.ok remote, { s with handles := s.handles ++ [remote] }) := by
  unfold send
  dsimp only
  split
  · exact .inl ⟨_, rfl⟩
  · split
    · exact .inl ⟨_, rfl⟩
    · exact .inr ⟨_, rfl⟩

/-- `drop`: the handles it closes. -/
def drop (s : HandleSender) (a : CloseAnswers) : List Handle :=
  match s.target with
  | .currentProcess => s.handles.filter a.closeHandle
  | .remoteProcess process => s.handles.filter (a.duplicateHandle process.handle)
  | .none => []

end HandleSender

/-! ## The serialization of resources -/

inductive Resource
  | handle (handle : Handle)
  | socket (socket : RawSocket)

/-- What is written for a resource. -/
inductive Sent
  | handle (remote : Handle)
  | protoInfo (info : WsaProtoInfo)

def Sent.content [Bincode] : Sent → List UInt8
  | .handle remote => usizeBytes remote
  | .protoInfo info => info.bytes

/-- The number of bytes that are written for a resource. -/
def Resource.width : Resource → Nat
  | .handle _ => 8
  | .socket _ => 628

/-- What the serialization of an item works on. -/
structure Making where
  /-- `CURRENT_SERIALIZE_CHANNEL_REMOTE_PROCESS`. -/
  sender : Option HandleSender
  /-- Not in the source: the handles made in the target so far, oldest first. -/
  made : List Handle

/-- The text for a serialization that has nothing to do with a channel. -/
def outsideOfChannel : String := "attempted to serialize handle outside of IPC channel"

/-- The `serialize` of `SendableWinHandle`, up to the serialization of the handle. -/
def SendableWinHandle.serialize (making : Making) (handle : Handle) (a : SendAnswers) :
    Except String Handle × Making :=
  match making.sender with
  | none => (.error outsideOfChannel, making)
  | some s =>
    match s.send handle a with
    | (.error e, s) => (.error e.display, { making with sender := some s })
    | (.ok remote, s) => (.ok remote, ⟨some s, making.made ++ [remote]⟩)

/-- The `serialize` of `SendableSocket`, up to the serialization of the protocol information. -/
def SendableSocket.serialize (making : Making) (socket : RawSocket) (a : SendAnswers) :
    Except String WsaProtoInfo :=
  match making.sender with
  | none => .error outsideOfChannel
  | some s =>
    match s.remoteProcessId a with
    | .error e => .error e.display
    | .ok id => (a.wsaDuplicateSocket socket id).mapError IoError.display

def serveResource (answers : Nat → SendAnswers) (n : Nat) (r : Resource) (making : Making) :
    Except String Sent × Making :=
  match r with
  | .handle handle =>
    let (remote, making) := SendableWinHandle.serialize making handle (answers n)
    (remote.map .handle, making)
  | .socket socket => ((SendableSocket.serialize making socket (answers n)).map .protoInfo, making)

theorem length_serveResource [Bincode] {answers : Nat → SendAnswers} (n : Nat) (r : Resource)
    (making : Making) (sent : Sent) (h : (serveResource answers n r making).1 = .ok sent) :
    sent.content.length = r.width := by
  unfold serveResource at h
  cases r with
  | handle handle =>
    dsimp only at h
    generalize SendableWinHandle.serialize making handle (answers n) = result at h
    obtain ⟨message | remote, making'⟩ := result
    · cases h
    · obtain rfl := Except.ok.inj h
      exact length_usizeBytes remote
  | socket socket =>
    dsimp only at h
    generalize SendableSocket.serialize making socket (answers n) = result at h
    cases result with
    | error message => cases h
    | ok info =>
      obtain rfl := Except.ok.inj h
      exact info.length_bytes

/-- Without a target nothing is duplicated. -/
theorem serve_sealed (answers : Nat → SendAnswers) {handles : List Handle} {made : List Handle}
    {rs : List Resource} (hrs : rs ≠ []) (n : Nat) :
    serve (serveResource answers) rs n ⟨some ⟨.none, handles⟩, made⟩
      = (.error notConfigured.display, ⟨some ⟨.none, handles⟩, made⟩) := by
  cases rs with
  | nil => exact absurd rfl hrs
  | cons r rs => cases r <;> rfl

/-- The handles among some resources. -/
def handlesOf : List Resource → List Handle
  | [] => []
  | .handle handle :: rs => handle :: handlesOf rs
  | .socket _ :: rs => handlesOf rs

/-- The handles that have been written. -/
def remotes : List Sent → List Handle
  | [] => []
  | .handle remote :: sent => remote :: remotes sent
  | .protoInfo _ :: sent => remotes sent

theorem handlesOf_append (rs rs' : List Resource) :
    handlesOf (rs ++ rs') = handlesOf rs ++ handlesOf rs' := by
  induction rs with
  | nil => rfl
  | cons r rs ih =>
    cases r with
    | handle handle => exact congrArg (handle :: ·) ih
    | socket socket => exact ih

theorem remotes_append (sent sent' : List Sent) :
    remotes (sent ++ sent') = remotes sent ++ remotes sent' := by
  induction sent with
  | nil => rfl
  | cons x sent ih =>
    cases x with
    | handle remote => exact congrArg (remote :: ·) ih
    | protoInfo info => exact ih

theorem remotes_cons (x : Sent) (sent : List Sent) :
    remotes (x :: sent) = remotes [x] ++ remotes sent := remotes_append [x] sent

/-- The `serialize` of a resource fails and changes nothing, or it makes a handle if the resource is
one, takes note of it and writes it. -/
theorem serveResource_cases (answers : Nat → SendAnswers) (n : Nat) (r : Resource)
    (s : HandleSender) (made : List Handle) :
    (∃ message, serveResource answers n r ⟨some s, made⟩ = (.error message, ⟨some s, made⟩)) ∨
    ∃ x, serveResource answers n r ⟨some s, made⟩
        = (.ok x, ⟨some { s with handles := s.handles ++ remotes [x] }, made ++ remotes [x]⟩) ∧
      (remotes [x]).length = (handlesOf [r]).length := by
  cases r with
  | handle handle =>
    unfold serveResource SendableWinHandle.serialize
    dsimp only
    rcases s.send_cases handle (answers n) with ⟨e, hsend⟩ | ⟨remote, hsend⟩
    · rw [hsend]
      exact .inl ⟨_, rfl⟩
    · rw [hsend]
      exact .inr ⟨.handle remote, rfl, rfl⟩
  | socket socket =>
    unfold serveResource
    dsimp only
    cases SendableSocket.serialize ⟨some s, made⟩ socket (answers n) with
    | error message => exact .inl ⟨message, rfl⟩
    | ok info =>
      refine .inr ⟨.protoInfo info, ?_, rfl⟩
      simp [remotes, Except.map]

/-- For each handle among the resources one is made in the target, and it is written. -/
theorem serve_made (answers : Nat → SendAnswers) (rs : List Resource) (n : Nat) (s : HandleSender)
    (made : List Handle) {sent : List Sent}
    (h : (serve (serveResource answers) rs n ⟨some s, made⟩).1 = .ok sent) :
    (serve (serveResource answers) rs n ⟨some s, made⟩).2
        = ⟨some { s with handles := s.handles ++ remotes sent }, made ++ remotes sent⟩ ∧
      (remotes sent).length = (handlesOf rs).length := by
  induction rs generalizing n s made sent with
  | nil =>
    obtain rfl := Except.ok.inj h
    exact ⟨by simp [serve, remotes], rfl⟩
  | cons r rs ih =>
    rw [serve_cons] at h ⊢
    rcases serveResource_cases answers n r s made with ⟨message, hr⟩ | ⟨x, hr, hcount⟩
    · rw [hr] at h
      cases h
    · rw [hr] at h ⊢
      dsimp only at h ⊢
      cases hrest : (serve (serveResource answers) rs (n + 1)
        ⟨some { s with handles := s.handles ++ remotes [x] }, made ++ remotes [x]⟩).1 with
      | error message =>
        rw [hrest] at h
        cases h
      | ok rest =>
        rw [hrest] at h
        obtain rfl : x :: rest = sent := Except.ok.inj h
        obtain ⟨hstate, hlength⟩ := ih _ _ _ hrest
        have hhandles : handlesOf (r :: rs) = handlesOf [r] ++ handlesOf rs :=
          handlesOf_append [r] rs
        rw [hstate, remotes_cons x rest, hhandles]
        refine ⟨by simp only [List.append_assoc], ?_⟩
        rw [List.length_append, List.length_append, hcount, hlength]

/-! ## A system that refuses nothing -/

/-- A handle has the same number in every process. -/
def generous (_ : Nat) : SendAnswers where
  getCurrentProcess := 0
  getCurrentProcessId := 0
  duplicateHandle _ handle := .ok handle
  wsaDuplicateSocket _ _ := .ok ⟨List.replicate 628 0, List.length_replicate⟩

theorem serveResource_generous (n : Nat) (r : Resource) {s : HandleSender} (hs : s.target ≠ .none)
    (made : List Handle) : ∃ sent s' made',
      serveResource generous n r ⟨some s, made⟩ = (.ok sent, ⟨some s', made'⟩) ∧
      s'.target = s.target := by
  obtain ⟨target, handles⟩ := s
  cases target with
  | none => exact absurd rfl hs
  | currentProcess => cases r <;> exact ⟨_, _, _, rfl, rfl⟩
  | remoteProcess process => cases r <;> exact ⟨_, _, _, rfl, rfl⟩

/-- Then only a sender without a target refuses a resource. -/
theorem serve_generous (rs : List Resource) (n : Nat) {s : HandleSender} (hs : s.target ≠ .none)
    (made : List Handle) :
    ∃ sent, (serve (serveResource generous) rs n ⟨some s, made⟩).1 = .ok sent := by
  induction rs generalizing n s made with
  | nil => exact ⟨[], rfl⟩
  | cons r rs ih =>
    obtain ⟨sent, s', made', hserve, htarget⟩ := serveResource_generous n r hs made
    obtain ⟨rest, hrest⟩ := ih (n + 1) (by rw [htarget]; exact hs) made'
    refine ⟨sent :: rest, ?_⟩
    rw [serve_cons, hserve]
    dsimp only
    rw [hrest]
    rfl

end SandboxIpc.Windows
