import SandboxIpc.Unix.Syscalls

/-!
# Constructors that fail

What `SharedMem::new`, `SharedMem::clone`, `NamedMessageChannel::new` and `connect` and
`raw_socketpair` leave behind when a system call fails. Any call may fail, whatever it is given.

* `Constructor` — the five of them
* `Holdings`, `Holdings.effect` — the descriptors and the names, and what a call does to them
* `Released` — all that was acquired has been released
* `released_iff` — the failures that leave nothing behind
* `clone_leaks` — the second `dup` of a clone fails
-/

namespace SandboxIpc.Unix

open Infra

/-! ## What is acquired -/

/-- What a constructor can acquire. Its names are made up from a new uuid. -/
@[ext] structure Holdings where
  fds : RawFd → Bool
  /-- The name for `shm_open` exists. -/
  shmName : Bool
  /-- The path of the socket exists. -/
  socketPath : Bool

namespace Holdings

/-- What is there before a constructor is called. -/
def before (fds : RawFd → Bool) : Holdings := ⟨fds, false, false⟩

def effect (h : Holdings) (c : Call) (a : Answer) : Holdings where
  fds :=
    match c with
    | .close fd => if fd < 0 then h.fds else Function.update h.fds fd false
    | _ => fun fd => fd ∈ c.created a || h.fds fd
  shmName :=
    match c with
    | .shmOpen => h.shmName || 0 ≤ a.result
    | .shmUnlink => h.shmName && a.result < 0
    | _ => h.shmName
  socketPath :=
    match c with
    | .bind _ => h.socketPath || 0 ≤ a.result
    | _ => h.socketPath

def after (h : Holdings) (calls : List (Call × Answer)) : Holdings :=
  calls.foldl (fun h c => h.effect c.1 c.2) h

/-- The kernel gives numbers that are not in use. -/
def Regular : Holdings → List (Call × Answer) → Prop
  | _, [] => True
  | h, (c, a) :: calls => c.Plausible a ∧ (c.created a).Nodup ∧
      (∀ fd ∈ c.created a, h.fds fd = false) ∧ (h.effect c a).Regular calls

instance decidableRegular : ∀ (h : Holdings) (calls : List (Call × Answer)), Decidable (h.Regular calls)
  | _, [] => isTrue trivial
  | h, (c, a) :: calls =>
    have := decidableRegular (h.effect c a) calls
    inferInstanceAs (Decidable (_ ∧ _))

end Holdings

def opened (calls : List (Call × Answer)) : List RawFd := calls.flatMap fun c => c.1.created c.2

def closed (calls : List (Call × Answer)) : List RawFd :=
  calls.filterMap fun c =>
    match c.1 with
    | .close fd => some fd
    | _ => none

section Calls

variable (c : Call) (a : Answer) (calls : List (Call × Answer))

theorem opened_cons : opened ((c, a) :: calls) = c.created a ++ opened calls := rfl

theorem closed_cons : closed ((c, a) :: calls)
    = (match c with
        | .close fd => [fd]
        | _ => []) ++ closed calls := by
  cases c <;> rfl

theorem Holdings.after_cons (h : Holdings) :
    h.after ((c, a) :: calls) = (h.effect c a).after calls := rfl

end Calls

/-- All that was acquired has been released. -/
structure Released (fds : RawFd → Bool) (calls : List (Call × Answer)) : Prop where
  closed_once : ∀ fd ∈ opened calls, (closed calls).count fd = 1
  restored : (Holdings.before fds).after calls = .before fds

/-! ## The constructors -/

inductive Constructor
  | sharedMemNew
  | sharedMemClone (rwFd : Option RawFd) (roFd : RawFd) (access : Access)
  /-- `fits` is whether the path is short enough. -/
  | namedNew (fits : Bool)
  | namedConnect (fits : Bool)
  | rawSocketpair

namespace Constructor

def prog : Constructor → Program
  | .sharedMemNew => Unix.sharedMemNew
  | .sharedMemClone rwFd roFd access => Unix.sharedMemClone rwFd roFd access
  | .namedNew fits => Unix.namedNew fits
  | .namedConnect fits => Unix.namedConnect fits
  | .rawSocketpair => Unix.rawSocketpair fun
    | .error e => failed e
    | .ok (a, b) => .done (.ok [a, b])

/-- The failure is not one of those that leave something behind. `answers n` is for the call after the
first `n`. -/
def Spared (answers : Nat → Answer) : Constructor → Prop
  -- the second `shm_open` and `shm_unlink` leave the name
  | .sharedMemNew => (answers 0).result < 0 ∨ 0 ≤ (answers 1).result ∧ 0 ≤ (answers 2).result
  -- the second `dup` leaves the first duplicate
  | .sharedMemClone rwFd _ access => access = .readWrite → rwFd.isSome → (answers 0).result < 0
  -- `listen` leaves the path
  | .namedNew _ => (answers 2).result = -1 ∨ (answers 3).result < 0
  -- `fcntl` and `connect` leave the socket
  | .namedConnect _ =>
    (answers 0).result < 0 ∨ (answers 2).result ≠ -1 ∧ 0 ≤ (answers 3).result
  -- `fcntl` leaves both sockets
  | .rawSocketpair => (answers 0).result = -1

end Constructor

/-! ## What is left behind -/

section Left

variable {fds : RawFd → Bool} {calls : List (Call × Answer)}

theorem not_released_of_open (fd : RawFd) (hopen : fd ∈ opened calls) (hclosed : fd ∉ closed calls) :
    ¬ Released fds calls := by
  intro h
  have hcount := h.closed_once fd hopen
  rw [List.count_eq_zero.mpr hclosed] at hcount
  cases hcount

theorem not_released_of_shmName (h : ((Holdings.before fds).after calls).shmName = true) :
    ¬ Released fds calls := by
  intro hreleased
  rw [hreleased.restored] at h
  cases h

theorem not_released_of_socketPath (h : ((Holdings.before fds).after calls).socketPath = true) :
    ¬ Released fds calls := by
  intro hreleased
  rw [hreleased.restored] at h
  cases h

end Left

/-- A descriptor that is opened and closed again. -/
theorem update_opened {fds : RawFd → Bool} {fd : RawFd} (h : fds fd = false) :
    Function.update (fun x => decide (x = fd) || fds x) fd false = fds := by
  funext x
  by_cases hx : x = fd
  · rw [hx, Function.update_self, h]
  · rw [Function.update_of_ne hx, decide_eq_false hx, Bool.false_or]

section Functions

variable {answers : Nat → Answer} {fds : RawFd → Bool} {calls : List (Call × Answer)} {e : IoError}

theorem sharedMemNew_released (hrun : sharedMemNew.run answers 0 = (calls, .error (.err e)))
    (hregular : (Holdings.before fds).Regular calls) :
    Released fds calls ↔
      (answers 0).result < 0 ∨ 0 ≤ (answers 1).result ∧ 0 ≤ (answers 2).result := by
  unfold sharedMemNew at hrun
  rw [Prog.run_call] at hrun
  by_cases h0 : (answers 0).result < 0
  · -- nothing has been opened
    simp [failed, h0] at hrun
    obtain ⟨rfl, -⟩ := hrun
    refine iff_of_true ⟨?_, ?_⟩ (.inl h0)
    · simp [opened, Call.created, h0]
    · simp [Holdings.after, Holdings.effect, Holdings.before, Call.created, h0]
  by_cases h1 : (answers 1).result < 0
  · -- the name is still there
    simp [failed, closeFd, h0, h1] at hrun
    obtain ⟨rfl, -⟩ := hrun
    refine iff_of_false (not_released_of_shmName ?_) (by omega)
    simp [Holdings.after, Holdings.effect, Int.not_lt.mp h0]
  by_cases h2 : (answers 2).result < 0
  · simp [failed, closeFd, h0, h1, h2] at hrun
    obtain ⟨rfl, -⟩ := hrun
    refine iff_of_false (not_released_of_shmName ?_) (by omega)
    simp [Holdings.after, Holdings.effect, Int.not_lt.mp h0, h2]
  by_cases h3 : (answers 3).result < 0
  · simp [failed, closeFd, h0, h1, h2, h3] at hrun
    obtain ⟨rfl, -⟩ := hrun
    refine iff_of_true ?_ (by omega)
    simp [Holdings.Regular, Holdings.effect, Holdings.before, Call.created, Call.Plausible, h0, h1]
      at hregular
    obtain ⟨hrw, hne, hro⟩ := hregular
    refine ⟨?_, ?_⟩
    · simp [opened, closed, Call.created, h0, h1, List.count_cons, hne, Ne.symm hne]
    · simp [Holdings.after, Holdings.effect, Holdings.before, Call.created, h0, h1, h2]
      rw [update_opened (by simp [hne, hro]), update_opened hrw]
  · simp [h0, h1, h2, h3] at hrun

theorem sharedMemClone_released {rwFd : Option RawFd} {roFd : RawFd} {access : Access}
    (hrun : (sharedMemClone rwFd roFd access).run answers 0 = (calls, .error (.err e))) :
    Released fds calls ↔ (access = .readWrite → rwFd.isSome → (answers 0).result < 0) := by
  cases access with
  | read =>
    unfold sharedMemClone at hrun
    rw [Prog.run_call] at hrun
    by_cases h0 : (answers 0).result < 0
    · simp [failed, h0] at hrun
      obtain ⟨rfl, -⟩ := hrun
      refine iff_of_true ⟨?_, ?_⟩ nofun
      · simp [opened, Call.created, h0]
      · simp [Holdings.after, Holdings.effect, Holdings.before, Call.created, h0]
    · simp [h0] at hrun
  | readWrite =>
    unfold sharedMemClone at hrun
    cases rwFd with
    | none =>
      simp [failed] at hrun
      obtain ⟨rfl, -⟩ := hrun
      refine iff_of_true ⟨?_, rfl⟩ (by simp)
      simp [opened]
    | some rwFd =>
      dsimp only at hrun
      rw [Prog.run_call] at hrun
      by_cases h0 : (answers 0).result < 0
      · simp [failed, h0] at hrun
        obtain ⟨rfl, -⟩ := hrun
        refine iff_of_true ⟨?_, ?_⟩ (fun _ _ => h0)
        · simp [opened, Call.created, h0]
        · simp [Holdings.after, Holdings.effect, Holdings.before, Call.created, h0]
      by_cases h1 : (answers 1).result < 0
      · -- the first duplicate is a bare number
        simp [failed, h0, h1] at hrun
        obtain ⟨rfl, -⟩ := hrun
        refine iff_of_false (not_released_of_open (answers 0).result ?_ ?_)
          (fun h => h0 (h rfl rfl))
        · simp [opened, Call.created, h0]
        · simp [closed]
      · simp [h0, h1] at hrun

/-- A socket that is closed again, if it could be made, and nothing else. -/
theorem released_of_socket {a a' : Answer} (middle : List (Call × Answer))
    (hopened : opened middle = []) (hclosed : closed middle = [])
    (hkeeps : ∀ h : Holdings, h.after middle = h)
    (hregular : (Holdings.before fds).Regular ((.socket, a) :: (middle ++ [(.close a.result, a')]))) :
    Released fds ((.socket, a) :: (middle ++ [(.close a.result, a')])) := by
  have hfree := hregular.2.2.1
  have hopened' : opened ((.socket, a) :: (middle ++ [(.close a.result, a')]))
      = if a.result < 0 then [] else [a.result] := by
    unfold opened at hopened ⊢
    rw [List.flatMap_cons, List.flatMap_append, hopened]
    simp [Call.created]
  have hclosed' : closed ((.socket, a) :: (middle ++ [(.close a.result, a')])) = [a.result] := by
    unfold closed at hclosed ⊢
    simp [hclosed]
  have hafter : (Holdings.before fds).after ((.socket, a) :: (middle ++ [(.close a.result, a')]))
      = ((Holdings.before fds).effect .socket a).effect (.close a.result) a' := by
    unfold Holdings.after at hkeeps ⊢
    rw [List.foldl_cons, List.foldl_append, hkeeps]
    rfl
  refine ⟨?_, ?_⟩
  · rw [hopened', hclosed']
    split <;> simp
  · rw [hafter]
    by_cases h : a.result < 0
    · simp [Holdings.effect, Holdings.before, Call.created, h]
    · simp [Call.created, h, Holdings.before] at hfree
      simp [Holdings.effect, Holdings.before, Call.created, h, update_opened hfree]

/-- A socket that is left alone is left behind, if it could be made. -/
theorem released_socket_iff {a : Answer} {rest : List (Call × Answer)}
    (hopened : opened rest = []) (hclosed : closed rest = [])
    (hkeeps : ∀ h : Holdings, h.after rest = h) :
    Released fds ((.socket, a) :: rest) ↔ a.result < 0 := by
  constructor
  · intro h
    refine Int.not_le.mp fun hle => not_released_of_open a.result ?_ ?_ h
    · simp [opened_cons, Call.created, hle]
    · simp [closed_cons, hclosed]
  · intro h
    refine ⟨?_, ?_⟩
    · simp [opened_cons, Call.created, h, hopened]
    · rw [Holdings.after_cons, hkeeps]
      simp [Holdings.effect, Holdings.before, Call.created, h]

theorem namedNew_released {fits : Bool}
    (hrun : (namedNew fits).run answers 0 = (calls, .error (.err e)))
    (hregular : (Holdings.before fds).Regular calls) :
    Released fds calls ↔ (answers 2).result = -1 ∨ (answers 3).result < 0 := by
  unfold namedNew setCloexec at hrun
  by_cases h2 : (answers 2).result = -1
  · simp [failed, closeFd, h2] at hrun
    obtain ⟨rfl, -⟩ := hrun
    refine iff_of_true ?_ (.inl h2)
    exact released_of_socket [(.getfd _, _), (.setfd _ _, _)] rfl rfl (fun _ => rfl) hregular
  cases fits with
  | false => simp [closeFd, pathTooLong, h2] at hrun
  | true =>
    by_cases h3 : (answers 3).result < 0
    · simp [failed, closeFd, h2, h3] at hrun
      obtain ⟨rfl, -⟩ := hrun
      refine iff_of_true ?_ (.inr h3)
      refine released_of_socket [(.getfd _, _), (.setfd _ _, _), (.bind _, _)] rfl rfl
        (fun h => ?_) hregular
      have h3' : ¬ 0 ≤ (answers 3).result := Int.not_le.mpr h3
      simp [Holdings.after, Holdings.effect, Call.created, h3']
    by_cases h4 : (answers 4).result < 0
    · -- the path is still there
      simp [failed, closeFd, h2, h3, h4] at hrun
      obtain ⟨rfl, -⟩ := hrun
      refine iff_of_false (not_released_of_socketPath ?_) (by omega)
      simp [Holdings.after, Holdings.effect, Int.not_lt.mp h3]
    · simp [h2, h3, h4] at hrun

theorem namedConnect_released {fits : Bool}
    (hrun : (namedConnect fits).run answers 0 = (calls, .error (.err e)))
    (hregular : (Holdings.before fds).Regular calls) :
    Released fds calls ↔
      (answers 0).result < 0 ∨ (answers 2).result ≠ -1 ∧ 0 ≤ (answers 3).result := by
  unfold namedConnect setCloexec newWithHandle at hrun
  by_cases h2 : (answers 2).result = -1
  · simp [failed, h2] at hrun
    obtain ⟨rfl, -⟩ := hrun
    rw [released_socket_iff rfl rfl fun _ => rfl]
    omega
  cases fits with
  | false => simp [pathTooLong, h2] at hrun
  | true =>
    by_cases h3 : (answers 3).result < 0
    · simp [failed, h2, h3] at hrun
      obtain ⟨rfl, -⟩ := hrun
      rw [released_socket_iff rfl rfl fun _ => rfl]
      omega
    by_cases h4 : (answers 4).result < 0
    · simp [failed, closeFd, h2, h3, h4] at hrun
      obtain ⟨rfl, -⟩ := hrun
      refine iff_of_true ?_ (by omega)
      exact released_of_socket [(.getfd _, _), (.setfd _ _, _), (.connect _, _), (.register _, _)] rfl
        rfl (fun h => rfl) hregular
    · simp [h2, h3, h4] at hrun

theorem rawSocketpair_released
    (hrun : (Constructor.rawSocketpair.prog).run answers 0 = (calls, .error (.err e)))
    (hregular : (Holdings.before fds).Regular calls) :
    Released fds calls ↔ (answers 0).result = -1 := by
  unfold Constructor.prog rawSocketpair setCloexec at hrun
  by_cases h0 : (answers 0).result = -1
  · simp [failed, h0] at hrun
    obtain ⟨rfl, -⟩ := hrun
    refine iff_of_true ⟨?_, ?_⟩ h0
    · simp [opened, Call.created, h0]
    · simp [Holdings.after, Holdings.effect, Holdings.before, Call.created, h0]
  -- both sockets are bare numbers
  have hleft : closed calls = [] → opened calls = (answers 0).sockets →
      (Call.socketpair).Plausible (answers 0) → ¬ Released fds calls := by
    intro hclosed hopened hpair
    obtain ⟨first, hfirst⟩ := List.exists_mem_of_length_pos (l := (answers 0).sockets) (by
      rw [hpair h0]
      decide)
    exact not_released_of_open first (hopened ▸ hfirst) (hclosed ▸ List.not_mem_nil)
  by_cases h2 : (answers 2).result = -1
  · simp [failed, h0, h2] at hrun
    obtain ⟨rfl, -⟩ := hrun
    exact iff_of_false (hleft rfl (by simp [opened, Call.created, h0]) hregular.1) h0
  by_cases h4 : (answers 4).result = -1
  · simp [failed, h0, h2, h4] at hrun
    obtain ⟨rfl, -⟩ := hrun
    exact iff_of_false (hleft rfl (by simp [opened, Call.created, h0]) hregular.1) h0
  · simp [h0, h2, h4] at hrun

end Functions

/--
A constructor that fails has released all that it acquired, if and only if the failure is one of those
that leave nothing behind.
-/
theorem released_iff (k : Constructor) (answers : Nat → Answer) (fds : RawFd → Bool)
    {calls : List (Call × Answer)} {e : IoError}
    (hrun : k.prog.run answers 0 = (calls, .error (.err e)))
    (hregular : (Holdings.before fds).Regular calls) : Released fds calls ↔ k.Spared answers := by
  cases k with
  | sharedMemNew => exact sharedMemNew_released hrun hregular
  | sharedMemClone rwFd roFd access => exact sharedMemClone_released hrun
  | namedNew fits => exact namedNew_released hrun hregular
  | namedConnect fits => exact namedConnect_released hrun hregular
  | rawSocketpair => exact rawSocketpair_released hrun hregular

/-- Numbers that the system answers, zero in the end. -/
def numbers (results : List Int) (n : Nat) : Answer := .number (results.getD n 0)

/-- `ftruncate` fails, and both descriptors are closed. -/
theorem released_truncate : ∃ calls e,
    Constructor.sharedMemNew.prog.run (numbers [5, 6, 0, -1]) 0 = (calls, .error (.err e)) ∧
    opened calls = [5, 6] ∧ Released (fun fd => 0 ≤ fd ∧ fd < 5) calls :=
  ⟨_, _, rfl, rfl, (released_iff .sharedMemNew (numbers [5, 6, 0, -1]) _ rfl (by decide)).mpr
    (by unfold Constructor.Spared; decide)⟩

/-- The second `dup` of a clone fails, and nobody closes the first duplicate. -/
theorem clone_leaks : ∃ calls e,
    (Constructor.sharedMemClone (some 3) 4 .readWrite).prog.run (numbers [5, -1]) 0
      = (calls, .error (.err e)) ∧
    (Holdings.before fun fd => 0 ≤ fd ∧ fd < 5).Regular calls ∧
    ¬ Released (fun fd => 0 ≤ fd ∧ fd < 5) calls := by
  refine ⟨_, _, rfl, by decide, not_released_of_open 5 ?_ ?_⟩
  · decide
  · decide

end SandboxIpc.Unix
