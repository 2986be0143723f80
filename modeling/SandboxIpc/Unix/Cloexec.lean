import SandboxIpc.Unix.Syscalls

/-!
# Descriptors and child processes

A descriptor without `FD_CLOEXEC` is inherited by every process that is started. Most calls that make
one leave the flag clear, and the functions of the crate set it afterwards. The flag is something that a
function owes from the one call to the other.

* `cloexecDiscipline` — who leaves a descriptor without the flag, and who sets it
* `Op.spares`, `Spared` — the calls after which no `set_cloexec` follows are not made
* `Op.sound` — otherwise every function sets all the flags that it owes
* `Guarded` — every descriptor of the crate has the flag, or the function that is at work will set it
* `guarded_of_run` — it is the case if those calls are not made
* `clone_inherited` — a clone of a `SharedMem` is inherited by a child
-/

namespace SandboxIpc.Unix

open Infra

variable {libc : Libc}

/-! ## The flag as something that is owed -/

/-- A descriptor that a call leaves without the flag, and the call that sets it. Programs rely on
`fcntl` not to fail. -/
def cloexecDiscipline : Discipline Call Answer RawFd where
  incurs c a fd :=
    match c with
    | .setfd fd' cloexec => fd = fd' ∧ cloexec = false ∧ a.result ≠ -1
    | .inherit fd' => fd = fd' ∧ a.result = 0
    | .shmOpen => False
    | c => fd ∈ c.created a
  settles c fd := c = .setfd fd true
  regular c a :=
    match c with
    | .getfd _ => 0 ≤ a.result
    | .setfd _ _ => a.result ≠ -1
    | _ => True

section Lemmas

variable {allowed : Call → Answer → Prop} {fd fd' : RawFd}

theorem settles_setCloexec_self (next : Except IoError Unit → Program) :
    cloexecDiscipline.Settles fd (setCloexec fd next) :=
  .inr fun _ _ => .inl rfl

/-- On its way `set_cloexec` succeeds. -/
theorem settles_setCloexec {next : Except IoError Unit → Program}
    (h : cloexecDiscipline.Settles fd (next (.ok ()))) :
    cloexecDiscipline.Settles fd (setCloexec fd' next) := by
  refine .inr fun _ _ => .inr fun r hr => ?_
  dsimp only
  rw [if_neg hr]
  exact h

theorem settles_call {c : Call} {next : Answer → Program}
    (h : ∀ a, cloexecDiscipline.Settles fd (next a)) :
    cloexecDiscipline.Settles fd (.call c next) :=
  .inr fun a _ => h a

theorem settles_newWithHandle {next : Except IoError Unit → Program}
    (h : ∀ r, cloexecDiscipline.Settles fd (next r)) :
    cloexecDiscipline.Settles fd (newWithHandle fd' next) := by
  refine settles_call fun r => ?_
  split
  · exact settles_call fun _ => h _
  · exact h _

theorem sound_setCloexec {next : Except IoError Unit → Program}
    (h : ∀ r, cloexecDiscipline.Sound allowed (next r)) :
    cloexecDiscipline.Sound allowed (setCloexec fd next) := by
  refine Discipline.sound_of_quiet (fun _ _ => List.not_mem_nil) fun _ => ?_
  refine Discipline.sound_of_quiet ?_ fun _ => h _
  rintro a x ⟨-, hfalse, -⟩
  cases hfalse

/-- Who clears the flag has to set it again. -/
theorem sound_clearCloexec {next : Except IoError Unit → Program}
    (h : ∀ r, cloexecDiscipline.Sound allowed (next r))
    (hsettles : cloexecDiscipline.Settles fd (next (.ok ()))) :
    cloexecDiscipline.Sound allowed (clearCloexec fd next) := by
  refine Discipline.sound_of_quiet (fun _ _ => List.not_mem_nil) fun _ => ?_
  intro a _
  refine ⟨?_, h _⟩
  rintro x ⟨rfl, -, hr⟩
  dsimp only
  rw [if_neg hr]
  exact hsettles

theorem sound_closeFd {next : Program} (h : cloexecDiscipline.Sound allowed next) :
    cloexecDiscipline.Sound allowed (closeFd fd next) :=
  Discipline.sound_of_quiet (fun _ _ => List.not_mem_nil) fun _ => h

theorem sound_newWithHandle {next : Except IoError Unit → Program}
    (h : ∀ r, cloexecDiscipline.Sound allowed (next r)) :
    cloexecDiscipline.Sound allowed (newWithHandle fd next) := by
  refine Discipline.sound_of_quiet (fun _ _ => List.not_mem_nil) fun r => ?_
  split
  · exact sound_closeFd (h _)
  · exact h _

/-- Both sockets get the flag. -/
theorem sound_rawSocketpair (hmakes : ∀ c a, allowed c a → c.Plausible a)
    {next : Except IoError (RawFd × RawFd) → Program}
    (h : ∀ r, cloexecDiscipline.Sound allowed (next r)) :
    cloexecDiscipline.Sound allowed (rawSocketpair next) := by
  intro r hr
  dsimp only
  by_cases hfail : r.result = -1
  · rw [if_pos hfail]
    refine ⟨?_, h _⟩
    intro x hx
    have hx : x ∈ Call.socketpair.created r := hx
    unfold Call.created at hx
    rw [if_pos hfail] at hx
    cases hx
  · obtain ⟨first, second, hsockets⟩ := List.length_eq_two.mp (hmakes _ _ hr hfail)
    rw [if_neg hfail]
    refine ⟨?_, ?_⟩
    · intro x hx
      have hx : x ∈ Call.socketpair.created r := hx
      unfold Call.created at hx
      rw [if_neg hfail, hsockets] at hx
      rw [hsockets]
      rcases List.mem_cons.mp hx with rfl | hx
      · exact settles_setCloexec_self _
      · obtain rfl := List.mem_singleton.mp hx
        exact settles_setCloexec (settles_setCloexec_self _)
    · refine sound_setCloexec fun r => ?_
      split
      · exact h _
      · refine sound_setCloexec fun r => ?_
        split <;> exact h _

/-- A descriptor that is made gets the flag if the call was answered with one. -/
theorem sound_of_created {c : Call} {next : Answer → Program}
    (hincurs : ∀ a x, cloexecDiscipline.incurs c a x → x = a.result ∧ ¬ a.result < 0)
    (hsettles : ∀ a, allowed c a → ¬ a.result < 0 →
      cloexecDiscipline.Settles a.result (next a))
    (hnext : ∀ a, cloexecDiscipline.Sound allowed (next a)) :
    cloexecDiscipline.Sound allowed (.call c next) := by
  intro a ha
  refine ⟨?_, hnext a⟩
  intro x hx
  obtain ⟨rfl, hpos⟩ := hincurs a x hx
  exact hsettles a ha hpos

end Lemmas

/-! ## The functions that owe nothing in the end -/

/-- The decoder asks for this descriptor, if all that it has asked for before is in order. -/
def Decoder.Names {R : Type} (visible : List RawFd) (fd : RawFd) : Decoder R → Prop
  | .done _ => False
  | .fail _ => False
  | .sendableFd index next =>
    match visible[index]? with
    | none => (next (.error outOfRange.display)).Names visible fd
    | some fd' => fd' = fd ∨ (next (.ok fd')).Names visible fd

/-- The call, with this answer, is not one of those after which no `set_cloexec` follows: an `accept`
or a `clone` that gets a descriptor, the take-over of a descriptor without the flag, and the receipt
of a descriptor that the message does not name. -/
def Op.spares (op : Op libc) (c : Call) (a : Answer) : Prop :=
  match op, c with
  | .namedAccept _, .accept _ => a.result < 0
  | .sharedMemClone _ _ _, .dup _ => a.result < 0
  | .childIntoChannel _, .inherit _ => a.result ≠ 0
  | .receive _ cmsg length decode, .recvmsg fd =>
    ∀ fd' ∈ (Call.recvmsg fd).created a, a.datagram.bytes.take length ≠ [] ∧
      (decode (a.datagram.bytes.take length)).Names (sightOf cmsg a.datagram) fd'
  | _, _ => True

section Sound

variable {allowed : Call → Answer → Prop}

/-- A descriptor that is named gets the flag. -/
theorem settles_decoder {visible : List RawFd} {fd : RawFd} {d : Decoder (List RawFd)}
    (h : d.Names visible fd) : cloexecDiscipline.Settles fd (d.prog visible) := by
  induction d with
  | done value => cases h
  | fail failure => cases h
  | sendableFd index next ih =>
    unfold Decoder.Names at h
    unfold Decoder.prog
    refine settles_call fun _ => ?_
    unfold recvFd
    cases hfd : visible[index]? with
    | none =>
      rw [hfd] at h
      exact ih _ h
    | some fd' =>
      rw [hfd] at h
      refine .inr fun r hr => ?_
      have hr : 0 ≤ r.result := hr
      dsimp only
      rw [if_neg (Int.not_lt.mpr hr)]
      rcases h with rfl | h
      · exact settles_setCloexec_self _
      · exact settles_setCloexec (ih _ h)

theorem sound_decoder (visible : List RawFd) (d : Decoder (List RawFd)) :
    cloexecDiscipline.Sound allowed (d.prog visible) := by
  induction d with
  | done value => trivial
  | fail failure => trivial
  | sendableFd index next ih =>
    unfold Decoder.prog
    refine Discipline.sound_of_quiet (fun _ _ => List.not_mem_nil) fun _ => ?_
    unfold recvFd
    split
    · exact ih _
    · refine Discipline.sound_of_quiet (fun _ _ => List.not_mem_nil) fun r => ?_
      split
      · exact ih _
      · refine sound_setCloexec fun r => ?_
        cases r with
        | error e => exact ih _
        | ok _ => exact ih _

theorem created_result {c : Call} (hc : ∀ a, c.created a = if a.result < 0 then [] else [a.result])
    {a : Answer} {x : RawFd} (hx : x ∈ c.created a) : x = a.result ∧ ¬ a.result < 0 := by
  rw [hc] at hx
  split at hx
  · cases hx
  · next hpos => exact ⟨List.mem_singleton.mp hx, hpos⟩

theorem sound_sendFd (index : Nat) (fd : RawFd) {next : Except IoError Nat → Program}
    (h : ∀ r, cloexecDiscipline.Sound allowed (next r)) :
    cloexecDiscipline.Sound allowed (sendFd index fd next) := by
  unfold sendFd
  split
  · refine sound_of_created (fun a x hx => created_result (fun _ => rfl) hx) ?_ ?_
    · intro a _ hpos
      rw [if_neg hpos]
      exact settles_setCloexec_self _
    · intro a
      split
      · exact h _
      · refine sound_setCloexec fun r => ?_
        cases r with
        | error e => exact h _
        | ok _ => exact h _
  · exact h _

theorem sound_encoder (item : Encoder) (index : Nat) (cursor : Cursor) :
    cloexecDiscipline.Sound allowed (item.prog index cursor) := by
  induction item generalizing index cursor with
  | done => trivial
  | fail failure => trivial
  | write bytes next ih =>
    unfold Encoder.prog
    exact Discipline.sound_of_quiet (fun _ _ => List.not_mem_nil) fun _ => ih _ _ _
  | sendableFd fd next ih =>
    unfold Encoder.prog
    refine Discipline.sound_of_quiet (fun _ _ => List.not_mem_nil) fun _ => ?_
    refine sound_sendFd index fd fun r => ?_
    cases r with
    | error e => exact ih _ _ _
    | ok i => exact ih _ _ _

theorem sound_failed (e : IoError) : cloexecDiscipline.Sound allowed (failed e) := trivial

theorem sound_dropChildEnd (guard : Except IoError Unit) (b : RawFd) {next : Program}
    (h : cloexecDiscipline.Sound allowed next) :
    cloexecDiscipline.Sound allowed (dropChildEnd guard b next) := by
  unfold dropChildEnd
  split
  · exact sound_closeFd h
  · exact sound_setCloexec fun _ => sound_closeFd h

theorem settles_dropChildEnd (b : RawFd) (next : Program) :
    cloexecDiscipline.Settles b (dropChildEnd (.ok ()) b next) := by
  unfold dropChildEnd
  exact settles_setCloexec_self _

/-- The end of the child is only without the flag while the user launches it. -/
theorem sound_establishWithChild (hmakes : ∀ c a, allowed c a → c.Plausible a) :
    cloexecDiscipline.Sound allowed establishWithChild := by
  refine sound_rawSocketpair hmakes fun r => ?_
  rcases r with e | ⟨a, b⟩
  · exact sound_failed e
  · refine sound_clearCloexec (fun guard => ?_) ?_
    · refine Discipline.sound_of_quiet (fun _ _ => List.not_mem_nil) fun launched => ?_
      split
      · exact sound_dropChildEnd guard b (sound_closeFd (sound_failed _))
      · refine sound_newWithHandle fun r => ?_
        cases r with
        | error e => exact sound_dropChildEnd guard b (sound_failed e)
        | ok _ => exact sound_dropChildEnd guard b trivial
    · refine settles_call fun launched => ?_
      split
      · exact settles_dropChildEnd b _
      · refine settles_newWithHandle fun r => ?_
        cases r with
        | error e => exact settles_dropChildEnd b _
        | ok _ => exact settles_dropChildEnd b _

theorem sound_pair (hmakes : ∀ c a, allowed c a → c.Plausible a) :
    cloexecDiscipline.Sound allowed pair := by
  refine sound_rawSocketpair hmakes fun r => ?_
  rcases r with e | ⟨a, b⟩
  · exact sound_failed e
  · refine sound_newWithHandle fun r => ?_
    cases r with
    | error e => exact sound_closeFd (sound_failed e)
    | ok _ =>
      refine sound_newWithHandle fun r => ?_
      cases r with
      | error e => exact sound_closeFd (sound_failed e)
      | ok _ => trivial

theorem sound_prePair (hmakes : ∀ c a, allowed c a → c.Plausible a) :
    cloexecDiscipline.Sound allowed prePair := by
  refine sound_rawSocketpair hmakes fun r => ?_
  rcases r with e | ⟨a, b⟩
  · exact sound_failed e
  · trivial

theorem sound_preIntoChannel (fd : RawFd) :
    cloexecDiscipline.Sound allowed (preIntoChannel fd) := by
  refine sound_newWithHandle fun r => ?_
  cases r with
  | error e => exact sound_failed e
  | ok _ => trivial

/-- A new socket gets the flag at once. -/
theorem sound_socket {next : Answer → Except IoError Unit → Program}
    (h : ∀ a r, cloexecDiscipline.Sound allowed (next a r)) :
    cloexecDiscipline.Sound allowed (.call .socket fun a => setCloexec a.result (next a)) := by
  refine sound_of_created (fun a x hx => created_result (fun _ => rfl) hx) ?_ ?_
  · intro a _ _
    exact settles_setCloexec_self _
  · intro a
    exact sound_setCloexec (h a)

theorem sound_namedNew (fits : Bool) : cloexecDiscipline.Sound allowed (namedNew fits) := by
  refine sound_socket fun s r => ?_
  cases r with
  | error e => exact sound_closeFd (sound_failed e)
  | ok _ =>
    cases fits with
    | false => exact sound_closeFd trivial
    | true =>
      refine Discipline.sound_of_quiet (fun _ _ => List.not_mem_nil) fun r => ?_
      split
      · exact sound_closeFd (sound_failed _)
      · refine Discipline.sound_of_quiet (fun _ _ => List.not_mem_nil) fun r => ?_
        split
        · exact sound_closeFd (sound_failed _)
        · trivial

theorem sound_namedConnect (fits : Bool) : cloexecDiscipline.Sound allowed (namedConnect fits) := by
  refine sound_socket fun s r => ?_
  cases r with
  | error e => exact sound_failed e
  | ok _ =>
    cases fits with
    | false => trivial
    | true =>
      refine Discipline.sound_of_quiet (fun _ _ => List.not_mem_nil) fun r => ?_
      split
      · exact sound_failed _
      · exact sound_preIntoChannel s.result

theorem sound_sharedMemNew : cloexecDiscipline.Sound allowed sharedMemNew := by
  refine Discipline.sound_of_quiet (fun _ _ h => h) fun rw => ?_
  split
  · exact sound_failed _
  · refine Discipline.sound_of_quiet (fun _ _ h => h) fun ro => ?_
    split
    · exact sound_closeFd (sound_failed _)
    · refine Discipline.sound_of_quiet (fun _ _ => List.not_mem_nil) fun r => ?_
      split
      · exact sound_closeFd (sound_closeFd (sound_failed _))
      · refine Discipline.sound_of_quiet (fun _ _ => List.not_mem_nil) fun r => ?_
        split
        · exact sound_closeFd (sound_closeFd (sound_failed _))
        · trivial

/-- A `dup` of `SharedMem::clone` owes a `set_cloexec` unless it fails. -/
theorem sound_dup {fd : RawFd} {next : Answer → Program}
    (hfails : ∀ a, allowed (.dup fd) a → a.result < 0)
    (h : ∀ a, cloexecDiscipline.Sound allowed (next a)) :
    cloexecDiscipline.Sound allowed (.call (.dup fd) next) :=
  sound_of_created (fun _ _ hx => created_result (fun _ => rfl) hx)
    (fun a ha hpos => absurd (hfails a ha) hpos) h

end Sound

/-- The answers after which nothing is owed. -/
def Op.allowed (op : Op libc) (c : Call) (a : Answer) : Prop := c.Plausible a ∧ op.spares c a

theorem Op.sound (op : Op libc) : cloexecDiscipline.Sound op.allowed op.prog := by
  have hmakes : ∀ c a, op.allowed c a → c.Plausible a := fun _ _ h => h.1
  cases op with
  | pair => exact sound_pair hmakes
  | prePair => exact sound_prePair hmakes
  | preIntoChannel fd => exact sound_preIntoChannel fd
  | establishWithChild => exact sound_establishWithChild hmakes
  | childIntoChannel fd =>
    intro a ha
    refine ⟨?_, sound_preIntoChannel fd⟩
    rintro x ⟨-, hflag⟩
    exact absurd hflag ha.2
  | namedNew fits => exact sound_namedNew fits
  | namedAccept listener =>
    refine sound_of_created (fun _ _ hx => created_result (fun _ => rfl) hx)
      (fun a ha hpos => absurd ha.2 hpos) fun a => ?_
    split
    · exact sound_closeFd (sound_failed _)
    · refine sound_newWithHandle fun r => ?_
      cases r with
      | error e => exact sound_closeFd (sound_failed e)
      | ok _ => exact sound_closeFd trivial
  | namedConnect fits => exact sound_namedConnect fits
  | send item buffer => exact sound_encoder item 0 _
  | receive socket cmsg length decode =>
    intro a ha
    dsimp only
    refine ⟨fun x hx => ?_, ?_⟩
    · have hx : x ∈ (Call.recvmsg socket).created a := hx
      obtain ⟨hne, hnames⟩ := ha.2 x hx
      by_cases hfail : a.result < 0
      · have hx : x ∈ if a.result < 0 then [] else a.datagram.fds := hx
        rw [if_pos hfail] at hx
        cases hx
      · rw [if_neg hfail, if_neg hne]
        exact settles_decoder hnames
    · split
      · exact sound_failed _
      · split
        · trivial
        · exact sound_decoder _ _
  | sharedMemNew => exact sound_sharedMemNew
  | sharedMemClone rwFd roFd access =>
    cases access with
    | read =>
      refine sound_dup (fun a ha => ha.2) fun a => ?_
      split
      · exact sound_failed _
      · trivial
    | readWrite =>
      cases rwFd with
      | none => exact sound_failed _
      | some rwFd =>
        refine sound_dup (fun a ha => ha.2) fun rw => ?_
        split
        · exact sound_failed _
        · refine sound_dup (fun a ha => ha.2) fun ro => ?_
          split
          · exact sound_failed _
          · trivial

/-! ## Runs -/

namespace Proc

/-- Every open descriptor of the crate has the flag, or the function that has left it without is at
work and is going to set it. -/
def Guarded (s : Proc libc) : Prop :=
  ∀ fd e, s.table fd = some e → e.crate = true → e.cloexec = true ∨
    ∃ f ∈ s.stack, f.id = e.exposer ∧ cloexecDiscipline.Settles fd f.prog

/-- The step makes none of the calls after which no `set_cloexec` follows, and no function that still
has a flag to set uses `fcntl` on a closed descriptor. -/
def Spared (e : Proc libc × Act libc) : Prop :=
  match e.2, e.1.stack with
  | .answer a, ⟨id, op, .call c _⟩ :: _ =>
    op.spares c a ∧ (cloexecDiscipline.regular c a ∨
      ∀ fd e', e.1.table fd = some e' → e'.crate = true → e'.cloexec = false → e'.exposer ≠ id)
  | _, _ => True

end Proc

namespace Table

variable {t t' : Table} {id : Nat} {c : Call} {a : Answer} {fd : RawFd} {e : Entry}

theorem make_cases (h : t.make id c a = some t') (hfd : t' fd = some e) :
    c.Plausible a ∧ ((fd ∈ c.created a ∧ e = ⟨c.setsFlag, true, id⟩) ∨ t fd = some e) := by
  obtain ⟨⟨hmakes, -, -⟩, h⟩ := Option.ite_none_right_eq_some.mp h
  obtain rfl := Option.some.inj h
  refine ⟨hmakes, ?_⟩
  dsimp only at hfd
  split at hfd
  · next hmem => exact .inl ⟨hmem, (Option.some.inj hfd).symm⟩
  · exact .inr hfd

/-- A descriptor after an update is the updated one or as before. -/
theorem update_cases {fd' : RawFd} {x : Option Entry}
    (hfd : Function.update t fd' x fd = some e) : (fd = fd' ∧ x = some e) ∨ (fd ≠ fd' ∧ t fd = some e) := by
  by_cases heq : fd = fd'
  · subst heq
    rw [Function.update_self] at hfd
    exact .inl ⟨rfl, hfd⟩
  · rw [Function.update_of_ne heq] at hfd
    exact .inr ⟨heq, hfd⟩

/-- A descriptor has the flag after a call, or the call has left it without, or it is as before. -/
theorem effect_cases (h : t.effect id c a = some t') (hfd : t' fd = some e) :
    e.cloexec = true ∨ (cloexecDiscipline.incurs c a fd ∧ e.exposer = id) ∨
      (t fd = some e ∧ ¬ cloexecDiscipline.settles c fd) := by
  have hmake : ∀ {c : Call}, t.make id c a = some t' →
      (c.setsFlag = false → fd ∈ c.created a → cloexecDiscipline.incurs c a fd) →
      ¬ cloexecDiscipline.settles c fd →
      e.cloexec = true ∨ (cloexecDiscipline.incurs c a fd ∧ e.exposer = id) ∨
        (t fd = some e ∧ ¬ cloexecDiscipline.settles c fd) := by
    intro c h hincurs hnot
    rcases (make_cases h hfd).2 with ⟨hmem, rfl⟩ | hsame
    · cases hflag : c.setsFlag with
      | true => exact .inl rfl
      | false => exact .inr (.inl ⟨hincurs hflag hmem, rfl⟩)
    · exact .inr (.inr ⟨hsame, hnot⟩)
  cases c with
  | getfd fd' =>
    obtain ⟨-, h⟩ := Option.ite_none_right_eq_some.mp h
    obtain rfl := Option.some.inj h
    exact .inr (.inr ⟨hfd, nofun⟩)
  | setfd fd' cloexec =>
    unfold effect at h
    dsimp only at h
    cases ht : t fd' with
    | none =>
      rw [ht] at h
      obtain ⟨-, h⟩ := Option.ite_none_right_eq_some.mp h
      obtain rfl := Option.some.inj h
      refine .inr (.inr ⟨hfd, fun hset => ?_⟩)
      obtain ⟨rfl, -⟩ := Call.setfd.inj hset
      rw [ht] at hfd
      cases hfd
    | some e' =>
      rw [ht] at h
      obtain ⟨hzero, h⟩ := Option.ite_none_right_eq_some.mp h
      obtain rfl := Option.some.inj h
      rcases update_cases hfd with ⟨rfl, hnew⟩ | ⟨hne, hsame⟩
      · obtain rfl := Option.some.inj hnew
        cases cloexec with
        | true => exact .inl rfl
        | false => exact .inr (.inl ⟨⟨rfl, rfl, by rw [hzero]; decide⟩, rfl⟩)
      · refine .inr (.inr ⟨hsame, fun hset => ?_⟩)
        exact hne (Call.setfd.inj hset).1.symm
  | close fd' =>
    obtain rfl := Option.some.inj h
    rcases update_cases hfd with ⟨-, hnone⟩ | ⟨-, hsame⟩
    · cases hnone
    · exact .inr (.inr ⟨hsame, nofun⟩)
  | inherit fd' =>
    obtain ⟨hflag, h⟩ := Option.ite_none_right_eq_some.mp h
    obtain rfl := Option.some.inj h
    rcases update_cases hfd with ⟨rfl, hnew⟩ | ⟨-, hsame⟩
    · obtain ⟨e', he', hnew⟩ := Option.map_eq_some_iff.mp hnew
      unfold taken at hflag
      rw [he'] at hflag
      dsimp only at hflag
      cases hold : e'.crate with
      | true =>
        rw [if_pos hold] at hnew
        exact .inr (.inr ⟨he'.trans (congrArg some hnew), nofun⟩)
      | false =>
        rw [if_neg (by rw [hold]; decide)] at hnew
        subst hnew
        cases hcloexec : e'.cloexec with
        | true => exact .inl rfl
        | false =>
          rw [hold, hcloexec] at hflag
          exact .inr (.inl ⟨⟨rfl, hflag⟩, rfl⟩)
    · exact .inr (.inr ⟨hsame, nofun⟩)
  | shmOpen => exact hmake h nofun nofun
  | dup _ | accept _ | socket | socketpair | recvmsg _ | register _ | bind _ | listen _ | connect _
  | shmUnlink | ftruncate _ | user => exact hmake h (fun _ hmem => hmem) nofun

/-- What the kernel answers is plausible. -/
theorem plausible_of_effect (h : t.effect id c a = some t') : c.Plausible a := by
  cases c with
  | socketpair =>
    obtain ⟨⟨hmakes, -⟩, -⟩ := Option.ite_none_right_eq_some.mp h
    exact hmakes
  | _ => trivial

end Table

namespace Proc

/-- What the functions at work still owe is right, and so is what they will do. -/
structure InOrder (s : Proc libc) : Prop where
  guarded : Guarded s
  sound : ∀ f ∈ s.stack, cloexecDiscipline.Sound f.op.allowed f.prog

/-- The functions that are at work are still there. -/
theorem Guarded.mono {s s' : Proc libc} (h : Guarded s)
    (htable : ∀ fd e, s'.table fd = some e → e.crate = true → s.table fd = some e)
    (hstack : ∀ fd, ∀ f ∈ s.stack, cloexecDiscipline.Settles fd f.prog → f ∈ s'.stack) :
    Guarded s' := by
  intro fd e hfd hcrate
  rcases h fd e (htable fd e hfd hcrate) hcrate with hflag | ⟨f, hf, hid, hsettles⟩
  · exact .inl hflag
  · exact .inr ⟨f, hstack fd f hf hsettles, hid, hsettles⟩

theorem inOrder_step {s s' : Proc libc} {a : Act libc} (h : InOrder s) (hspared : Spared (s, a))
    (hs : step s a = some s') : InOrder s' := by
  cases a with
  | start op =>
    obtain ⟨-, hs⟩ := Option.ite_none_right_eq_some.mp hs
    obtain rfl := Option.some.inj hs
    refine ⟨h.guarded.mono (fun _ _ hfd _ => hfd) fun _ f hf _ => .tail _ hf, ?_⟩
    intro f hf
    rcases List.mem_cons.mp hf with rfl | hf
    · exact op.sound
    · exact h.sound f hf
  | drop fd =>
    obtain ⟨-, hs⟩ := Option.ite_none_right_eq_some.mp hs
    obtain rfl := Option.some.inj hs
    refine ⟨h.guarded.mono (fun fd' e hfd _ => ?_) fun _ f hf _ => hf, h.sound⟩
    rcases Table.update_cases hfd with ⟨-, hnone⟩ | ⟨-, hsame⟩
    · cases hnone
    · exact hsame
  | foreign fd cloexec =>
    obtain ⟨-, hs⟩ := Option.ite_none_right_eq_some.mp hs
    obtain rfl := Option.some.inj hs
    refine ⟨h.guarded.mono (fun fd' e hfd hcrate => ?_) fun _ f hf _ => hf, h.sound⟩
    rcases Table.update_cases hfd with ⟨-, hnew⟩ | ⟨-, hsame⟩
    · obtain rfl := Option.some.inj hnew
      cases hcrate
    · exact hsame
  | finish =>
    obtain ⟨table, stack, started⟩ := s
    rcases stack with _ | ⟨⟨id, op, prog⟩, rest⟩
    · cases hs
    · cases prog with
      | call c next => cases hs
      | done result =>
        obtain rfl := Option.some.inj hs
        refine ⟨h.guarded.mono (fun _ _ hfd _ => hfd) fun fd f hf hsettles => ?_,
          fun f hf => h.sound f (.tail _ hf)⟩
        -- a function that has ended owes nothing
        rcases List.mem_cons.mp hf with rfl | hf
        · cases hsettles
        · exact hf
  | answer a =>
    obtain ⟨table, stack, started⟩ := s
    rcases stack with _ | ⟨⟨id, op, prog⟩, rest⟩
    · cases hs
    · cases prog with
      | done result => cases hs
      | call c next =>
        obtain ⟨table', heffect, rfl⟩ := Option.map_eq_some_iff.mp hs
        obtain ⟨hspares, hregular⟩ := hspared
        obtain ⟨hsettles, hsound⟩ := Discipline.sound_next (h.sound _ (.head _))
          ⟨Table.plausible_of_effect heffect, hspares⟩
        refine ⟨?_, ?_⟩
        · intro fd e hfd hcrate
          cases hflag : e.cloexec with
          | true => exact .inl rfl
          | false =>
            right
            rcases Table.effect_cases heffect hfd with htrue | ⟨hincurs, hid⟩ | ⟨hsame, hnot⟩
            · rw [hflag] at htrue
              cases htrue
            · exact ⟨_, .head _, hid.symm, hsettles fd hincurs⟩
            · rcases h.guarded fd e hsame hcrate with htrue | ⟨f, hf, hid, howed⟩
              · rw [hflag] at htrue
                cases htrue
              · rcases List.mem_cons.mp hf with rfl | hf
                · -- it is this function that still has to set the flag
                  rcases hregular with hregular | hnone
                  · exact ⟨_, .head _, hid, Discipline.settles_next howed hnot hregular⟩
                  · exact absurd hid.symm (hnone fd e hsame hcrate hflag)
                · exact ⟨f, .tail _ hf, hid, howed⟩
        · intro f hf
          rcases List.mem_cons.mp hf with rfl | hf
          · exact hsound
          · exact h.sound f (.tail _ hf)

/--
Every descriptor that the crate has made, received or taken over has `FD_CLOEXEC`, in every state of
a run, but for those that the function at work is about to give it: after the call that made them, and
the end of a child while it is launched.

The run gets no descriptor from an `accept` or from a `dup` in `SharedMem::clone`, takes over no
descriptor that does not have the flag, and receives none that its message does not name. No function
that has a flag to set uses `fcntl` on a closed descriptor.
-/
theorem guarded_of_run {h : List (Proc libc × Act libc)} {s : Proc libc} (hr : Run system h s)
    (hspared : ∀ e ∈ h, Spared e) : Guarded s := by
  refine (hr.invariant_of Spared InOrder ?_ ?_ hspared).guarded
  · rintro s ⟨hnone, hstack, -⟩
    refine ⟨?_, ?_⟩
    · intro fd e hfd hcrate
      rw [hnone fd e hfd] at hcrate
      cases hcrate
    · rw [hstack]
      nofun
  · intro s a s' h hspared hs
    exact inOrder_step h hspared hs

/-! ## A clone -/

/-- A process with its standard descriptors. -/
def standard : Proc linux where
  table fd := if 0 ≤ fd ∧ fd ≤ 2 then some ⟨false, false, 0⟩ else none
  stack := []
  started := 0

theorem regular_of_nonneg {c : Call} {a : Answer} (h : 0 ≤ a.result) :
    cloexecDiscipline.regular c a := by
  cases c with
  | getfd fd => exact h
  | setfd fd cloexec => exact fun heq => by omega
  | _ => trivial

theorem system_standard : (system : System (Proc linux) (Act linux)).init standard := by
  refine ⟨?_, rfl, rfl⟩
  intro fd e hfd
  unfold standard at hfd
  dsimp only at hfd
  split at hfd
  · obtain rfl := Option.some.inj hfd
    rfl
  · cases hfd

/-- `establish_with_child` gets the sockets three and four, up to the launch of the child. -/
def launching : List (Act linux) :=
  [.start .establishWithChild, .answer ⟨0, 0, [3, 4], ⟨[], [], Nat.zero_le _⟩⟩,
    .answer (.number 0), .answer (.number 0), .answer (.number 0), .answer (.number 0),
    .answer (.number 1), .answer (.number 0)]

/-- While the child is launched, its end of the channel is the only one without the flag. -/
theorem guarded_launching : ∃ h, ∃ s : Proc linux, Run system h s ∧ h.map Prod.snd = launching ∧
    s.table.flag 3 = 1 ∧ s.table.flag 4 = 0 ∧ Guarded s := by
  have hr : Run system _ _ := Run.of_replay launching system_standard rfl
  refine ⟨_, _, hr, rfl, rfl, rfl, guarded_of_run hr ?_⟩
  intro e he
  rcases List.mem_cons.mp he with rfl | he
  · trivial
  · simp only [List.mem_cons, List.not_mem_nil, or_false] at he
    rcases he with rfl | rfl | rfl | rfl | rfl | rfl | rfl
    all_goals exact ⟨trivial, .inl (regular_of_nonneg (by decide))⟩

/-- `SharedMem::new` gets three and four, and a clone for reading gets five. -/
def cloning : List (Act linux) :=
  [.start .sharedMemNew, .answer (.number 3), .answer (.number 4), .answer (.number 0),
    .answer (.number 0), .finish, .start (.sharedMemClone (some 3) 4 .read), .answer (.number 5),
    .finish]

/-- No function is at work, and a child that is started now inherits the clone. -/
theorem clone_inherited : ∃ h, ∃ s : Proc linux, Run system h s ∧ h.map Prod.snd = cloning ∧
    s.stack.length = 0 ∧ s.table.flag 4 = 1 ∧ s.table.flag 5 = 0 ∧ ¬ Guarded s := by
  have hr : Run system _ _ := Run.of_replay cloning system_standard rfl
  refine ⟨_, _, hr, rfl, rfl, rfl, rfl, fun hguarded => ?_⟩
  rcases hguarded 5 _ rfl rfl with hflag | ⟨f, hf, -⟩
  · cases hflag
  · cases hf

end Proc

end SandboxIpc.Unix
