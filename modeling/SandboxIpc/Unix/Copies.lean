import SandboxIpc.Ser.Passes
import SandboxIpc.Unix.Receive
import SandboxIpc.Unix.World

/-!
# What a call duplicates, and what it hands over

* `Encoder.copies_of_run` — they are duplicates of those of the item, twice; the second ones are named
  in the bytes
* `run_of_accepted` — an item that is accepted has been serialized
* `State.received_of_datagram` — a value that is handed over has been deserialized
-/

namespace SandboxIpc.Unix

open Infra

variable {libc : Libc} {p : PointerWidth}

/-! ## Sending -/

theorem serveCopying_some (answers : Nat → DupAnswers) (n : Nat) (fd : RawFd) (s : HandleSender)
    (log : List (RawFd × RawFd)) : serveCopying answers n fd (some s, log)
      = ((s.send fd (answers n)).1.mapError IoError.display, some (s.send fd (answers n)).2,
        log ++ ((s.obtains fd (answers n)).map (fd, ·)).toList) := rfl

/-- Some descriptors that are served are numbered in their order, and duplicated. -/
theorem serve_copying {answers : Nat → DupAnswers} {fds : List RawFd} {n : Nat} {s : HandleSender}
    {log : List (RawFd × RawFd)} {indices : List Nat}
    {x : Option HandleSender × List (RawFd × RawFd)}
    (h : serve (serveCopying answers) fds n (some s, log) = (.ok indices, x)) :
    indices = List.range' s.index fds.length ∧ ∃ s' news, x = (some s', log ++ fds.zip news) ∧
      news.length = fds.length ∧ s'.recorded = s.recorded ++ news := by
  induction fds generalizing n s log indices with
  | nil =>
    obtain ⟨hindices, rfl⟩ := Prod.mk.inj h
    obtain rfl := Except.ok.inj hindices
    exact ⟨rfl, s, [], by simp, rfl, by simp⟩
  | cons fd fds ih =>
    rw [serve_cons, serveCopying_some] at h
    rcases hsend : s.send fd (answers n) with ⟨e | index, s'⟩
    · rw [hsend] at h
      cases h
    · obtain ⟨rfl, hindex, new, hnew, hrecorded⟩ := HandleSender.send_ok hsend
      rw [hsend, hnew] at h
      dsimp only [Except.mapError, Option.map_some, Option.toList_some] at h
      rcases hrest : serve (serveCopying answers) fds (n + 1) (some s', log ++ [(fd, new)]) with
        ⟨message | rest, y⟩
      · rw [hrest] at h
        cases h
      · rw [hrest] at h
        obtain ⟨hindices, rfl⟩ := Prod.mk.inj h
        obtain rfl := Except.ok.inj hindices
        obtain ⟨rfl, s'', news, rfl, hlength, hrest⟩ := ih hrest
        refine ⟨?_, s'', new :: news, ?_, congrArg (· + 1) hlength, ?_⟩
        · rw [hindex]
          rfl
        · rw [List.append_assoc]
          rfl
        · rw [hrest, hrecorded, List.append_assoc]
          rfl

/-- The list of what has been duplicated has no influence on the code. -/
theorem run_serveCopying (answers : Nat → DupAnswers) (code : Code RawFd Nat) (n : Nat)
    (s : Option HandleSender) (log : List (RawFd × RawFd)) (c : Cursor) :
    (code.run (serveFd answers) n s c)
      = ((code.run (serveCopying answers) n (s, log) c).1,
        (code.run (serveCopying answers) n (s, log) c).2.1.1,
        (code.run (serveCopying answers) n (s, log) c).2.2) := by
  induction code generalizing n s log c with
  | done => rfl
  | fail failure => rfl
  | write bytes next ih => exact ih _ n s log _
  | resource fd next ih => exact ih _ (n + 1) _ _ c

section Copies

variable [Bincode]

/-- What is written of an item, and what is duplicated for it, if the code asks for `fds` and writes the
answers after the first `k`. -/
theorem Encoder.copies_of_served {answers : Nat → DupAnswers} {code : Code RawFd Nat}
    {ps : List (Piece RawFd)} {fds : List RawFd} {k : Nat} {buffer : List UInt8} {writing : Writing}
    (hcode : ∀ {x c}, code.run (serveCopying answers) 0 (some .new, []) ⟨buffer, 0⟩ = (.ok (), x, c) →
      ∃ indices, serve (serveCopying answers) fds 0 (some .new, []) = (.ok indices, x) ∧
        c.written = render usizeBytes ps (indices.drop k))
    (hrun : (encoder code).run answers 0 ⟨some .new, ⟨buffer, 0⟩⟩ = (.ok (), writing)) :
    writing.cursor.written = render usizeBytes ps (List.range' k (fds.length - k)) ∧
      ∃ sender, writing.sender = some sender ∧ sender.recorded.length = fds.length ∧
        (encoder code).copies answers buffer = fds.zip sender.recorded := by
  unfold copies
  rw [run_code, code_encoder, run_serveCopying answers _ 0 (some .new) []] at hrun
  rw [code_encoder]
  obtain ⟨hok, rfl⟩ := Prod.mk.inj hrun
  rcases hrun : code.run (serveCopying answers) 0 (some .new, []) ⟨buffer, 0⟩ with ⟨result, x, c⟩
  rw [hrun] at hok
  obtain rfl : result = .ok () := hok
  obtain ⟨indices, hserve, hwritten⟩ := hcode hrun
  obtain ⟨rfl, s', news, rfl, hlength, hrecorded⟩ := serve_copying hserve
  obtain rfl : s'.recorded = news := hrecorded
  refine ⟨?_, s', rfl, hlength, rfl⟩
  rw [hwritten, List.drop_range', Nat.mul_one]
  exact congrArg (fun i => render usizeBytes ps (List.range' i _)) (Nat.zero_add _)

/-- An encoder that makes some passes asks for the descriptors of the item in each of them. -/
theorem Encoder.copies_of_passes {answers : Nat → DupAnswers} {limit : Nat} {ps : List (Piece RawFd)}
    {k : Nat} {buffer : List UInt8} {writing : Writing}
    (hrun : (encoder (.passes usizeBytes limit ps k)).run answers 0 ⟨some .new, ⟨buffer, 0⟩⟩
      = (.ok (), writing)) :
    writing.cursor.written
        = render usizeBytes ps (List.range' (k * (resources ps).length) (resources ps).length) ∧
      ∃ sender, writing.sender = some sender ∧
        sender.recorded.length = (repeated (k + 1) (resources ps)).length ∧
        (encoder (.passes usizeBytes limit ps k)).copies answers buffer
          = (repeated (k + 1) (resources ps)).zip sender.recorded := by
  have hcopies := copies_of_served (fun h => Code.passes_ok (Nat.zero_le _) h) hrun
  have hcount : (repeated (k + 1) (resources ps)).length - k * (resources ps).length
      = (resources ps).length := by
    rw [length_repeated, Nat.succ_mul, Nat.add_sub_cancel_left]
  rwa [hcount] at hcopies

/-- bincode asks for them twice. -/
theorem Encoder.copies_of_run {answers : Nat → DupAnswers} {limit : Nat} {ps : List (Piece RawFd)}
    {buffer : List UInt8} (hbuffer : buffer.length = limit) {writing : Writing}
    (hrun : (encoder (Bincode.serializeInto usizeBytes limit ps)).run answers 0
      ⟨some .new, ⟨buffer, 0⟩⟩ = (.ok (), writing)) :
    writing.cursor.written
        = render usizeBytes ps (List.range' (resources ps).length (resources ps).length) ∧
      ∃ sender, writing.sender = some sender ∧
        sender.recorded.length = (resources ps ++ resources ps).length ∧
        (encoder (Bincode.serializeInto usizeBytes limit ps)).copies answers buffer
          = (resources ps ++ resources ps).zip sender.recorded := by
  have hwidth : ∀ n fd x index, (serveCopying answers n fd x).1 = .ok index →
      (usizeBytes index).length = 8 := fun _ _ _ index _ => length_usizeBytes index
  have htwice := Bincode.twice usizeBytes limit ps
  have hcode : ∀ {x c}, (Bincode.serializeInto usizeBytes limit ps).run (serveCopying answers) 0
      (some .new, []) ⟨buffer, 0⟩ = (.ok (), x, c) →
      ∃ indices, serve (serveCopying answers) (resources ps ++ resources ps) 0 (some .new, [])
          = (.ok indices, x) ∧
        c.written = render usizeBytes ps (indices.drop (resources ps).length) := by
    intro x c h
    by_cases hfits : size (fun _ => 8) ps ≤ limit
    · obtain ⟨c', heq, hrender⟩ := htwice.run_fits hwidth hfits (some HandleSender.new, []) hbuffer
      rw [heq] at h
      rcases hserve : serve (serveCopying answers) (resources ps ++ resources ps) 0 (some .new, [])
        with ⟨message | indices, x'⟩
      · rw [hserve] at h
        cases h
      · rw [hserve] at h
        obtain ⟨rfl, rfl⟩ := Prod.mk.inj (Prod.mk.inj h).2
        exact ⟨indices, rfl, hrender indices (by rw [hserve])⟩
    · obtain ⟨failure, x', heq⟩ := htwice.run_large hwidth (Nat.lt_of_not_le hfits)
        (some HandleSender.new, []) ⟨buffer, 0⟩
      rw [heq] at h
      cases h
  have hcount : (resources ps ++ resources ps).length - (resources ps).length
      = (resources ps).length := by
    rw [List.length_append, Nat.add_sub_cancel]
  have hcopies := copies_of_served hcode hrun
  rwa [hcount] at hcopies

/-- Only descriptors of the item are duplicated. -/
theorem Encoder.mem_of_copies {answers : Nat → DupAnswers} {limit : Nat} {ps : List (Piece RawFd)}
    {buffer : List UInt8} {c : RawFd × RawFd}
    (h : c ∈ (encoder (Bincode.serializeInto usizeBytes limit ps)).copies answers buffer) :
    c.1 ∈ resources ps := by
  have hserve : ∀ n fd (x : Option HandleSender × List (RawFd × RawFd)), fd ∈ resources ps →
      (∀ c ∈ x.2, c.1 ∈ resources ps) →
      ∀ c ∈ (serveCopying answers n fd x).2.2, c.1 ∈ resources ps := by
    intro n fd x hfd hx c hc
    rcases List.mem_append.mp hc with hc | hc
    · exact hx c hc
    · obtain ⟨new, -, rfl⟩ := Option.map_eq_some_iff.mp (Option.mem_toList.mp hc)
      exact hfd
  unfold copies at h
  rw [code_encoder] at h
  have hwithin : (Bincode.serializeInto usizeBytes limit ps : Code RawFd Nat).Within
    (· ∈ resources ps) := (Bincode.twice usizeBytes limit ps).within
  exact Code.run_within (P := fun x : Option HandleSender × List (RawFd × RawFd) =>
    ∀ c ∈ x.2, c.1 ∈ resources ps) hserve hwithin 0 (s := (some .new, [])) (List.forall_mem_nil _)
    ⟨buffer, 0⟩ c h

end Copies

/-- An item that is accepted has been serialized. -/
theorem run_of_accepted {T : Type} {encode : T → Encoder} {s : State libc} {a : Act T} {m : Message}
    (h : accepted encode s a = some m) : ∃ item w answers writing sender,
      a = .startSend item w answers ∧
      (s.channel.pollComplete libc.eagain (MessageChannel.write w)).1 = .ok (.ready ()) ∧
      (encode item).run answers 0 ⟨some .new, ⟨s.channel.txBuffer, 0⟩⟩ = (.ok (), writing) ∧
      writing.sender = some sender ∧ m = ⟨writing.cursor.written, sender.recorded⟩ := by
  cases a with
  | pollComplete w => cases h
  | poll r answers => cases h
  | startSend item w answers =>
    rcases s.channel.startSend_cases (serialize answers encode) item s.context with
      ⟨r, hr, heq⟩ | ⟨hready, heq⟩
    · rw [accepted_of_ne encode (by rw [heq]; exact hr)] at h
      cases h
    · have htx := (flush_pollComplete w s.channel).txBuffer_eq
      rcases serialize_cases encode answers item
        ⟨(s.channel.pollComplete libc.eagain (MessageChannel.write w)).2.txBuffer, 0⟩
        (s.channel.pollComplete libc.eagain (MessageChannel.write w)).2.io s.context with
        ⟨failure, hfail, -, -⟩ | ⟨writing, sender, cmsg, hrun, hsender, hset, hser⟩
      · rw [BincodeDatagram.store_of_error hfail] at heq
        rw [accepted_of_ne encode (by rw [heq]; nofun)] at h
        cases h
      · rw [BincodeDatagram.store_of_ok hser] at heq
        rw [htx] at hrun
        refine ⟨item, w, answers, writing, sender, rfl, hready, hrun, hsender, ?_⟩
        unfold accepted at h
        dsimp only at h
        rw [heq, hrun] at h
        dsimp only at h
        rw [hsender] at h
        exact (Option.some.inj h).symm

/-! ## Receiving -/

theorem State.received_of_datagram {R : Type} {decode : List UInt8 → Decoder R} {s : State libc}
    {r : ReadAnswers} {answers : Nat → FcntlAnswers} {x : R} {d : Datagram}
    (hd : r.outcome = some (.ok d)) (h : s.received decode r answers = some x) :
    d.bytes.take s.channel.rxBuffer.length ≠ [] ∧
      ((decode (d.bytes.take s.channel.rxBuffer.length)).run answers
        (some (.ofCmsg (s.channel.io.cmsg.recvmsg (.ok d)))) 0).2 = .ok x := by
  unfold received at h
  split at h
  · next x' hpoll =>
    obtain rfl := Option.some.inj h
    obtain ⟨message, hread, hne, hresult⟩ := BincodeDatagram.message_of_poll _ hpoll
    obtain ⟨d', hd', rfl⟩ := MessageChannel.read_ok_iff.mp hread
    obtain rfl := Except.ok.inj (Option.some.inj (hd.symm.trans hd'))
    have hio := s.channel.io.read_snd r s.channel.rxBuffer.length
    rw [hd] at hio
    rw [hio] at hresult
    exact ⟨hne, hresult⟩
  · cases h

/-- The other way round. -/
theorem State.received_of_run {R : Type} {decode : List UInt8 → Decoder R} {s : State libc}
    {r : ReadAnswers} {answers : Nat → FcntlAnswers} {x : R} {d : Datagram}
    (hd : r.outcome = some (.ok d)) (hwhole : d.bytes.length ≤ s.channel.rxBuffer.length)
    (hne : d.bytes ≠ []) (h : ((decode d.bytes).run answers
      (some (.ofCmsg (s.channel.io.cmsg.recvmsg (.ok d)))) 0).2 = .ok x) :
    s.received decode r answers = some x := by
  have hread : (s.channel.io.read r s.channel.rxBuffer.length).1 = .ok d.bytes :=
    MessageChannel.read_ok_iff.mpr ⟨d, hd, (List.take_of_length_le hwhole).symm⟩
  have hio := s.channel.io.read_snd r s.channel.rxBuffer.length
  rw [hd] at hio
  have hresult : (deserialize answers decode d.bytes (s.channel.io.read r s.channel.rxBuffer.length).2
      s.context).result = .ok x := by
    rw [hio]
    exact h
  unfold received
  rw [BincodeDatagram.poll_of_message libc.eagain hread hne hresult]

end SandboxIpc.Unix
