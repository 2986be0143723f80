import SandboxIpc.Windows.Adoption

/-!
# What a call duplicates, and what it closes

* `copies`, `closes` — the handles that a call makes in the target, and those that it closes there
* `closes_subset` — a call closes nothing but what it has made
* `next_spec` — a call forwards what was pending, or accepts an item and duplicates its handles twice
-/

namespace SandboxIpc.Windows

open Infra

variable {p : PointerWidth} {limit : Nat}

/-- The handle that is duplicated for a resource, with the one that is made of it. -/
def duplicated : Resource → Except String Sent → List (Handle × Handle)
  | .handle handle, .ok (.handle remote) => [(handle, remote)]
  | _, _ => []

/-- `serveResource` with a list of what is duplicated. -/
def serveCopying (answers : Nat → SendAnswers) (n : Nat) (r : Resource)
    (x : Making × List (Handle × Handle)) :
    Except String Sent × Making × List (Handle × Handle) :=
  let (answer, making) := serveResource answers n r x.1
  (answer, making, x.2 ++ duplicated r answer)

theorem serveCopying_eq {answers : Nat → SendAnswers} {n : Nat} {r : Resource}
    {making making' : Making} {answer : Except String Sent} (h : serveResource answers n r making = (answer, making'))
    (log : List (Handle × Handle)) :
    serveCopying answers n r (making, log) = (answer, making', log ++ duplicated r answer) := by
  unfold serveCopying
  rw [h]

/-- All that has been made is in the list, and the sender has taken note of it. -/
def Logged (target : HandleTarget) (made : List Handle) : Making × List (Handle × Handle) → Prop
  | (making, log) => making = ⟨some ⟨target, log.map Prod.snd⟩, made ++ log.map Prod.snd⟩

theorem logged_serveCopying {target : HandleTarget} {made : List Handle}
    (answers : Nat → SendAnswers) (n : Nat) (r : Resource) (x : Making × List (Handle × Handle))
    (hx : Logged target made x) : Logged target made (serveCopying answers n r x).2 := by
  obtain ⟨making, log⟩ := x
  obtain rfl : making = _ := hx
  cases r with
  | socket socket => simp [serveCopying, serveResource, duplicated, Logged]
  | handle handle =>
    unfold serveCopying serveResource SendableWinHandle.serialize
    dsimp only
    rcases HandleSender.send_cases ⟨target, log.map Prod.snd⟩ handle (answers n) with
      ⟨e, hsend⟩ | ⟨remote, hsend⟩
    · rw [hsend]
      simp [duplicated, Except.map, Logged]
    · rw [hsend]
      simp [duplicated, Except.map, Logged]

theorem duplicated_of_answers {r : Resource} {sent : Sent} (h : Answers r sent) :
    duplicated r (.ok sent) = (handlesOf [r]).zip (remotes [sent]) := by
  cases h with
  | handle handle remote => rfl
  | socket socket info => rfl

/-- What is served is in the list. -/
theorem serve_copying {answers : Nat → SendAnswers} {rs : List Resource} {n : Nat} {making : Making}
    {sent : List Sent} (h : (serve (serveResource answers) rs n making).1 = .ok sent)
    (log : List (Handle × Handle)) :
    (serve (serveCopying answers) rs n (making, log)).1 = .ok sent ∧
      (serve (serveCopying answers) rs n (making, log)).2.2
        = log ++ (handlesOf rs).zip (remotes sent) := by
  induction rs generalizing n making log sent with
  | nil =>
    obtain rfl := Except.ok.inj h
    exact ⟨rfl, (List.append_nil _).symm⟩
  | cons r rs ih =>
    have hall := answers_of_serve answers (r :: rs) n making h
    rw [serve_cons] at h ⊢
    rcases hfirst : serveResource answers n r making with ⟨message | first, making'⟩
    · rw [hfirst] at h
      cases h
    · rw [hfirst] at h
      rw [serveCopying_eq hfirst]
      dsimp only at h ⊢
      cases hrest : (serve (serveResource answers) rs (n + 1) making').1 with
      | error message =>
        rw [hrest] at h
        cases h
      | ok rest =>
        rw [hrest] at h
        obtain rfl : first :: rest = sent := Except.ok.inj h
        obtain ⟨hok, hlog⟩ := ih hrest (log ++ duplicated r (.ok first))
        obtain ⟨hanswers, -⟩ := List.forall₂_cons.mp hall
        rw [hok, hlog, duplicated_of_answers hanswers, List.append_assoc]
        refine ⟨rfl, ?_⟩
        cases hanswers with
        | handle handle remote => rfl
        | socket socket info => rfl

/-- The list has no influence on the code. -/
theorem run_serveCopying (answers : Nat → SendAnswers) (code : Code Resource Sent) (n : Nat)
    (making : Making) (log : List (Handle × Handle)) (c : Cursor) :
    code.run (serveResource answers) n making c
      = ((code.run (serveCopying answers) n (making, log) c).1,
        (code.run (serveCopying answers) n (making, log) c).2.1.1,
        (code.run (serveCopying answers) n (making, log) c).2.2) := by
  induction code generalizing n making log c with
  | done => rfl
  | fail failure => rfl
  | write bytes next ih => exact ih _ n making log _
  | resource r next ih => exact ih _ (n + 1) _ _ c

section Calls

/-- A pipe that takes a message takes all of it and says so. -/
def whole (s : State) : Except IoError Nat → Bool
  | .error _ => true
  | .ok written => s.bufferedSend.all (· == written)

def Act.whole {T R : Type} (s : State) : Act T R → Bool
  | .startSend _ w _ => Windows.whole s w
  | .pollComplete w => Windows.whole s w
  | .poll _ _ => true

variable {s : State}

/-- What is pending stays where it is, or the pipe has it now. -/
def Forwards (s s' : State) : Prop :=
  (s'.io.pipe.sent = s.io.pipe.sent ∧ s'.pending = s.pending) ∨
    s'.io.pipe.sent = s.io.pipe.sent ++ s.pending ∧ s'.pending = []

theorem forwards_pollComplete {w : Except IoError Nat} (h : whole s w = true) :
    Forwards s (s.pollComplete wsaewouldblock (MessageChannel.write w)).2 := by
  unfold whole at h
  unfold Forwards BincodeDatagram.pending BincodeDatagram.pollComplete MessageChannel.write
  cases hb : s.bufferedSend with
  | none =>
    dsimp only
    rw [hb]
    exact .inl ⟨rfl, rfl⟩
  | some n =>
    dsimp only
    cases w with
    | error e =>
      exact .inl ⟨rfl, rfl⟩
    | ok written =>
      rw [hb] at h
      obtain rfl : n = written := eq_of_beq h
      dsimp only
      rw [if_pos rfl]
      exact .inr ⟨rfl, rfl⟩

/-- The pipe has all there was. -/
theorem Forwards.sent_of_ready {s' : State} (h : Forwards s s') (hnone : s'.bufferedSend = none) :
    s'.io.pipe.sent = s.io.pipe.sent ++ s.pending := by
  rcases h with ⟨hsent, hpending⟩ | ⟨hsent, -⟩
  · have hnil : s.pending = [] := by
      rw [← hpending]
      unfold BincodeDatagram.pending
      rw [hnone]
    rw [hsent, hnil, List.append_nil]
  · exact hsent

section Accepted

variable {T R : Type} {encode : T → Code Resource Sent} {item : T} {w : Except IoError Nat}
  {a : SerializeAnswers}

theorem accepted_of_ready {m : List UInt8} (h : (startSend encode s item w a).1 = .ok .ready)
    (hpending : (startSend encode s item w a).2.pending = [m]) :
    accepted encode s (.startSend item w a : Act T R) = some (item, m) := by
  dsimp only [accepted]
  generalize startSend encode s item w a = out at h hpending
  obtain ⟨result, s'⟩ := out
  obtain rfl : result = .ok .ready := h
  unfold BincodeDatagram.pending at hpending
  cases hb : s'.bufferedSend with
  | none =>
    rw [hb] at hpending
    cases hpending
  | some n =>
    rw [hb] at hpending
    dsimp only at hpending ⊢
    rw [hb, Option.map_some, (List.cons.inj hpending).1]

theorem accepted_of_not_ready (h : (startSend encode s item w a).1 ≠ .ok .ready) :
    accepted encode s (.startSend item w a : Act T R) = none := by
  dsimp only [accepted]
  generalize startSend encode s item w a = out at h
  obtain ⟨result, s'⟩ := out
  split
  · next heq => exact absurd (congrArg Prod.fst heq) h
  · rfl

end Accepted

variable [Bincode]

/-- The handles that a call duplicates, each with the one that is made of it in the target. -/
def copies (limit : Nat) (s : State) : Act (Payload p) Unit → List (Handle × Handle)
  | .startSend item w a =>
    match s.pollComplete wsaewouldblock (MessageChannel.write w) with
    | (.ok (.ready ()), d) =>
      ((Payload.encode limit item).run (serveCopying a.send) 0
        (⟨some ⟨d.io.target, []⟩, d.io.made⟩, []) ⟨d.txBuffer, 0⟩).2.1.2
    | _ => []
  | _ => []

/-- The handles in the target that a call closes. -/
def closes (limit : Nat) (s : State) (a : Act (Payload p) Unit) : List Handle :=
  (next (Payload.encode limit) s a).io.closed.drop s.io.closed.length

theorem copies_of_ready {w : Except IoError Nat} (item : Payload p) (a : SerializeAnswers)
    (h : (s.pollComplete wsaewouldblock (MessageChannel.write w)).1 = .ok (.ready ())) :
    copies limit s (.startSend item w a)
      = ((Payload.encode limit item).run (serveCopying a.send) 0
        (⟨some ⟨(s.pollComplete wsaewouldblock (MessageChannel.write w)).2.io.target, []⟩,
          (s.pollComplete wsaewouldblock (MessageChannel.write w)).2.io.made⟩, [])
        ⟨(s.pollComplete wsaewouldblock (MessageChannel.write w)).2.txBuffer, 0⟩).2.1.2 := by
  dsimp only [copies]
  generalize s.pollComplete wsaewouldblock (MessageChannel.write w) = flushed at h
  obtain ⟨result, d⟩ := flushed
  obtain rfl : result = .ok (.ready ()) := h
  rfl

/-- Only what has been made for this item is closed. -/
theorem closes_subset (a : Act (Payload p) Unit) :
    ∀ handle ∈ closes limit s a, handle ∈ (copies limit s a).map Prod.snd := by
  have hnone : ∀ s' : State, s'.io.closed = s.io.closed →
      s'.io.closed.drop s.io.closed.length = [] := by
    intro s' heq
    rw [heq, List.drop_length]
  unfold closes
  cases a with
  | pollComplete w =>
    dsimp only [next]
    rw [hnone _ (flush_pollComplete w s).closed_eq]
    nofun
  | poll r decode =>
    have hpoll : (next (Payload.encode (p := p) limit) s (.poll r decode)).io.closed
        = s.io.closed := by
      dsimp only [next]
      rcases s.poll_cases wsaewouldblock (MessageChannel.read r) (deserialize decode) () with
        ⟨-, result, rx, heq⟩ | ⟨result, rx, message, -, -, heq⟩
      all_goals rw [heq]; rfl
    rw [hnone _ hpoll]
    nofun
  | startSend item w a =>
    have hclosed := (flush_pollComplete w s).closed_eq
    dsimp only [next, startSend]
    rcases s.startSend_cases (serialize a (Payload.encode limit)) item () with
      ⟨r, -, heq⟩ | ⟨hdone, heq⟩
    · rw [heq, hnone _ hclosed]
      nofun
    · rw [heq, BincodeDatagram.io_store, copies_of_ready item a hdone]
      generalize (s.pollComplete wsaewouldblock (MessageChannel.write w)).2 = d at hclosed ⊢
      -- the drop of the sender closes what the sender has taken note of
      have hlogged : Logged d.io.target d.io.made
          ((Payload.encode limit item).run (serveCopying a.send) 0
            (⟨some ⟨d.io.target, []⟩, d.io.made⟩, []) ⟨d.txBuffer, 0⟩).2.1 :=
        Code.run_invariant (logged_serveCopying a.send) _ 0 (by simp [Logged]) _
      have hrun := run_serveCopying a.send (Payload.encode limit item) 0
        ⟨some ⟨d.io.target, []⟩, d.io.made⟩ [] ⟨d.txBuffer, 0⟩
      generalize (Payload.encode limit item).run (serveCopying a.send) 0
        (⟨some ⟨d.io.target, []⟩, d.io.made⟩, []) ⟨d.txBuffer, 0⟩ = out at hlogged hrun ⊢
      obtain ⟨answer, ⟨making, log⟩, cursor⟩ := out
      obtain rfl : making = _ := hlogged
      have hdrop : ∀ handles, ∀ handle ∈ HandleSender.drop ⟨d.io.target, handles⟩ a.close,
          handle ∈ handles := by
        intro handles handle hmem
        unfold HandleSender.drop at hmem
        dsimp only at hmem
        split at hmem
        · exact List.mem_of_mem_filter hmem
        · exact List.mem_of_mem_filter hmem
        · cases hmem
      intro handle hmem
      unfold serialize at hmem
      rw [hrun] at hmem
      dsimp only at hmem
      cases answer with
      | error failure =>
        dsimp only [Making.leave, Making.dropSender] at hmem
        rw [hclosed, List.drop_left] at hmem
        exact hdrop _ handle hmem
      | ok _ =>
        dsimp only [commit, Making.leave, Making.dropSender] at hmem
        rw [hclosed, List.drop_left] at hmem
        exact absurd (hdrop _ handle hmem) nofun

/-- The handles of an item are duplicated in both passes. -/
theorem copies_of_answers {item : Payload p} {io : MessageChannel} {a : SerializeAnswers}
    {sent : List Sent} (h : item.answers io a = .ok sent) {buffer : List UInt8}
    (hfits : item.size ≤ buffer.length) :
    ((Payload.encode buffer.length item).run (serveCopying a.send) 0
        (⟨some ⟨io.target, []⟩, io.made⟩, []) ⟨buffer, 0⟩).2.1.2
      = (handlesOf (item.resources ++ item.resources)).zip (remotes sent) := by
  have hwidth : ∀ n r x sent, (serveCopying a.send n r x).1 = .ok sent →
      sent.content.length = r.width := fun n r x sent hx => length_serveResource n r x.1 sent hx
  obtain ⟨cursor, hrun, -⟩ := (Bincode.twice Sent.content buffer.length item.serialization).run_fits
    hwidth hfits (⟨some ⟨io.target, []⟩, io.made⟩, []) rfl
  unfold Payload.encode
  rw [hrun]
  exact (serve_copying h []).2.trans (List.nil_append _)

/-- A call that accepts nothing only forwards, and one that accepts an item has made a message of it
and duplicated its handles twice. -/
theorem next_spec (hs : s.Sized limit) {a : Act (Payload p) Unit} (hwhole : a.whole s = true) :
    (accepted (Payload.encode limit) s a = none ∧
      Forwards s (next (Payload.encode limit) s a)) ∨
    ∃ item w answers sent, a = .startSend item w answers ∧
      item.answers s.io answers = .ok sent ∧ item.size ≤ limit ∧
      (accepted (Payload.encode limit) s a).isSome = true ∧
      (next (Payload.encode limit) s a).io.pipe.sent = s.io.pipe.sent ++ s.pending ∧
      (next (Payload.encode limit) s a).pending
        = [render Sent.content item.serialization (sent.drop item.resources.length)] ∧
      copies limit s a = (handlesOf (item.resources ++ item.resources)).zip (remotes sent) ∧
      closes limit s a = [] := by
  cases a with
  | pollComplete w => exact .inl ⟨rfl, forwards_pollComplete hwhole⟩
  | poll r decode =>
    refine .inl ⟨rfl, ?_⟩
    dsimp only [next]
    rcases s.poll_cases wsaewouldblock (MessageChannel.read r) (deserialize decode) () with
      ⟨-, result, rx, heq⟩ | ⟨result, rx, message, -, -, heq⟩
    all_goals rw [heq]; exact .inl ⟨rfl, rfl⟩
  | startSend item w a =>
    have hforwards := forwards_pollComplete (w := w) hwhole
    by_cases hfree : WayFree s w
    · have hready := pollComplete_ready_iff.mpr hfree
      have hsent := hforwards.sent_of_ready (BincodeDatagram.bufferedSend_of_ready hready)
      have hpipe : (next (Payload.encode limit) s
          (.startSend item w a : Act (Payload p) Unit)).io.pipe.sent
          = s.io.pipe.sent ++ s.pending := by
        dsimp only [next]
        unfold startSend
        rw [BincodeDatagram.startSend_of_ready hready, BincodeDatagram.io_store]
        exact (congrArg Pipe.sent (serialize_frame _ a item _ _).1).trans hsent
      rcases startSend_payload hs item hfree a with
        ⟨hfits, sent, hanswers, hok, -, hclosed, -, hpending⟩ | ⟨-, stop, herror⟩
      · refine .inr ⟨item, w, a, sent, rfl, hanswers, hfits, ?_, hpipe, hpending, ?_, ?_⟩
        · rw [accepted_of_ready hok hpending]
          rfl
        · have hflush := flush_pollComplete w s
          have hsized := (hs.pollComplete wsaewouldblock (MessageChannel.write w)).length
          rw [copies_of_ready item a hready]
          generalize (s.pollComplete wsaewouldblock (MessageChannel.write w)).2 = d
            at hflush hsized ⊢
          have hio : item.answers d.io a = .ok sent := by
            unfold Payload.answers at hanswers ⊢
            rwa [hflush.target_eq, hflush.made_eq]
          subst hsized
          exact copies_of_answers hio hfits
        · unfold closes
          dsimp only [next]
          rw [hclosed, List.drop_length]
      · refine .inl ⟨accepted_of_not_ready (by rw [herror]; nofun), .inr ⟨hpipe, ?_⟩⟩
        -- what was pending is gone, and nothing has come in its place
        dsimp only [next]
        unfold startSend at herror ⊢
        rw [BincodeDatagram.startSend_of_ready hready] at herror ⊢
        have hnone := BincodeDatagram.bufferedSend_of_ready hready
        generalize (s.pollComplete wsaewouldblock (MessageChannel.write w)).2 = d
          at herror hnone ⊢
        unfold BincodeDatagram.store at herror ⊢
        dsimp only at herror ⊢
        cases hresult :
          (serialize a (Payload.encode limit) item ⟨d.txBuffer, 0⟩ d.io ()).result with
        | ok _ =>
          rw [hresult] at herror
          cases herror
        | error failure =>
          unfold BincodeDatagram.pending
          dsimp only
          rw [hnone]
    · have hblocked : (startSend (Payload.encode limit) s item w a).1 ≠ .ok .ready :=
        startSend_of_blocked hfree item a
      refine .inl ⟨accepted_of_not_ready hblocked, ?_⟩
      dsimp only [next]
      unfold startSend
      rcases s.startSend_cases (serialize a (Payload.encode limit)) item () with
        ⟨r, -, heq⟩ | ⟨hdone, -⟩
      · rw [heq]
        exact hforwards
      · exact absurd (pollComplete_ready_iff.mp hdone) hfree

end Calls

end SandboxIpc.Windows
