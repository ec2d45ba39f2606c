import AsyncNetLob.NetLifecycleProofs
import AsyncNetLob.NetWorkProofs

/-! # A session comes to rest with every request answered

    A peer may write its bytes while the session is already at work.  Bytes that come
    later change nothing in the steps that were taken without them
    (`Session.Step.receive`), so a session that is fed bit by bit does nothing that it
    could not have done with the whole stream before it.

    From this it follows that a peer which keeps to the protocol is never hung up on
    (`Patient.open_of_frames`): were the session about to stop, it would stop on a
    stream that goes on with a frame.  When such a session can go no further, it has
    handed over every frame that is complete and sent every reply (`opened_settles`). -/

namespace AsyncNet

open Protocol PrefixCode Transition

/-- The peer writes bytes. -/
def Session.receive (s : Session) (bytes : Bytes) : Session :=
  { s with incoming := s.incoming ++ bytes }

/-- Nothing but the session itself stops the session, and its peer does not hang up. -/
def Patient (e : Event) (s : Session) : Prop :=
  match e with
  | .readFails => s.socketOpen = false
  | .writeFails => s.socketOpen = false
  | .requestStop => False
  | _ => True

/-- Steps of a session whose peer keeps the connection open. -/
abbrev PatientRun (host : ByteOrder) : Session → List Event → Session → Prop :=
  Run (Guarded (Session.Step host) Patient)

section Arrival

variable {host : ByteOrder} {s s' : Session}

theorem opened_receive (stream bytes : Bytes) :
    (Session.opened stream).receive bytes = Session.opened (stream ++ bytes) := rfl

/-- No handler looks at the bytes that have not been read. -/
theorem execute_receive (host : ByteOrder) (s : Session) (bytes : Bytes) (h : Handler) :
    (s.receive bytes).execute host h = (s.execute host h).receive bytes := by
  have hwrite : ∀ t : Session, (t.receive bytes).doWrite = t.doWrite.receive bytes := by
    intro t
    simp only [Session.doWrite, Session.receive]
    split <;> rfl
  have hif : ∀ (c : Prop) [Decidable c] (a b : Session),
      (if c then a else b).receive bytes = if c then a.receive bytes else b.receive bytes :=
    fun c _ a b => apply_ite (Session.receive · bytes) c a b
  cases h with
  | stop =>
      show (s.receive bytes).onStop = s.onStop.receive bytes
      rw [Session.onStop, Session.onStop, hif]
      rfl
  | send data =>
      show (s.receive bytes).onSend data = (s.onSend data).receive bytes
      rw [Session.onSend, Session.onSend, hif]
      dsimp only
      rw [hif, ← hwrite]
      rfl
  | headerRead ec k =>
      show (s.receive bytes).onHeader host ec k = (s.onHeader host ec k).receive bytes
      rw [Session.onHeader, Session.onHeader]
      simp only [hif, Session.deliver_eq]
      rfl
  | payloadRead header ec =>
      show (s.receive bytes).onPayload host header ec = (s.onPayload host header ec).receive bytes
      rw [Session.onPayload, Session.onPayload]
      simp only [hif, Session.deliver_eq]
      rfl
  | written ec =>
      show (s.receive bytes).onWritten ec = (s.onWritten ec).receive bytes
      rw [Session.onWritten, Session.onWritten, hif]
      dsimp only
      rw [hif, ← hwrite]
      rfl
  | removeSession => rfl

/-- A read takes the bytes that came first. -/
theorem completeRead_receive (s : Session) (bytes : Bytes) (op : ReadOp) (rest : List ReadOp)
    (ec : Bool) {k : ℕ} (hk : k ≤ s.incoming.length) :
    (s.receive bytes).completeRead op rest ec k = (s.completeRead op rest ec k).receive bytes := by
  cases op <;>
    simp only [Session.completeRead, Session.receive, List.take_append_of_le_length hk,
      List.drop_append_of_le_length hk]

/-- **LATE BYTES**: a step can be taken as well when more bytes have arrived. -/
theorem Session.Step.receive {e : Event} (hstep : Session.Step host s e s') (bytes : Bytes) :
    Session.Step host (s.receive bytes) e (s'.receive bytes) := by
  have hmore : s.incoming.length ≤ (s.receive bytes).incoming.length := by
    show _ ≤ (s.incoming ++ bytes).length
    rw [List.length_append]
    exact Nat.le_add_right _ _
  cases hstep with
  | readCompletes hop hopen hsize =>
      rw [← completeRead_receive s bytes _ _ _ hsize]
      exact .readCompletes hop hopen (Nat.le_trans hsize hmore)
  | readFails hop hk hsize =>
      rw [← completeRead_receive s bytes _ _ _ hsize]
      exact .readFails hop hk (Nat.le_trans hsize hmore)
  | transmit hop hopen hfront hk => exact .transmit (s := s.receive bytes) hop hopen hfront hk
  | writeCompletes hop hsent => exact .writeCompletes (s := s.receive bytes) hop hsent
  | writeFails hop => exact .writeFails (s := s.receive bytes) hop
  | startPosted hidle hposted => exact .startPosted (s := s.receive bytes) hidle hposted
  | startCompletion hidle hdone =>
      exact .startCompletion (s := s.receive bytes) hidle hdone
  | @resume h hrunning =>
      have hexec := execute_receive host ({ s with running := none } : Session) bytes h
      rw [← hexec]
      exact .resume (s := s.receive bytes) hrunning
  | requestStop => exact .requestStop (s := s.receive bytes)

/-- What a patient session does it would have done with more bytes. -/
theorem Patient.receive {es : List Event} (hrun : PatientRun host s es s') (bytes : Bytes) :
    PatientRun host (s.receive bytes) es (s'.receive bytes) := by
  induction hrun with
  | nil => exact .nil
  | @cons s s' t e es first _ ih =>
      refine .cons ⟨first.1.receive bytes, ?_⟩ ih
      have hpatient := first.2
      cases e <;> exact hpatient

/-- A patient run is undisturbed. -/
theorem Patient.calm {es : List Event} (hrun : PatientRun host s es s') : CalmRun host s es s' := by
  refine hrun.mono fun s e s' hstep => ⟨hstep.1, ?_⟩
  have hpatient := hstep.2
  cases e with
  | readFails => exact Or.inl hpatient
  | writeFails => exact hpatient
  | requestStop => exact hpatient
  | readCompletes => trivial
  | transmit => trivial
  | writeCompletes => trivial
  | startPosted => trivial
  | startCompletion => trivial
  | resume => trivial

end Arrival

/-! ## A peer that keeps to the protocol -/

/-- The stream is one of frames other than DISCONNECT, and of a part of one more frame. -/
def Civil (host : ByteOrder) (stream : Bytes) : Prop :=
  ∃ (ps : List Packet) (q : Packet), (∀ p ∈ ps, p.Sendable ∧ p.header.type ≠ .disconnect)
    ∧ q.Sendable ∧ stream <+: (ps ++ [q]).flatMap (serializePacket host)
    ∧ stream.length < ((ps ++ [q]).flatMap (serializePacket host)).length

section Civil

variable {host : ByteOrder} {stream : Bytes} {s : Session} {es : List Event}

/-- **NEVER HUNG UP ON**: such a peer's session is not about to stop. -/
theorem Patient.not_stopping (hrun : PatientRun host (Session.opened stream) es s)
    (hcivil : Civil host stream) : ¬ s.Stopping := by
  intro hstop
  obtain ⟨ps, q, hps, hq, ⟨more, hmore⟩, hlen⟩ := hcivil
  have hqs : ∀ p ∈ ps ++ [q], p.Sendable := by
    intro p hp
    rcases List.mem_append.mp hp with hp | hp
    · exact (hps p hp).1
    · rw [List.mem_singleton.mp hp]
      exact hq
  -- let the stream go on to the end of its frames
  have hlate := Patient.receive hrun more
  rw [opened_receive, hmore] at hlate
  have hloop := (Loop.opened True host _).run (Patient.calm hlate)
  have hlongest : LongestFrames host ((ps ++ [q]).flatMap (serializePacket host)) (ps ++ [q]) :=
    longest_of_frames hqs
  -- the session has read no more than its stream, so not all of them
  have hnotall : s.processed.map (serializePacket host)
      ≠ (ps ++ [q]).map (serializePacket host) := by
    intro hsame
    have hplain := (Loop.opened True host stream).run (Patient.calm hrun)
    have hread := hplain.reads.begins.length_le
    rw [List.flatMap_def, hsame, ← List.flatMap_def] at hread
    omega
  have hreads := hlongest.reads (packetCode host) hloop.reads
  rcases hloop.stopping hstop trivial with ⟨p, hp, hdisc⟩ | ⟨rest, hrest, hunframed⟩
  · -- so it has read no frame but those of `ps`
    have hbegins : s.processed.map (serializePacket host) <+: ps.map (serializePacket host) := by
      rw [List.map_append] at hreads hnotall
      exact (List.prefix_concat_iff.mp hreads).resolve_left hnotall
    have hframes := frames_of_serializePacket host hbegins
    obtain ⟨x, hx, hxp⟩ := List.mem_map.mp (hframes.subset (List.mem_map_of_mem hp))
    have htype : x.header.type = p.header.type := congrArg Prod.fst hxp
    exact (hps x hx).2 (htype.trans hdisc)
  · have hall : LongestFrames host ((ps ++ [q]).flatMap (serializePacket host)) s.processed := by
      rw [hrest]
      exact (packetCode host).longest_of_stuck hloop.reads.frames hunframed
    exact hnotall (hall.unique (packetCode host) hlongest)

/-! ## At rest -/

/-- A handler starts writes from the beginning. -/
theorem execute_writes (host : ByteOrder) (s : Session) (x : Handler) :
    ∀ op ∈ (s.execute host x).writes, op ∈ s.writes ∨ op.sent = 0 := by
  have hwrite : ∀ t : Session, ∀ op ∈ t.doWrite.writes, op ∈ t.writes ∨ op.sent = 0 := by
    intro t op hop
    rw [Session.doWrite] at hop
    split at hop
    · exact Or.inl hop
    · rcases List.mem_append.mp hop with hop | hop
      · exact Or.inl hop
      · rw [List.mem_singleton.mp hop]
        exact Or.inr rfl
  cases hread : x.isRead with
  | true =>
      have hcase := execute_read host s hread
      generalize s.execute host x = t at hcase
      cases hcase <;> exact fun op hop => Or.inl hop
  | false =>
      cases x with
      | stop =>
          show ∀ op ∈ s.onStop.writes, _
          rw [Session.onStop]
          split <;> exact fun op hop => Or.inl hop
      | send data =>
          show ∀ op ∈ (s.onSend data).writes, _
          rw [Session.onSend]
          split
          · exact fun op hop => Or.inl hop
          · dsimp only
            split
            · exact fun op hop => Or.inl hop
            · exact hwrite _
      | written ec =>
          show ∀ op ∈ (s.onWritten ec).writes, _
          rw [Session.onWritten]
          split
          · exact fun op hop => Or.inl hop
          · dsimp only
            split
            · exact fun op hop => Or.inl hop
            · exact hwrite _
      | removeSession => exact fun op hop => Or.inl hop
      | headerRead ec k => cases hread
      | payloadRead header ec => cases hread

/-- A closed socket stays closed. -/
theorem execute_closed (host : ByteOrder) (s : Session) (x : Handler)
    (hclosed : s.socketOpen = false) : (s.execute host x).socketOpen = false := by
  cases hread : x.isRead with
  | true =>
      have hcase := execute_read host s hread
      generalize s.execute host x = t at hcase
      cases hcase <;> exact hclosed
  | false =>
      have hcase := execute_other host s hread
      generalize s.execute host x = t at hcase
      cases hcase with
      | closes => rfl
      | again => exact hclosed
      | removes => exact hclosed
      | sends => exact hclosed
      | pops => exact hclosed
      | writeFailed => exact hclosed

/-- Only a failing write counts as one. -/
theorem failedWrites_step {e : Event} (hstep : Session.Step host s e s') (hno : e ≠ .writeFails) :
    s'.failedWrites = s.failedWrites := by
  cases hstep with
  | @readCompletes op => cases op <;> rfl
  | @readFails op => cases op <;> rfl
  | transmit => rfl
  | writeCompletes => rfl
  | writeFails => exact absurd rfl hno
  | startPosted => rfl
  | startCompletion => rfl
  | requestStop => rfl
  | @resume x => exact (execute_kept host _ x).2.2

/-- What is queued stays queued while a handler runs. -/
theorem execute_queued (host : ByteOrder) (s : Session) (x : Handler) {y : Handler}
    (hy : y ∈ s.posted ∨ y ∈ s.completions) : (s.execute host x).Pending y := by
  have hgrows : ∀ {t : Session} (more : List Handler), t.posted = s.posted ++ more →
      t.completions = s.completions → t.Pending y := by
    intro t more hposted hdone
    rcases hy with hy | hy
    · exact Or.inl (hposted ▸ List.mem_append_left _ hy)
    · exact Or.inr (Or.inl (hdone ▸ hy))
  have hsame := (List.append_nil s.posted).symm
  cases hread : x.isRead with
  | true =>
      have hcase := execute_read host s hread
      generalize s.execute host x = t at hcase
      cases hcase with
      | failed => exact hgrows [.stop] rfl rfl
      | malformed => exact hgrows [.stop] rfl rfl
      | oversize => exact hgrows [.stop] rfl rfl
      | announced => exact hgrows [] hsame rfl
      | empty => exact hgrows _ rfl rfl
      | complete => exact hgrows _ rfl rfl
  | false =>
      have hcase := execute_other host s hread
      generalize s.execute host x = t at hcase
      cases hcase with
      | again => exact hgrows [] hsame rfl
      | closes => exact hgrows [] hsame rfl
      | removes => exact hgrows [] hsame rfl
      | sends => exact hgrows [] hsame rfl
      | pops => exact hgrows [] hsame rfl
      | writeFailed => exact hgrows [.stop] rfl rfl

/-- **ABOUT TO STOP**: a session that is about to stop stays so, until its socket is closed. -/
theorem Session.Stopping.step (h : s.Stopping) (hlife : Lifecycle s) {e : Event}
    (hstep : Session.Step host s e s') : s'.Stopping := by
  have hkeeps : ∀ {t : Session}, t.socketOpen = s.socketOpen →
      (∀ y : Handler, s.Pending y → t.Pending y) → t.Stopping := by
    intro t hsocket hpending
    rcases h with hclosed | ⟨x, hx, hp⟩
    · exact Or.inl (hsocket.trans hclosed)
    · exact Or.inr ⟨x, hx, hpending x hp⟩
  cases hstep with
  | @readCompletes op =>
      cases op <;>
        exact hkeeps rfl fun y => Or.imp_right (Or.imp_left (List.mem_append_left _))
  | @readFails op =>
      cases op <;>
        exact hkeeps rfl fun y => Or.imp_right (Or.imp_left (List.mem_append_left _))
  | transmit => exact hkeeps rfl fun y hy => hy
  | writeCompletes => exact hkeeps rfl fun y => Or.imp_right (Or.imp_left (List.mem_append_left _))
  | writeFails => exact hkeeps rfl fun y => Or.imp_right (Or.imp_left (List.mem_append_left _))
  | startPosted hidle hposted =>
      exact hkeeps rfl fun y => (Session.pending_startPosted hidle hposted).mpr
  | startCompletion hidle hdone =>
      exact hkeeps rfl fun y => (Session.pending_startCompletion hidle hdone).mpr
  | requestStop => exact hkeeps rfl fun y => Or.imp_left (List.mem_append_left _)
  | @resume x hrunning =>
      rcases h with hclosed | ⟨y, hy, hp⟩
      · exact Or.inl (execute_closed host _ x hclosed)
      · rcases or_assoc.mpr hp with hqueued | hp
        · exact Or.inr ⟨y, hy, execute_queued host _ x hqueued⟩
        · -- the handler itself stops the session, or posts a stop
          obtain rfl := Option.some.inj (hrunning.symm.trans hp)
          cases x with
          | stop =>
              left
              show (({ s with running := none } : Session).onStop).socketOpen = false
              rw [Session.onStop]
              split
              · next hstopped => exact (hlife.once).2.2.2.mp hstopped
              · rfl
          | written ec =>
              cases ec with
              | true => exact Or.inr ⟨.stop, rfl, Or.inl (List.mem_append_right _
                  (List.mem_singleton_self _))⟩
              | false => cases hy
          | _ => cases hy

/-- No write sends more than its buffer, and one that fails leads to a stop. -/
structure Session.Sound (s : Session) : Prop where
  lifecycle : Lifecycle s
  sent      : ∀ op ∈ s.writes, op.sent ≤ op.size
  failed    : s.failedWrites ≠ 0 → s.Stopping

theorem Session.Sound.opened (stream : Bytes) : (Session.opened stream).Sound where
  lifecycle := ⟨(Lifecycle.new stream).stage.of_same rfl rfl rfl rfl Iff.rfl,
    fun _ hx => absurd hx List.not_mem_nil, fun _ hx => absurd hx List.not_mem_nil⟩
  sent := fun _ hx => absurd hx List.not_mem_nil
  failed := fun hno => absurd rfl hno

theorem Session.Sound.step (h : s.Sound) {e : Event} (hstep : Session.Step host s e s') :
    s'.Sound := by
  have hlater := fun hfailed => (h.failed hfailed).step h.lifecycle hstep
  refine ⟨h.lifecycle.step hstep, ?_, ?_⟩
  · cases hstep with
    | @readCompletes op => cases op <;> exact h.sent
    | @readFails op => cases op <;> exact h.sent
    | @transmit op rest front k hop hopen hfront hk =>
        intro x hx
        rcases List.mem_cons.mp hx with rfl | hx
        · exact hk
        · exact h.sent x (by rw [hop]; exact List.mem_cons_of_mem _ hx)
    | writeCompletes hop =>
        exact fun x hx => h.sent x (by rw [hop]; exact List.mem_cons_of_mem _ hx)
    | writeFails hop =>
        exact fun x hx => h.sent x (by rw [hop]; exact List.mem_cons_of_mem _ hx)
    | startPosted => exact h.sent
    | startCompletion => exact h.sent
    | requestStop => exact h.sent
    | @resume x hrunning =>
        intro op hop
        rcases execute_writes host _ x op hop with hop | hzero
        · exact h.sent op hop
        · rw [hzero]
          exact Nat.zero_le _
  · intro hfailed
    by_cases he : e = .writeFails
    · -- the handler of this write is queued
      subst he
      cases hstep with
      | writeFails => exact Or.inr ⟨.written true, rfl, Or.inr (Or.inl
          (List.mem_append_right _ (List.mem_singleton_self _)))⟩
    · rw [failedWrites_step hstep he] at hfailed
      exact hlater hfailed

/-- The session can take no step of its own but an empty transmission. -/
def Session.Resting (host : ByteOrder) (s : Session) : Prop :=
  ∀ e s', Session.Working host s e s' → ¬ Patient e s

/-- The strand of a resting session is idle. -/
theorem Session.Resting.idle (h : s.Resting host) :
    s.running = none ∧ s.posted = [] ∧ s.completions = [] := by
  have hrunning : s.running = none := by
    cases hrunning : s.running with
    | none => rfl
    | some x => exact absurd trivial (h _ _ ⟨.resume hrunning, fun he => by cases he⟩)
  refine ⟨hrunning, ?_, ?_⟩
  · cases hposted : s.posted with
    | nil => rfl
    | cons x rest =>
        exact absurd trivial (h _ _ ⟨.startPosted hrunning hposted, fun he => by cases he⟩)
  · cases hdone : s.completions with
    | nil => rfl
    | cons x rest =>
        have hsplit : s.completions = [] ++ x :: rest := hdone
        exact absurd trivial (h _ _ ⟨.startCompletion hrunning hsplit, fun he => by cases he⟩)

theorem Session.Resting.not_pending (h : s.Resting host) (x : Handler) : ¬ s.Pending x := by
  obtain ⟨hrunning, hposted, hdone⟩ := h.idle
  rintro (hx | hx | hx)
  · rw [hposted] at hx
    cases hx
  · rw [hdone] at hx
    cases hx
  · cases hrunning.symm.trans hx

/-- A write of an open session goes on. -/
theorem Session.Resting.writes (h : s.Resting host) (hopen : s.socketOpen = true)
    (hsound : s.Sound) {popped later : List Bytes} (hreplies : Replies s popped later) :
    s.writes = [] := by
  cases hwrites : s.writes with
  | nil => rfl
  | cons op rest =>
      exfalso
      obtain ⟨front, queue, hqueue, -, -, -, -, hsize, hout⟩ := hreplies.phase.of_writes hwrites
      have hle := hsound.sent op (by rw [hwrites]; exact List.mem_cons_self)
      by_cases hsent : op.sent = op.size
      · exact h _ _ ⟨.writeCompletes hwrites hsent, fun he => by cases he⟩ trivial
      · -- the next byte of the front can be put on the socket
        have hfront : s.writeQueue.head? = some front := by
          rw [hqueue]
          rfl
        refine h _ _ ⟨.transmit (k := 1) hwrites hopen hfront (by omega), fun _ hsame => ?_⟩ trivial
        have hlen := congrArg List.length hsame
        simp only [Session.transmit, List.length_append, List.length_take, List.length_drop] at hlen
        omega

/-- A session that has done all that its peer asked for, and waits for more. -/
structure Settled (host : ByteOrder) (stream : Bytes) (s : Session) : Prop where
  /-- Every frame that has arrived as a whole was handed over. -/
  frames : LongestFrames host stream s.processed
  /-- Every reply was sent. -/
  replies : s.outgoing = (s.processed.flatMap Packet.replies).flatten
  socketOpen : s.socketOpen = true
  waiting : ∃ op, s.reads = [op] ∧ s.incoming.length < op.size

theorem Lifecycle.opened (stream : Bytes) : Lifecycle (Session.opened stream) :=
  (Session.Sound.opened stream).lifecycle

theorem Lifecycle.of_run (hrun : Run (Session.Step host) (Session.opened stream) es s) :
    Lifecycle s :=
  hrun.invariant (I := Lifecycle) (fun _ _ _ hstep hs => hs.step hstep) (Lifecycle.opened stream)

theorem Session.Attended.of_run (hrun : Run (Session.Step host) (Session.opened stream) es s)
    (hlive : s.isStopped = false) : s.Attended :=
  hrun.invariant (I := fun t => t.isStopped = false → t.Attended)
    (fun _ _ _ hstep hs hlive => Session.Attended.step hs hstep hlive)
    (fun _ => Session.attended_start _) hlive

/-- A session with an open socket has not been stopped. -/
theorem Session.live_of_open (hrun : Run (Session.Step host) (Session.opened stream) es s)
    (hopen : s.socketOpen = true) : s.isStopped = false := by
  obtain ⟨-, -, -, hiff⟩ := (Lifecycle.of_run hrun).once
  rw [← Bool.not_eq_true, hiff, hopen]
  decide

/-- Where a session with an open socket rests, it is settled, whatever has happened. -/
theorem Session.Resting.settled_of_open (h : s.Resting host)
    (hrun : Run (Session.Step host) (Session.opened stream) es s) (hopen : s.socketOpen = true) :
    Settled host stream s := by
  obtain ⟨hrunning, hposted, hdone⟩ := h.idle
  have hloop := Loop.of_run hrun
  obtain ⟨popped, later, hreplies⟩ := Replies.run hrun (Replies.opened stream)
  have hsound : s.Sound := hrun.invariant (I := Session.Sound) (fun _ _ _ hstep hs => hs.step hstep)
    (Session.Sound.opened stream)
  have hlive := Session.live_of_open hrun hopen
  have hno := h.not_pending
  -- the read loop waits for bytes that have not come
  obtain ⟨op, hreads⟩ : ∃ op, s.reads = [op] := by
    rcases Session.Attended.of_run hrun hlive with hreads | ⟨x, -, hx⟩ | hx
    · obtain ⟨op, rest, hop⟩ := List.exists_cons_of_ne_nil hreads
      obtain ⟨rfl, -⟩ := hloop.phase.of_reads hop
      exact ⟨op, hop⟩
    · exact absurd hx (hno x)
    · exact absurd hx (hno .stop)
  have hfew : s.incoming.length < op.size := by
    refine Nat.lt_of_not_le fun hsize => ?_
    exact h _ _ ⟨.readCompletes hreads hopen hsize, fun he => by cases he⟩ trivial
  obtain ⟨-, -, -, -, -, hrest⟩ := hloop.phase.of_reads hreads
  have hwrites := h.writes hopen hsound hreplies
  refine ⟨?_, ?_, hopen, op, hreads, hfew⟩
  · rw [hrest]
    refine (packetCode host).longest_of_stuck hloop.reads.frames ?_
    cases op with
    | header => exact Unframed.of_short hfew
    | payload header => exact Unframed.of_truncated hfew
  · have hdone' : s.writeSide.done = [] := by
      show s.completions.filter Handler.isWritten = []
      rw [hdone]
      rfl
    have hhandling' : s.writeSide.handling = none := by
      show s.running.filter Handler.isWritten = none
      rw [hrunning]
      rfl
    cases hreplies.phase with
    | idle hqueue _ _ _ _ hout =>
        have hqueue : s.writeQueue = [] := hqueue
        have hsends : s.sends = [] := by
          rw [Session.sends, hrunning, hposted]
          rfl
        rw [hreplies.replies, hqueue, hreplies.later hlive, hsends, List.append_nil,
          List.append_nil]
        exact hout
    | writing _ hop => cases hop.symm.trans hwrites
    | written _ _ hplace =>
        rcases hplace with ⟨hmem, -⟩ | ⟨-, hmem⟩
        · cases hmem.symm.trans hdone'
        · cases hmem.symm.trans hhandling'
    | failed _ _ _ _ hfailed =>
        rcases hsound.failed hfailed with hclosed | ⟨x, -, hx⟩
        · cases hopen.symm.trans hclosed
        · exact absurd hx (hno x)

/-- A peer that keeps to the protocol finds its session settled. -/
theorem Session.Resting.settled (h : s.Resting host)
    (hrun : PatientRun host (Session.opened stream) es s) (hcivil : Civil host stream) :
    Settled host stream s := by
  refine h.settled_of_open hrun.unguarded ?_
  cases hsocket : s.socketOpen with
  | true => rfl
  | false => exact absurd (Or.inl hsocket) (Patient.not_stopping hrun hcivil)

/-- A patient run is bounded by its stream. -/
theorem Patient.length_le (hrun : Run (Guarded (Session.Working host) Patient)
    (Session.opened stream) es s) : es.length ≤ 4 * stream.length + 6 := by
  have hsteps := Session.Working.length_le hrun.unguarded
  have hcount : es.count .requestStop = 0 := by
    clear hsteps
    generalize Session.opened stream = start at hrun
    induction hrun with
    | nil => rfl
    | @cons _ _ _ e es first _ ih =>
        have hpatient := first.2
        rw [List.count_cons, ih]
        cases e <;> first | rfl | exact absurd hpatient id
  omega

/-- **EVERY REQUEST IS ANSWERED**: in every order of reads, writes and handlers, the
    session of a peer that keeps to the protocol comes to rest after a bounded number of
    steps, and where it rests it has handed over all complete frames and sent all
    replies. -/
theorem opened_settles (host : ByteOrder) (stream : Bytes) (hcivil : Civil host stream)
    (es : List Event) (s : Session)
    (hrun : Run (Guarded (Session.Working host) Patient) (Session.opened stream) es s) :
    es.length ≤ 4 * stream.length + 6
      ∧ (∃ es' t, Run (Guarded (Session.Working host) Patient) s es' t ∧ t.Resting host)
      ∧ (s.Resting host → Settled host stream s) := by
  refine ⟨Patient.length_le hrun, ?_, ?_⟩
  · obtain ⟨es', t, hrest, hlast⟩ := Run.exists_last (4 * stream.length + 6) fun es' t hrest => by
      have hle := Patient.length_le (hrun.append hrest)
      rw [List.length_append] at hle
      exact Nat.le_trans (Nat.le_add_left _ _) hle
    exact ⟨es', t, hrest, fun e t' hstep hpatient => hlast e t' ⟨hstep, hpatient⟩⟩
  · intro hrest
    exact hrest.settled (hrun.mono fun _ _ _ hstep => ⟨hstep.1.1, hstep.2⟩) hcivil

/-- A session that waits for the last byte of a PING. -/
theorem Session.echoed_resting (host : ByteOrder) : Session.echoed.Resting host := by
  rintro e s' ⟨hstep, -⟩ hpatient
  cases hstep with
  | readCompletes hop _ hsize =>
      obtain ⟨rfl, -⟩ := List.cons.inj hop
      exact absurd hsize (by decide)
  | readFails => cases hpatient
  | transmit hop => cases hop
  | writeCompletes hop => cases hop
  | writeFails hop => cases hop
  | startPosted _ hposted => cases hposted
  | startCompletion _ hdone =>
      exact List.append_ne_nil_of_right_ne_nil _ (List.cons_ne_nil _ _) hdone.symm
  | resume hrunning => cases hrunning
  | requestStop => exact hpatient

/-- An ECHO_REQUEST with the payload "hi" is answered; the PING behind it is not whole. -/
theorem opened_settles_hi :
    Settled .little ([0x41, 0x4E, 0, 3, 0, 0, 0, 2, 0x68, 0x69] ++ [0x41, 0x4E, 0, 1, 0, 0, 0])
      Session.echoed := by
  have hcivil : Civil .little
      ([0x41, 0x4E, 0, 3, 0, 0, 0, 2, 0x68, 0x69] ++ [0x41, 0x4E, 0, 1, 0, 0, 0]) := by
    refine ⟨[⟨⟨magicHeader, .echoRequest, 2⟩, [0x68, 0x69]⟩], ⟨⟨magicHeader, .ping, 0⟩, []⟩, ?_,
      ⟨rfl, by decide⟩, by decide, by decide⟩
    intro p hp
    rw [List.mem_singleton.mp hp]
    exact ⟨⟨rfl, by decide⟩, by decide⟩
  have hrun := run_echoed.guarded_of_events (P := Patient) (by simp [Patient])
  exact (opened_settles .little _ hcivil _ _ hrun).2.2 (Session.echoed_resting .little)

end Civil

end AsyncNet
