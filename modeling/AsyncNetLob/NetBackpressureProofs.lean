import AsyncNetLob.NetRestProofs

/-! # Nothing slows a session down

    `doReadHeader` does not wait for `writeQueue_`, and nothing bounds the queue.  So what a
    session does while its frames go out it can do as well while none does:
    `Session.starve` is the session on a socket that has taken no byte, and every step
    but those of writes is one of it (`Session.Step.starve`).  A peer that sends and does
    not read is served all the same (`opened_unread`), and every reply to it is kept in
    memory (`opened_backlog`). -/

namespace AsyncNet

open Protocol PrefixCode Transition

/-! ## A socket that takes nothing -/

/-- The write that `doWrite` starts, of which nothing was sent. -/
def unsentWrite : List Bytes → List WriteOp
  | [] => []
  | front :: _ => [⟨front.length, 0⟩]

/-- A handler other than that of a write. -/
def Handler.isOther (h : Handler) : Bool := !h.isWritten

theorem Handler.isOther_iff {h : Handler} : h.isOther = true ↔ h.isWritten = false := by
  rw [Handler.isOther, Bool.not_eq_true']

/-- The session with the frames `popped` back on the queue and nothing on the socket. -/
def Session.starve (popped : List Bytes) (s : Session) : Session :=
  { s with writeQueue := popped ++ s.writeQueue, outgoing := []
           writes := unsentWrite (popped ++ s.writeQueue)
           completions := s.completions.filter Handler.isOther
           running := s.running.filter Handler.isOther }

/-- The steps of a write. -/
def Event.isWrite : Event → Bool
  | .transmit => true
  | .writeCompletes => true
  | .writeFails => true
  | _ => false

section Starve

variable {host : ByteOrder} {s s' : Session}

theorem starve_doWrite (popped : List Bytes) (s : Session) :
    s.doWrite.starve popped = s.starve popped := by
  obtain ⟨writes, hwrite⟩ := s.doWrite_eq
  rw [hwrite]
  rfl

theorem starve_ite (popped : List Bytes) (c : Prop) [Decidable c] (a b : Session) :
    (if c then a else b).starve popped = if c then a.starve popped else b.starve popped :=
  apply_ite (Session.starve popped) c a b

/-- A frame joins the queue of a starved session. -/
theorem starve_onSend (popped : List Bytes) (s : Session) (data : Bytes) :
    (s.starve popped).onSend data = (s.onSend data).starve popped := by
  rw [Session.onSend, Session.onSend, starve_ite]
  dsimp only
  rw [starve_ite, starve_doWrite, ite_self]
  have hqueue : (s.starve popped).writeQueue = popped ++ s.writeQueue := rfl
  refine if_congr Iff.rfl rfl ?_
  rw [hqueue]
  cases hnil : popped ++ s.writeQueue with
  | nil =>
      -- the queue was empty, and `doWrite` starts with this frame
      rw [if_neg (by simp), Session.starve, Session.starve, ← List.append_assoc, hnil]
      rfl
  | cons front queue =>
      rw [if_pos (by simp), Session.starve, Session.starve, ← List.append_assoc, hnil]
      rfl

/-- **HANDLERS** do not look at the socket. -/
theorem execute_starve (host : ByteOrder) (popped : List Bytes) (s : Session) {x : Handler}
    (hx : x.isWritten = false) :
    (s.starve popped).execute host x = (s.execute host x).starve popped := by
  cases x with
  | stop =>
      show (s.starve popped).onStop = s.onStop.starve popped
      rw [Session.onStop, Session.onStop, starve_ite]
      rfl
  | send data => exact starve_onSend popped s data
  | headerRead ec k =>
      show (s.starve popped).onHeader host ec k = (s.onHeader host ec k).starve popped
      rw [Session.onHeader, Session.onHeader]
      simp only [starve_ite, Session.deliver_eq]
      rfl
  | payloadRead header ec =>
      show (s.starve popped).onPayload host header ec = (s.onPayload host header ec).starve popped
      rw [Session.onPayload, Session.onPayload]
      simp only [starve_ite, Session.deliver_eq]
      rfl
  | written ec => cases hx
  | removeSession => rfl

/-- What a write popped is still queued. -/
theorem starve_onWritten (popped : List Bytes) (s : Session) :
    (s.onWritten false).starve (popped ++ s.writeQueue.take 1) = s.starve popped := by
  have hqueue : popped ++ s.writeQueue.take 1 ++ s.writeQueue.tail = popped ++ s.writeQueue := by
    rw [List.append_assoc, ← List.drop_one, List.take_append_drop]
  rw [Session.onWritten, if_neg Bool.false_ne_true]
  dsimp only
  rw [starve_ite, starve_doWrite, ite_self, Session.starve, Session.starve, hqueue]

theorem starve_completeRead (popped : List Bytes) (s : Session) (op : ReadOp)
    (rest : List ReadOp) (ec : Bool) (k : Nat) :
    (s.starve popped).completeRead op rest ec k = (s.completeRead op rest ec k).starve popped := by
  have hfilter : (s.completions ++ [op.handler ec k]).filter Handler.isOther
      = s.completions.filter Handler.isOther ++ [op.handler ec k] := by
    rw [List.filter_append, List.filter_cons_of_pos]
    · rfl
    · exact Handler.isOther_iff.mpr (op.handler_isWritten ec k)
  cases op <;>
    simp only [Session.completeRead, Session.starve, hfilter]

/-- The strand takes a handler. -/
theorem starve_start (popped : List Bytes) (s : Session) (completions posted : List Handler)
    {x : Handler} (hx : x.isOther = true) :
    ({ s with completions := completions, posted := posted, running := some x } : Session).starve
        popped
      = { s.starve popped with completions := completions.filter Handler.isOther
                               posted := posted, running := some x } := by
  rw [Session.starve, Session.starve]
  dsimp only
  rw [Option.filter_some, if_pos hx]

/-- While no write has failed, the handler of a write is that of a success. -/
theorem Replies.written_ok {popped later : List Bytes} (h : Replies s popped later)
    (hzero : s.failedWrites = 0) {ec : Bool} (hrunning : s.running = some (.written ec)) :
    ec = false := by
  have hsome : s.writeSide.handling = some (.written ec) := by
    show s.running.filter Handler.isWritten = _
    rw [hrunning]
    rfl
  cases h.phase with
  | idle _ _ _ hnone => cases hsome.symm.trans hnone
  | writing _ _ _ hnone => cases hsome.symm.trans hnone
  | written _ _ hplace =>
      rcases hplace with ⟨-, hnone⟩ | ⟨-, hhandling⟩
      · cases hsome.symm.trans hnone
      · cases hsome.symm.trans hhandling
        rfl
  | failed _ _ _ _ hfailed => exact absurd hzero hfailed

theorem starve_idle (popped : List Bytes) (hidle : s.running = none) :
    (s.starve popped).running = none := by
  show s.running.filter Handler.isOther = none
  rw [hidle]
  rfl

/-- The strand takes the handler of a completed operation; that of a write is not there. -/
theorem starve_startCompletion (popped : List Bytes) {before after : List Handler} {x : Handler}
    (hidle : s.running = none) (hdone : s.completions = before ++ x :: after) :
    ({ s with completions := before ++ after, running := some x } : Session).starve popped
        = s.starve popped
      ∨ Event.isWrite .startCompletion = false ∧ Session.Step host (s.starve popped)
        .startCompletion
        (({ s with completions := before ++ after, running := some x } : Session).starve
          popped) := by
  cases hx : x.isWritten with
  | true =>
      left
      have hgone : Handler.isOther x ≠ true := by
        rw [Handler.isOther, hx]
        decide
      rw [Session.starve, Session.starve]
      dsimp only
      rw [hidle, hdone, List.filter_append, List.filter_append, List.filter_cons_of_neg hgone,
        Option.filter_some, if_neg hgone]
      rfl
  | false =>
      right
      have hkept := Handler.isOther_iff.mpr hx
      have hdone' : (s.starve popped).completions
          = before.filter Handler.isOther ++ x :: after.filter Handler.isOther := by
        show s.completions.filter Handler.isOther = _
        rw [hdone, List.filter_append, List.filter_cons_of_pos hkept]
      refine ⟨rfl, ?_⟩
      rw [starve_start popped s _ _ hkept, List.filter_append]
      exact .startCompletion (starve_idle popped hidle) hdone'

/-- The strand runs a handler; that of a write pops a frame, which is put back. -/
theorem starve_resume (popped : List Bytes) {sent later : List Bytes}
    (h : Replies s sent later) (hzero : s.failedWrites = 0) {x : Handler}
    (hrunning : s.running = some x) :
    ∃ popped', (({ s with running := none } : Session).execute host x).starve popped'
        = s.starve popped
      ∨ Event.isWrite .resume = false ∧ Session.Step host (s.starve popped) .resume
        ((({ s with running := none } : Session).execute host x).starve popped') := by
  cases hx : x.isWritten with
  | true =>
      cases x with
      | written ec =>
          obtain rfl := h.written_ok hzero hrunning
          refine ⟨popped ++ s.writeQueue.take 1, Or.inl ?_⟩
          have hpop := starve_onWritten popped ({ s with running := none } : Session)
          refine hpop.trans ?_
          rw [Session.starve, Session.starve, hrunning]
          rfl
      | _ => cases hx
  | false =>
      have hkept := Handler.isOther_iff.mpr hx
      have hsome : (s.starve popped).running = some x := by
        show s.running.filter Handler.isOther = some x
        rw [hrunning, Option.filter_some, if_pos hkept]
      refine ⟨popped, Or.inr ⟨rfl, ?_⟩⟩
      rw [← execute_starve host popped _ hx]
      exact .resume (s := s.starve popped) hsome

/-- **ONE STEP** of a session is one of the starved session, or is not seen there. -/
theorem Session.Step.starve {e : Event} (hstep : Session.Step host s e s')
    {before later : List Bytes} (h : Replies s before later) (hzero : s.failedWrites = 0)
    (hno : e ≠ .writeFails) (popped : List Bytes) :
    ∃ popped', s'.starve popped' = s.starve popped
      ∨ e.isWrite = false ∧ Session.Step host (s.starve popped) e (s'.starve popped') := by
  cases hstep with
  | readCompletes hop hopen hsize =>
      refine ⟨popped, Or.inr ⟨rfl, ?_⟩⟩
      rw [← starve_completeRead]
      exact .readCompletes (s := s.starve popped) hop hopen hsize
  | readFails hop hk hsize =>
      refine ⟨popped, Or.inr ⟨rfl, ?_⟩⟩
      rw [← starve_completeRead]
      exact .readFails (s := s.starve popped) hop hk hsize
  | transmit => exact ⟨popped, Or.inl rfl⟩
  | writeCompletes =>
      refine ⟨popped, Or.inl ?_⟩
      have hfilter : (s.completions ++ [Handler.written false]).filter Handler.isOther
          = s.completions.filter Handler.isOther := by
        rw [List.filter_append]
        exact List.append_nil _
      rw [Session.completeWrite, Session.starve, Session.starve]
      dsimp only
      rw [hfilter]
      rfl
  | writeFails => exact absurd rfl hno
  | @startPosted x rest hidle hposted =>
      have hx : x.isWritten = false :=
        Handler.isWritten_of_isPosted (h.posted x (by rw [hposted]; exact List.mem_cons_self))
      refine ⟨popped, Or.inr ⟨rfl, ?_⟩⟩
      rw [starve_start popped s _ _ (Handler.isOther_iff.mpr hx)]
      exact .startPosted (s := s.starve popped) (starve_idle popped hidle) hposted
  | startCompletion hidle hdone => exact ⟨popped, starve_startCompletion popped hidle hdone⟩
  | resume hrunning => exact starve_resume popped h hzero hrunning
  | requestStop => exact ⟨popped, Or.inr ⟨rfl, @Session.Step.requestStop host (s.starve popped)⟩⟩

/-! ## A peer that does not read -/

/-- What was popped was sent. -/
theorem WritePhase.popped_sent {popped : List Bytes} {v : WriteSide} (h : WritePhase popped v) :
    popped.flatten <+: v.outgoing := by
  cases h with
  | idle _ _ _ _ _ hout => exact hout ▸ List.prefix_rfl
  | writing _ _ _ _ _ _ hout => exact hout ▸ List.prefix_append _ _
  | written _ _ _ _ hout => exact hout ▸ List.prefix_append _ _
  | failed _ _ _ _ _ hout => exact hout ▸ List.prefix_append _ _

/-- No reply is empty. -/
theorem Packet.replies_ne_nil {p : Packet} : ∀ data ∈ p.replies, data ≠ [] := by
  intro data hdata
  rw [Packet.replies] at hdata
  split at hdata
  · rw [List.mem_singleton.mp hdata]
    exact List.cons_ne_nil _ _
  · split at hdata
    · rw [List.mem_singleton.mp hdata]
      exact List.cons_ne_nil _ _
    · cases hdata

/-- Where nothing was sent, nothing was popped. -/
theorem Replies.popped_nil {popped later : List Bytes} (h : Replies s popped later)
    (hsilent : s.outgoing = []) : popped = [] := by
  have hsent : popped.flatten <+: [] := hsilent ▸ h.phase.popped_sent
  rw [List.eq_nil_iff_forall_not_mem]
  intro data hdata
  have hnil : data = [] := List.flatten_eq_nil_iff.mp (List.prefix_nil.mp hsent) data hdata
  have hmem : data ∈ s.processed.flatMap Packet.replies := by
    rw [h.replies]
    exact List.mem_append_left _ hdata
  obtain ⟨p, -, hp⟩ := List.mem_flatMap.mp hmem
  exact Packet.replies_ne_nil data hp hnil

/-- What a session did in the run `es`, done without a byte on the socket. -/
structure Unread (host : ByteOrder) (stream : Bytes) (es : List Event) (s : Session)
    (popped : List Bytes) : Prop where
  /-- The same steps, less some, and none of a write. -/
  run : ∃ fs, List.Sublist fs es ∧ (∀ e ∈ fs, e.isWrite = false)
    ∧ Run (Session.Step host) (Session.opened stream) fs (s.starve popped)
  /-- The replies are kept, -/
  queued : (s.starve popped).writeQueue <+: s.processed.flatMap Packet.replies
  /-- all of them, until the session is stopped and drops what it has not pushed. -/
  whole : s.isStopped = false → (s.starve popped).writeQueue ++ s.sends
    = s.processed.flatMap Packet.replies

/-- The handlers of writes carry no frames. -/
theorem sends_starve (popped : List Bytes) (s : Session) : (s.starve popped).sends = s.sends := by
  show (((s.running.filter Handler.isOther).toList ++ s.posted).flatMap Handler.data) = _
  rw [Session.sends]
  cases s.running with
  | none => rfl
  | some x => cases x <;> rfl

/-- A starved session that is reached holds every reply. -/
theorem Unread.of_run {stream : Bytes} {es fs : List Event} {popped : List Bytes}
    (hsub : List.Sublist fs es) (hreads : ∀ e ∈ fs, e.isWrite = false)
    (hrun : Run (Session.Step host) (Session.opened stream) fs (s.starve popped)) :
    Unread host stream es s popped := by
  obtain ⟨sent, later, h⟩ := Replies.run hrun (Replies.opened stream)
  obtain rfl := h.popped_nil rfl
  have hreplies : s.processed.flatMap Packet.replies
      = (s.starve popped).writeQueue ++ later := h.replies
  refine ⟨⟨fs, hsub, hreads, hrun⟩, ?_, fun hlive => ?_⟩
  · rw [hreplies]
    exact List.prefix_append _ _
  · rw [hreplies, ← sends_starve popped s, h.later hlive]

/-- The invariant of a run `es` without a failed write. -/
structure Starvable (host : ByteOrder) (stream : Bytes) (es : List Event) (s : Session) :
    Prop where
  replies : ∃ before later, Replies s before later
  failed  : s.failedWrites = 0
  starved : ∃ popped fs, List.Sublist fs es ∧ (∀ e ∈ fs, e.isWrite = false)
    ∧ Run (Session.Step host) (Session.opened stream) fs (s.starve popped)

theorem Starvable.opened (host : ByteOrder) (stream : Bytes) :
    Starvable host stream [] (Session.opened stream) where
  replies := ⟨[], [], .opened stream⟩
  failed := rfl
  starved := ⟨[], [], List.Sublist.refl _, fun _ he => absurd he List.not_mem_nil, .nil⟩

theorem Starvable.step {stream : Bytes} {es : List Event} {e : Event}
    (h : Starvable host stream es s) (hstep : Session.Step host s e s') (he : e ≠ .writeFails) :
    Starvable host stream (es ++ [e]) s' := by
  obtain ⟨⟨before, later, hreplies⟩, hzero, popped, fs, hsub, hreads, hruns⟩ := h
  refine ⟨hreplies.step hstep, (failedWrites_step hstep he).trans hzero, ?_⟩
  obtain ⟨popped', hsame | ⟨hread, hstarved⟩⟩ := hstep.starve hreplies hzero he popped
  · refine ⟨popped', fs, hsub.trans (List.sublist_append_left _ _), hreads, ?_⟩
    rw [hsame]
    exact hruns
  · refine ⟨popped', fs ++ [e], hsub.append (List.Sublist.refl _), ?_,
      hruns.append (.single hstarved)⟩
    intro e' he'
    rcases List.mem_append.mp he' with he' | he'
    · exact hreads e' he'
    · rw [List.mem_singleton.mp he']
      exact hread

theorem Starvable.run {stream : Bytes} {es : List Event}
    (hrun : Run (Session.Step host) (Session.opened stream) es s) (hno : .writeFails ∉ es) :
    Starvable host stream es s := by
  have hall : .writeFails ∉ [] ++ es → Starvable host stream ([] ++ es) s := by
    refine hrun.historic (I := fun es s => .writeFails ∉ es → Starvable host stream es s) ?_
      fun _ => .opened host stream
    intro es s e s' hstep hsofar hnone
    refine (hsofar fun hmem => hnone (List.mem_append_left _ hmem)).step hstep ?_
    rintro rfl
    exact hnone (List.mem_append_right _ (List.mem_singleton_self _))
  exact hall hno

/-- **NO BACKPRESSURE**: whatever a session does while its peer reads, it can do as well
    when the peer reads nothing: there is a run without a step of a write that takes the same
    bytes, processes the same packets and ends in the same state, but for the socket, and
    for the queue, which holds every reply. -/
theorem opened_unread (host : ByteOrder) (stream : Bytes) (es : List Event) (s : Session)
    (hrun : Run (Session.Step host) (Session.opened stream) es s) (hno : .writeFails ∉ es) :
    ∃ popped, Unread host stream es s popped := by
  obtain ⟨popped, fs, hsub, hreads, hruns⟩ := (Starvable.run hrun hno).starved
  exact ⟨popped, .of_run hsub hreads hruns⟩

/-- Three bytes of a PONG are on the socket; they need not be. -/
theorem opened_unread_ping :
    ∃ popped, Unread .little [0x41, 0x4E, 0, 1, 0, 0, 0, 0]
      [.readCompletes, .startCompletion, .resume, .startPosted, .resume, .transmit]
      { Session.opened [] with
        headerBuffer := [0x41, 0x4E, 0, 1, 0, 0, 0, 0]
        processed := [⟨⟨magicHeader, .ping, 0⟩, []⟩], counted := 1
        writeQueue := [[0x41, 0x4E, 0, 2, 0, 0, 0, 0]], writes := [⟨8, 3⟩]
        outgoing := [0x41, 0x4E, 0] } popped :=
  opened_unread .little [0x41, 0x4E, 0, 1, 0, 0, 0, 0]
    [.readCompletes, .startCompletion, .resume, .startPosted, .resume, .transmit] _
    (.cons (.readCompletes rfl rfl (by decide)) <|
      .cons (@Session.Step.startCompletion _ _ [] [] _ rfl rfl) <|
      .cons (.resume rfl) <| .cons (.startPosted rfl (by rfl)) <| .cons (.resume rfl) <|
      .cons (@Session.Step.transmit _ _ ⟨8, 0⟩ [] [0x41, 0x4E, 0, 2, 0, 0, 0, 0] 3 (by rfl)
        (by rfl) (by rfl) (by decide)) (by exact .nil)) (by decide)

/-! ## The backlog -/

/-- Steps of a session whose peer keeps the connection open, and whose writes succeed. -/
def Faultless (e : Event) (s : Session) : Prop := Patient e s ∧ e ≠ .writeFails

theorem Faultless.not_mem {es : List Event}
    (hrun : Run (Guarded (Session.Working host) Faultless) s es s') : .writeFails ∉ es := by
  induction hrun with
  | nil => exact List.not_mem_nil
  | cons first _ ih =>
      rw [List.mem_cons, not_or]
      exact ⟨first.2.2.symm, ih⟩

/-- Some run without a failed write comes to rest. -/
theorem Faultless.settles {stream : Bytes} (hcivil : Civil host stream) :
    ∃ es s, Run (Session.Step host) (Session.opened stream) es s ∧ .writeFails ∉ es
      ∧ s.Resting host ∧ Settled host stream s := by
  obtain ⟨es, s, hrun, hlast⟩ :
      ∃ es s, Run (Guarded (Session.Working host) Faultless) (Session.opened stream) es s
        ∧ ∀ e s', ¬ Guarded (Session.Working host) Faultless s e s' :=
    Run.exists_last (4 * stream.length + 6) fun es t hrun =>
      Patient.length_le (hrun.mono fun _ _ _ hstep => ⟨hstep.1, hstep.2.1⟩)
  have hpatient : PatientRun host (Session.opened stream) es s :=
    hrun.mono fun _ _ _ hstep => ⟨hstep.1.1, hstep.2.1⟩
  have hrest : s.Resting host := by
    intro e s' hstep he
    refine hlast e s' ⟨hstep, he, ?_⟩
    rintro rfl
    -- it would have closed its socket
    exact Patient.not_stopping hpatient hcivil (Or.inl he)
  exact ⟨es, s, hpatient.unguarded, Faultless.not_mem hrun, hrest, hrest.settled hpatient hcivil⟩

/-- A session that has served all packets `ps` of a peer that reads nothing. -/
structure Backlog (ps : List Packet) (t : Session) : Prop where
  outgoing   : t.outgoing = []
  socketOpen : t.socketOpen = true
  processed  : t.processed.map Packet.frame = ps.map Packet.frame
  writeQueue : t.writeQueue = ps.flatMap Packet.replies

/-- **UNBOUNDED MEMORY**: for every sequence of packets, however long, a peer that sends
    them and reads nothing can have the session hold the replies to all of them. -/
theorem opened_backlog (host : ByteOrder) (ps : List Packet)
    (hps : ∀ p ∈ ps, p.Sendable ∧ p.header.type ≠ .disconnect) :
    ∃ es t, Run (Session.Step host) (Session.opened (ps.flatMap (serializePacket host))) es t
      ∧ Backlog ps t := by
  have hsendable : ∀ p ∈ ps, p.Sendable := fun p hp => (hps p hp).1
  have hcivil : Civil host (ps.flatMap (serializePacket host)) := by
    refine ⟨ps, ⟨⟨magicHeader, .ping, 0⟩, []⟩, hps, ⟨rfl, by decide⟩, ?_, ?_⟩
    · rw [List.flatMap_append]
      exact List.prefix_append _ _
    · rw [List.flatMap_append, List.length_append, List.flatMap_singleton,
        serializePacket_length, headerSize]
      omega
  obtain ⟨es, s, hrun, hno, hrest, hsettled⟩ := Faultless.settles hcivil
  obtain ⟨popped, fs, hsub, hreads, hstarved⟩ := (Starvable.run hrun hno).starved
  have hlongest : LongestFrames host (ps.flatMap (serializePacket host)) ps :=
    longest_of_frames hsendable
  have hframes : s.processed.map Packet.frame = ps.map Packet.frame :=
    frames_eq host (hsettled.frames.unique (packetCode host) hlongest)
  refine ⟨fs, s.starve popped, hstarved, rfl, hsettled.socketOpen, hframes, ?_⟩
  have hkept : Unread host (ps.flatMap (serializePacket host)) es s popped :=
    .of_run hsub hreads hstarved
  have hwhole := hkept.whole (Session.live_of_open hrun hsettled.socketOpen)
  obtain ⟨hrunning, hposted, -⟩ := hrest.idle
  have hsends : s.sends = [] := by
    rw [Session.sends, hrunning, hposted]
    rfl
  rw [hsends, List.append_nil] at hwhole
  rw [hwhole, flatMap_replies, hframes, ← flatMap_replies]

/-- Two PINGs. -/
theorem opened_backlog_two :
    ∃ es t, Run (Session.Step .little)
        (Session.opened [0x41, 0x4E, 0, 1, 0, 0, 0, 0, 0x41, 0x4E, 0, 1, 0, 0, 0, 0]) es t
      ∧ Backlog [⟨⟨magicHeader, .ping, 0⟩, []⟩, ⟨⟨magicHeader, .ping, 0⟩, []⟩] t :=
  opened_backlog .little [⟨⟨magicHeader, .ping, 0⟩, []⟩, ⟨⟨magicHeader, .ping, 0⟩, []⟩] (by
    intro p hp
    obtain rfl : p = ⟨⟨magicHeader, .ping, 0⟩, []⟩ := by
      rcases List.mem_cons.mp hp with rfl | hp
      · rfl
      · exact List.mem_singleton.mp hp
    exact ⟨⟨rfl, by decide⟩, by decide⟩)

end Starve

end AsyncNet
