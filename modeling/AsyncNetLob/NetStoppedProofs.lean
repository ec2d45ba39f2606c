import AsyncNetLob.NetDeliveryProofs
import AsyncNetLob.NetLifecycleProofs

/-! # What a stopped session still processes

    The stop and the send handlers test `isStopped_`, the read handlers do not: a read
    that completed before the socket was closed has its handler queued behind the stop
    handler and hands its packet over all the same, and after a DISCONNECT the read is
    rearmed, so a frame behind the DISCONNECT can be handed over too
    (`stopped_processes`).

    These are the only ways (`InTime`): a handler hands a packet over only if its read
    ended a frame (`EndsFrame`), no read completes once the socket is closed, and the
    one read handler is queued or running while no read is outstanding. -/

namespace AsyncNet

open Protocol PrefixCode Transition

/-- The handler of a read that ended a frame, with what the header buffer holds. -/
def EndsFrame (host : ByteOrder) (headerBuffer : Bytes) : Handler → Prop
  | .headerRead false k => ∃ header, deserializeHeader host headerBuffer k {} = (true, header)
      ∧ header.length.toNat = 0
  | .payloadRead _ false => True
  | _ => False

/-- A DISCONNECT was processed. -/
def Session.Disconnected (s : Session) : Prop := ∃ p ∈ s.processed, p.header.type = .disconnect

/-- When a stop handler closes the socket, no read that ended a frame has its handler
    queued; and after a DISCONNECT no read completes that ends a frame. -/
def InTime (host : ByteOrder) (e : Event) (s : Session) : Prop :=
  match e with
  | .resume => s.running = some .stop → s.isStopped = false →
      ∀ h ∈ s.completions, ¬ EndsFrame host s.headerBuffer h
  | .readCompletes => s.Disconnected → ∀ op ∈ s.reads,
      ¬ EndsFrame host (s.incoming.take headerSize) (op.handler false op.size)
  | _ => True

section Stopped

variable {host : ByteOrder} {stream : Bytes} {s s' : Session}

theorem EndsFrame.isRead {buffer : Bytes} {x : Handler} (h : EndsFrame host buffer x) :
    x.isRead = true := by
  cases x with
  | headerRead => rfl
  | payloadRead => rfl
  | stop => exact absurd h id
  | send => exact absurd h id
  | written => exact absurd h id
  | removeSession => exact absurd h id

/-- A handler hands over at most one packet, and only at the end of a frame. -/
theorem execute_processed (host : ByteOrder) (s : Session) (x : Handler) :
    (s.execute host x).processed = s.processed ∧ (s.execute host x).counted = s.counted
      ∨ EndsFrame host s.headerBuffer x
        ∧ ∃ p, (s.execute host x).processed = s.processed ++ [p] := by
  cases hread : x.isRead with
  | true =>
      have hcase := execute_read host s hread
      generalize s.execute host x = t at hcase
      cases hcase with
      | failed => exact Or.inl ⟨rfl, rfl⟩
      | malformed => exact Or.inl ⟨rfl, rfl⟩
      | oversize => exact Or.inl ⟨rfl, rfl⟩
      | announced => exact Or.inl ⟨rfl, rfl⟩
      | empty hdec hzero => exact Or.inr ⟨⟨_, hdec, hzero⟩, _, rfl⟩
      | complete => exact Or.inr ⟨trivial, _, rfl⟩
  | false =>
      have hcase := execute_other host s hread
      generalize s.execute host x = t at hcase
      cases hcase <;> exact Or.inl ⟨rfl, rfl⟩

/-- The invariant of a session that is stopped in time. -/
structure Hushed (host : ByteOrder) (stream : Bytes) (s : Session) : Prop where
  loop      : Loop False host stream s
  lifecycle : Lifecycle s
  hushed    : s.isStopped = true ∨ s.Disconnected → ∀ x, s.Pending x → ¬ EndsFrame host s.headerBuffer x
  last      : ∀ (i : Nat) (p : Packet), s.processed[i]? = some p → p.header.type = .disconnect →
    i + 1 = s.processed.length

theorem Hushed.opened (host : ByteOrder) (stream : Bytes) :
    Hushed host stream (Session.opened stream) where
  loop := .opened False host stream
  lifecycle := ⟨.live rfl rfl rfl rfl (Option.some_ne_none _).symm,
    fun _ hx => absurd hx List.not_mem_nil, fun _ hx => absurd hx List.not_mem_nil⟩
  hushed := by
    rintro - x (hx | hx | hx)
    · cases hx
    · cases hx
    · cases hx
  last := fun i p hp => by cases hp

/-- While a read is outstanding no read handler is queued or running. -/
theorem Hushed.pending_of_reads (h : Hushed host stream s) {op : ReadOp} {rest : List ReadOp}
    (hop : s.reads = op :: rest) {x : Handler} (hx : s.Pending x) : x.isRead = false := by
  obtain ⟨-, hdone, hhandling, -⟩ := h.loop.phase.of_reads hop
  cases hread : x.isRead with
  | false => rfl
  | true =>
      rcases hx with hx | hx | hx
      · exact hread.symm.trans (Handler.isRead_of_isPosted (h.loop.posted x hx))
      · have hmem : x ∈ s.completions.filter Handler.isRead := List.mem_filter.mpr ⟨hx, hread⟩
        rw [hdone] at hmem
        cases hmem
      · rw [hx, Option.filter_some, if_pos hread] at hhandling
        cases hhandling

/-- A read handler that runs is the only one. -/
theorem Hushed.pending_of_running (h : Hushed host stream s) {x : Handler}
    (hrunning : s.running = some x) (hread : x.isRead = true) :
    ∀ y ∈ s.completions, y.isRead = false := by
  intro y hy
  obtain ⟨-, hdone, -⟩ := h.loop.phase.of_running hrunning hread
  cases hready : y.isRead with
  | false => rfl
  | true =>
      have hmem : y ∈ s.completions.filter Handler.isRead := List.mem_filter.mpr ⟨hy, hready⟩
      rw [hdone] at hmem
      cases hmem

/-- A step that leaves the header buffer and the packets alone. -/
theorem Hushed.quiet (h : Hushed host stream s) (hloop : Loop False host stream s')
    (hlife : Lifecycle s') (hbuffer : s'.headerBuffer = s.headerBuffer)
    (hprocessed : s'.processed = s.processed) (hstopped : s'.isStopped = s.isStopped)
    (hpending : ∀ x : Handler, x.isRead = true → s'.Pending x → s.Pending x) :
    Hushed host stream s' where
  loop := hloop
  lifecycle := hlife
  hushed := by
    intro hover x hx hends
    rw [hbuffer] at hends
    rw [hstopped, Session.Disconnected, hprocessed] at hover
    exact h.hushed hover x (hpending x hends.isRead hx) hends
  last := by
    rw [hprocessed]
    exact h.last

/-- A read completes in time: once the session is stopped the socket is closed, and
    after a DISCONNECT the read does not end a frame. -/
theorem Hushed.completeRead (h : Hushed host stream s) {op : ReadOp} {rest : List ReadOp}
    {ec : Bool} {k : Nat} (hop : s.reads = op :: rest)
    (hloop : Loop False host stream (s.completeRead op rest ec k))
    (hquiet : s.isStopped = true ∨ s.Disconnected →
      ¬ EndsFrame host (s.completeRead op rest ec k).headerBuffer (op.handler ec k)) :
    Hushed host stream (s.completeRead op rest ec k) := by
  have hdone : (s.completeRead op rest ec k).completions = s.completions ++ [op.handler ec k] := by
    cases op <;> rfl
  have hposted : (s.completeRead op rest ec k).posted = s.posted := by cases op <;> rfl
  have hrunning : (s.completeRead op rest ec k).running = s.running := by cases op <;> rfl
  have hprocessed : (s.completeRead op rest ec k).processed = s.processed := by cases op <;> rfl
  have hstopped : (s.completeRead op rest ec k).isStopped = s.isStopped := by cases op <;> rfl
  refine ⟨hloop, h.lifecycle.completeRead _ _ _ _, ?_, ?_⟩
  · intro hover x hx
    rw [hstopped, Session.Disconnected, hprocessed] at hover
    rw [Session.Pending, hposted, hdone, hrunning] at hx
    have hwas : s.Pending x ∨ x = op.handler ec k := by
      rcases hx with hx | hx | hx
      · exact Or.inl (Or.inl hx)
      · rcases List.mem_append.mp hx with hx | hx
        · exact Or.inl (Or.inr (Or.inl hx))
        · exact Or.inr (List.mem_singleton.mp hx)
      · exact Or.inl (Or.inr (Or.inr hx))
    rcases hwas with hx | rfl
    · intro hends
      cases hends.isRead.symm.trans (h.pending_of_reads hop hx)
    · exact hquiet hover
  · rw [hprocessed]
    exact h.last

/-- The handlers that end a frame do not run once the session is hushed, and a stop
    handler closes the socket in time. -/
theorem Hushed.resume (h : Hushed host stream s) {x : Handler} (hrunning : s.running = some x)
    (hintime : x = .stop → s.isStopped = false →
      ∀ y ∈ s.completions, ¬ EndsFrame host s.headerBuffer y)
    (hloop : Loop False host stream (({ s with running := none } : Session).execute host x))
    (hlife : Lifecycle (({ s with running := none } : Session).execute host x)) :
    Hushed host stream (({ s with running := none } : Session).execute host x) := by
  cases hread : x.isRead with
  | true =>
      -- no other read handler is there, so nothing that is left ends a frame
      have hothers := h.pending_of_running hrunning hread
      have hdone : (({ s with running := none } : Session).execute host x).completions
          = s.completions := by
        have hcase := execute_read host ({ s with running := none } : Session) hread
        generalize ({ s with running := none } : Session).execute host x = t at hcase
        cases hcase <;> rfl
      have hidle : (({ s with running := none } : Session).execute host x).running = none := by
        have hcase := execute_read host ({ s with running := none } : Session) hread
        generalize ({ s with running := none } : Session).execute host x = t at hcase
        cases hcase <;> rfl
      refine ⟨hloop, hlife, ?_, ?_⟩
      · rintro - y (hy | hy | hy) hends
        · cases hends.isRead.symm.trans (Handler.isRead_of_isPosted (hloop.posted y hy))
        · rw [hdone] at hy
          cases hends.isRead.symm.trans (hothers y hy)
        · cases hidle.symm.trans hy
      · intro i p hp hdisc
        rcases execute_processed host ({ s with running := none } : Session) x with
          ⟨hsame, -⟩ | ⟨hends, q, hmore⟩
        · rw [hsame] at hp ⊢
          exact h.last i p hp hdisc
        · -- a packet is handed over, so no DISCONNECT was
          have hmore' : (({ s with running := none } : Session).execute host x).processed
              = s.processed ++ [q] := hmore
          rw [hmore'] at hp ⊢
          by_cases hlt : i < s.processed.length
          · rw [List.getElem?_append_left hlt] at hp
            exact absurd hends (h.hushed (Or.inr ⟨p, List.mem_of_getElem? hp, hdisc⟩) x
              (Or.inr (Or.inr hrunning)))
          · have hin := (List.getElem?_eq_some_iff.mp hp).1
            rw [List.length_append, List.length_singleton] at hin ⊢
            omega
  | false =>
      have hcase := execute_other host ({ s with running := none } : Session) hread
      generalize ({ s with running := none } : Session).execute host x = t at hcase hloop hlife ⊢
      -- a read handler is not posted, so one that is pending was pending before
      have hpending : ∀ {t : Session}, t.running = none → t.completions = s.completions →
          (∀ z ∈ t.posted, z.isPosted = true) → ∀ y : Handler, y.isRead = true → t.Pending y →
          s.Pending y := by
        intro t hidle hdone hposted y hy hp
        refine hp.of_taken hidle hdone fun hmem => ?_
        cases hy.symm.trans (Handler.isRead_of_isPosted (hposted y hmem))
      cases hcase with
      | closes hlive =>
          refine ⟨hloop, hlife, ?_, h.last⟩
          rintro - y (hy | hy | hy) hends
          · cases hends.isRead.symm.trans (Handler.isRead_of_isPosted (hloop.posted y hy))
          · exact hintime rfl hlive y hy hends
          · obtain rfl := Option.some.inj hy
            exact absurd hends id
      | again => exact h.quiet hloop hlife rfl rfl rfl (hpending rfl rfl hloop.posted)
      | removes => exact h.quiet hloop hlife rfl rfl rfl (hpending rfl rfl hloop.posted)
      | sends => exact h.quiet hloop hlife rfl rfl rfl (hpending rfl rfl hloop.posted)
      | pops => exact h.quiet hloop hlife rfl rfl rfl (hpending rfl rfl hloop.posted)
      | writeFailed => exact h.quiet hloop hlife rfl rfl rfl (hpending rfl rfl hloop.posted)

/-- **ONE STEP** in time. -/
theorem Hushed.step (h : Hushed host stream s) {e : Event}
    (hstep : Guarded (Session.Step host) (InTime host) s e s') : Hushed host stream s' := by
  obtain ⟨hstep, hintime⟩ := hstep
  have hloop := h.loop.step hstep fun hfalse => hfalse.elim
  have hlife := h.lifecycle.step hstep
  cases hstep with
  | @readCompletes op rest hop hopen hsize =>
      refine h.completeRead hop hloop fun hover => ?_
      have hdisc : s.Disconnected := by
        refine hover.resolve_left fun hstopped => ?_
        cases hopen.symm.trans (h.lifecycle.once.2.2.2.mp hstopped)
      have hnot := hintime hdisc op (by rw [hop]; exact List.mem_cons_self)
      cases op with
      | payload header => exact absurd trivial hnot
      | header =>
          -- the header buffer holds what arrived
          have hbuffer : (s.completeRead .header rest false headerSize).headerBuffer
              = s.incoming.take headerSize := by
            refine fill_eq ?_
            rw [List.length_take, h.loop.headerBuffer]
            exact Nat.min_eq_left hsize
          show ¬ EndsFrame host (s.completeRead .header rest false headerSize).headerBuffer _
          rw [hbuffer]
          exact hnot
  | @readFails op rest k hop =>
      refine h.completeRead hop hloop fun _ hends => ?_
      cases op <;> exact absurd hends id
  | transmit => exact h.quiet hloop hlife rfl rfl rfl fun _ _ hp => hp
  | writeCompletes =>
      refine h.quiet hloop hlife rfl rfl rfl fun x hx hp => ?_
      exact hp.imp_right (Or.imp_left (mem_of_mem_concat Handler.isRead rfl hx))
  | writeFails =>
      refine h.quiet hloop hlife rfl rfl rfl fun x hx hp => ?_
      exact hp.imp_right (Or.imp_left (mem_of_mem_concat Handler.isRead rfl hx))
  | startPosted hidle hposted =>
      exact h.quiet hloop hlife rfl rfl rfl fun x _ hp =>
        (Session.pending_startPosted hidle hposted).mp hp
  | startCompletion hidle hdone =>
      exact h.quiet hloop hlife rfl rfl rfl fun x _ hp =>
        (Session.pending_startCompletion hidle hdone).mp hp
  | @resume x hrunning =>
      refine h.resume hrunning (fun hx => hintime ?_) hloop hlife
      rw [hrunning, hx]
  | requestStop =>
      refine h.quiet hloop hlife rfl rfl rfl fun x hx hp => ?_
      exact hp.imp_left (mem_of_mem_concat Handler.isRead rfl hx)

/-- A hushed session processes nothing. -/
theorem Hushed.processed_step (h : Hushed host stream s) (hstopped : s.isStopped = true) {e : Event}
    (hstep : Session.Step host s e s') :
    s'.processed = s.processed ∧ s'.counted = s.counted := by
  cases hstep with
  | @readCompletes op => cases op <;> exact ⟨rfl, rfl⟩
  | @readFails op => cases op <;> exact ⟨rfl, rfl⟩
  | transmit => exact ⟨rfl, rfl⟩
  | writeCompletes => exact ⟨rfl, rfl⟩
  | writeFails => exact ⟨rfl, rfl⟩
  | startPosted => exact ⟨rfl, rfl⟩
  | startCompletion => exact ⟨rfl, rfl⟩
  | requestStop => exact ⟨rfl, rfl⟩
  | @resume x hrunning =>
      refine (execute_processed host ({ s with running := none } : Session) x).resolve_right ?_
      rintro ⟨hends, -⟩
      exact h.hushed (Or.inl hstopped) x (Or.inr (Or.inr hrunning)) hends

/-- The runs in which the session is stopped in time. -/
abbrev TimelyRun (host : ByteOrder) : Session → List Event → Session → Prop :=
  Run (Guarded (Session.Step host) (InTime host))

theorem Hushed.run (h : Hushed host stream s) {es : List Event} (hrun : TimelyRun host s es s') :
    Hushed host stream s' :=
  hrun.invariant (fun _ _ _ hstep hs => Hushed.step hs hstep) h

/-- Nothing is processed after the stop, and nothing behind a DISCONNECT. -/
structure Silent (host : ByteOrder) (stream : Bytes) (s : Session) : Prop where
  /-- Once `isStopped_` is set no packet is processed or counted. -/
  stopped : s.isStopped = true → ∀ es t, TimelyRun host s es t →
    t.processed = s.processed ∧ t.counted = s.counted
  /-- Of a stream of frames up to a DISCONNECT, with anything behind it, no more than
      these frames is handed over. -/
  disconnected : ∀ (ps : List Packet) (d : Packet) (rest : Bytes),
    (∀ p ∈ ps ++ [d], p.Sendable) → d.header.type = .disconnect →
    stream = (ps ++ [d]).flatMap (serializePacket host) ++ rest →
    s.processed.map Packet.frame <+: (ps ++ [d]).map Packet.frame

theorem Hushed.silent (h : Hushed host stream s) : Silent host stream s where
  stopped := by
    intro hstopped es t hrun
    refine (hrun.invariant (I := fun u => Hushed host stream u ∧ u.isStopped = true
        ∧ u.processed = s.processed ∧ u.counted = s.counted) ?_ ⟨h, hstopped, rfl, rfl⟩).2.2
    rintro u e u' hstep ⟨hu, hstop, hprocessed, hcounted⟩
    have hsame := hu.processed_step hstop hstep.1
    exact ⟨hu.step hstep, isStopped_step hstop hstep.1, hsame.1.trans hprocessed,
      hsame.2.trans hcounted⟩
  disconnected := by
    intro ps d rest hsend hdisc hstream
    have hreads : Reads Packet.Sendable (serializePacket host) stream (ps ++ [d]) :=
      ⟨hsend, hstream ▸ List.prefix_append _ _⟩
    by_cases hle : s.processed.length ≤ (ps ++ [d]).length
    · exact frames_of_serializePacket host ((packetCode host).comparable h.loop.reads hreads hle)
    · -- the DISCONNECT would be processed, and not as the last packet
      have hle' := Nat.le_of_lt (Nat.lt_of_not_le hle)
      obtain ⟨more, hmore⟩ :=
        frames_of_serializePacket host ((packetCode host).comparable hreads h.loop.reads hle')
      have hat : (s.processed.map Packet.frame)[ps.length]? = some d.frame := by
        rw [← hmore, List.map_append, List.append_assoc,
          List.getElem?_append_right (Nat.le_of_eq (List.length_map _)), List.length_map,
          Nat.sub_self]
        rfl
      rw [List.getElem?_map, Option.map_eq_some_iff] at hat
      obtain ⟨p, hp, hframe⟩ := hat
      have htype : p.header.type = .disconnect := (congrArg Prod.fst hframe).trans hdisc
      rw [List.length_append, List.length_singleton, h.last ps.length p hp htype] at hle
      exact absurd (Nat.le_refl _) hle

/-- **SILENCE**: a session whose stops come in time processes nothing once it is
    stopped, and nothing behind a DISCONNECT. -/
theorem timely_silent (host : ByteOrder) (stream : Bytes) (es : List Event) (s : Session)
    (hrun : TimelyRun host (Session.opened stream) es s) : Silent host stream s :=
  ((Hushed.opened host stream).run hrun).silent

/-- A DISCONNECT, and a PING that is not read any more. -/
theorem timely_silent_disconnect :
    Silent .little [0x41, 0x4E, 0, 0xFF, 0, 0, 0, 0, 0x41, 0x4E, 0, 1, 0, 0, 0, 0]
      { Session.opened [0x41, 0x4E, 0, 1, 0, 0, 0, 0] with
        headerBuffer := [0x41, 0x4E, 0, 0xFF, 0, 0, 0, 0]
        processed := [⟨⟨magicHeader, .disconnect, 0⟩, []⟩], counted := 1
        isStopped := true, socketOpen := false, closings := 1, removals := 1 } :=
  timely_silent .little _
    [.readCompletes, .startCompletion, .resume, .startPosted, .resume, .resume] _ <|
    .cons ⟨.readCompletes rfl rfl (by decide), fun ⟨p, hp, _⟩ => absurd hp List.not_mem_nil⟩ <|
    .cons ⟨@Session.Step.startCompletion _ _ [] [] _ rfl rfl, trivial⟩ <|
    .cons ⟨.resume rfl, fun hr => by cases hr⟩ <|
    .cons ⟨.startPosted rfl (by rfl), trivial⟩ <|
    .cons ⟨.resume rfl, fun _ _ h hh => absurd hh List.not_mem_nil⟩ <|
    .cons ⟨.resume rfl, fun hr => by cases hr⟩ (by exact .nil)

/-- **NOT SILENT**: a PING whose read completed before the stop handler ran is
    processed by the stopped session; and a PING behind a DISCONNECT is processed when
    its read completes before the stop handler runs. -/
theorem stopped_processes :
    (∃ es s es' t,
      Run (Session.Step .little) (Session.opened [0x41, 0x4E, 0, 1, 0, 0, 0, 0]) es s
        ∧ s.isStopped = true ∧ s.processed = [] ∧ s.counted = 0
        ∧ Run (Session.Step .little) s es' t
        ∧ t.processed.map Packet.frame = [(.ping, [])] ∧ t.counted = 1)
    ∧ ∃ es t, Run (Session.Step .little)
        (Session.opened [0x41, 0x4E, 0, 0xFF, 0, 0, 0, 0, 0x41, 0x4E, 0, 1, 0, 0, 0, 0]) es t
        ∧ t.processed.map Packet.frame = [(.disconnect, []), (.ping, [])] := by
  constructor
  · refine ⟨_, _, _, _, .cons (.readCompletes rfl rfl (by decide)) <| .cons .requestStop <|
      .cons (.startPosted rfl rfl) <| .cons (.resume rfl) <| .cons (.resume rfl) .nil, rfl, rfl, rfl,
      .cons (@Session.Step.startCompletion _ _ [] [] _ rfl rfl) <| .cons (.resume rfl) .nil, ?_, ?_⟩
    · rfl
    · rfl
  · refine ⟨_, _, .cons (.readCompletes rfl rfl (by decide)) <|
      .cons (@Session.Step.startCompletion _ _ [] [] _ rfl rfl) <| .cons (.resume rfl) <|
      .cons (.readCompletes rfl rfl (by decide)) <|
      .cons (.startPosted rfl rfl) <| .cons (.resume rfl) <| .cons (.resume rfl) <|
      .cons (@Session.Step.startCompletion _ _ [] [] _ rfl rfl) <| .cons (.resume rfl) .nil, ?_⟩
    rfl

end Stopped

end AsyncNet
