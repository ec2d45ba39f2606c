import AsyncNetLob.NetRegistryProofs
import AsyncNetLob.NetWorkProofs

/-! # Connections do not meddle with each other

    The sessions share the workers, the registry and the accept handler, and `stopAll`
    stops them all.  Yet each of them runs as if it were alone: what a run of the server
    does to session `i` is a run of `NetSession` from a session that was opened on what
    the `i`-th accepted peer sends, whose `stop` may be called by somebody
    (`served_alone`).

    No connection is lost or given to two sessions: the accepted peers are those that
    have a session, in order, and at most one in the accept handler
    (`Separate.connections`).

    The one thing out of order is the start.  `stopAll` can post a stop handler to a
    session that was added and not yet started, and another worker can even run it; the
    read that `start` begins afterwards might as well have been there from the
    beginning (`Unstarted.start`). -/

namespace AsyncNet

open Protocol PrefixCode Transition

/-- What an event of the server is to session `i`. -/
def ServerEvent.seenBy (i : Nat) : ServerEvent → Option Event
  | .session j e => if j = i then some e else none
  | .stopSession j => if j = i then some .requestStop else none
  | _ => none

/-- The part of session `i` in a run of the server. -/
def sessionEvents (i : Nat) (es : List ServerEvent) : List Event :=
  es.filterMap (ServerEvent.seenBy i)

/-- The stream of the peer that an event connects. -/
def ServerEvent.peer : ServerEvent → Option Bytes
  | .accepted stream => some stream
  | _ => none

/-- The streams of the peers that were accepted, in order. -/
def peers (es : List ServerEvent) : List Bytes := es.filterMap ServerEvent.peer

/-- The stream of a connection that has no session yet. -/
def Accept.pending : Accept → List Bytes
  | .queued false stream => [stream]
  | .checking false stream => [stream]
  | _ => []

/-! ## Before the start -/

/-- Nothing but stop handlers has reached the session. -/
structure Unstarted (s : Session) : Prop where
  reads       : s.reads = []
  writes      : s.writes = []
  completions : s.completions = []
  posted      : ∀ h ∈ s.posted, h = .stop
  running     : ∀ h, s.running = some h → h = .stop ∨ h = .removeSession

section Isolation

variable {host : ByteOrder}

theorem Unstarted.new (stream : Bytes) : Unstarted (Session.new stream) where
  reads := rfl
  writes := rfl
  completions := rfl
  posted := fun _ hx => absurd hx List.not_mem_nil
  running := fun _ hx => by cases hx

theorem Unstarted.step {s s' : Session} (h : Unstarted s) {e : Event}
    (hstep : Session.Step host s e s') : Unstarted s' := by
  cases hstep with
  | readCompletes hop => cases h.reads.symm.trans hop
  | readFails hop => cases h.reads.symm.trans hop
  | transmit hop => cases h.writes.symm.trans hop
  | writeCompletes hop => cases h.writes.symm.trans hop
  | writeFails hop => cases h.writes.symm.trans hop
  | @startPosted x rest _ hposted =>
      have hmem : ∀ y ∈ x :: rest, y = .stop := by
        intro y hy
        rw [← hposted] at hy
        exact h.posted y hy
      refine { h with posted := fun y hy => hmem y (List.mem_cons_of_mem _ hy), running := ?_ }
      intro y hy
      obtain rfl := Option.some.inj hy
      exact Or.inl (hmem _ List.mem_cons_self)
  | startCompletion _ hdone =>
      cases (List.append_eq_nil_iff.mp (hdone.symm.trans h.completions)).2
  | resume hrunning =>
      rcases h.running _ hrunning with rfl | rfl
      · show Unstarted (({ s with running := none } : Session).onStop)
        rw [Session.onStop]
        split
        · exact { h with running := fun _ hx => by cases hx }
        · refine { h with running := fun _ hx => ?_ }
          exact Or.inr (Option.some.inj hx).symm
      · exact { h with running := fun _ hx => by cases hx }
  | requestStop =>
      refine { h with posted := fun y hy => ?_ }
      rcases List.mem_append.mp hy with hy | hy
      · exact h.posted y hy
      · exact List.mem_singleton.mp hy

theorem onStop_start (s : Session) : s.onStop.start = s.start.onStop := by
  rw [Session.onStop, Session.onStop, apply_ite Session.start]
  rfl

/-- **THE START** might as well have been before. -/
theorem Unstarted.start {s s' : Session} (h : Unstarted s) {e : Event}
    (hstep : Session.Step host s e s') : Session.Step host s.start e s'.start := by
  cases hstep with
  | readCompletes hop => cases h.reads.symm.trans hop
  | readFails hop => cases h.reads.symm.trans hop
  | transmit hop => cases h.writes.symm.trans hop
  | writeCompletes hop => cases h.writes.symm.trans hop
  | writeFails hop => cases h.writes.symm.trans hop
  | startCompletion _ hdone =>
      cases (List.append_eq_nil_iff.mp (hdone.symm.trans h.completions)).2
  | startPosted hidle hposted => exact @Session.Step.startPosted host s.start _ _ hidle hposted
  | requestStop => exact @Session.Step.requestStop host s.start
  | @resume x hrunning =>
      have hresume := @Session.Step.resume host s.start x hrunning
      have hsame : (({ s with running := none } : Session).execute host x).start
          = ({ s.start with running := none } : Session).execute host x := by
        rcases h.running x hrunning with rfl | rfl
        · exact onStop_start _
        · rfl
      rw [hsame]
      exact hresume

/-! ## Runs of the server -/

variable {sv sv' : Server}

/-- A session so far: as if it had been opened at once on its stream. -/
def AsIfAlone (host : ByteOrder) (stream : Bytes) (es : List Event) (started : Prop)
    (s : Session) : Prop :=
  (started → Run (Session.Step host) (Session.opened stream) es s)
    ∧ (¬ started → Unstarted s ∧ Run (Session.Step host) (Session.opened stream) es s.start)

/-- The invariant of a run `es` of the server. -/
structure Separate (host : ByteOrder) (es : List ServerEvent) (sv : Server) : Prop where
  served  : Served sv
  /-- Each accepted peer has a session, or is in the accept handler. -/
  connections : ∃ made : List Bytes, made.length = sv.sessions.length
    ∧ peers es = made ++ sv.accept.pending
  /-- The accept handler starts each session once. -/
  starts  : ∀ i, sv.accept = .starting i → i ∉ sv.starts
  quiet   : ∀ i, sv.sessions.length ≤ i → sessionEvents i es = []
  session : ∀ (i : Nat) (s : Session), sv.sessions[i]? = some s →
    ∃ stream, (peers es)[i]? = some stream
      ∧ AsIfAlone host stream (sessionEvents i es) (i ∈ sv.starts) s

theorem Separate.opened (host : ByteOrder) (threadPoolSize : Nat) :
    Separate host [] (Server.started threadPoolSize) where
  served := .opened threadPoolSize
  connections := ⟨[], rfl, rfl⟩
  starts := fun _ hi => by cases hi
  quiet := fun _ _ => rfl
  session := fun _ _ hs => by cases hs

theorem sessionEvents_concat (i : Nat) (es : List ServerEvent) (e : ServerEvent) :
    sessionEvents i (es ++ [e]) = sessionEvents i es ++ (e.seenBy i).toList := by
  rw [sessionEvents, List.filterMap_append, sessionEvents]
  cases h : e.seenBy i with
  | none => rw [List.filterMap_cons_none h, List.filterMap_nil, Option.toList_none]
  | some d => rw [List.filterMap_cons_some h, List.filterMap_nil, Option.toList_some]

theorem sessionEvents_other {i : Nat} (es : List ServerEvent) {e : ServerEvent}
    (h : e.seenBy i = none) : sessionEvents i (es ++ [e]) = sessionEvents i es := by
  rw [sessionEvents_concat, h, Option.toList_none, List.append_nil]

theorem peers_concat (es : List ServerEvent) (e : ServerEvent) :
    peers (es ++ [e]) = peers es ++ e.peer.toList := by
  rw [peers, List.filterMap_append, peers]
  cases e <;> rfl

/-- Who was accepted keeps his place. -/
theorem peers_kept {es : List ServerEvent} {i : Nat} {stream : Bytes}
    (h : (peers es)[i]? = some stream) (e : ServerEvent) :
    (peers (es ++ [e]))[i]? = some stream := by
  rw [peers_concat, List.getElem?_append_left (List.getElem?_eq_some_iff.mp h).1]
  exact h

theorem AsIfAlone.step {stream : Bytes} {es : List Event} {started : Prop} {s s' : Session}
    {e : Event} (h : AsIfAlone host stream es started s) (hstep : Session.Step host s e s') :
    AsIfAlone host stream (es ++ [e]) started s' := by
  obtain ⟨hrun, hbefore⟩ := h
  refine ⟨fun hstarted => (hrun hstarted).append (.single hstep), fun hnot => ?_⟩
  obtain ⟨hunstarted, hrun⟩ := hbefore hnot
  exact ⟨hunstarted.step hstep, hrun.append (.single (hunstarted.start hstep))⟩

/-- A peer that is accepted comes to the accept handler. -/
theorem Separate.connections_step {es : List ServerEvent} {e : ServerEvent}
    (h : Separate host es sv) (hlength : sv'.sessions.length = sv.sessions.length)
    (hpending : sv'.accept.pending = sv.accept.pending ++ e.peer.toList) :
    ∃ made : List Bytes, made.length = sv'.sessions.length
      ∧ peers (es ++ [e]) = made ++ sv'.accept.pending := by
  obtain ⟨made, hmade, hpeers⟩ := h.connections
  refine ⟨made, hmade.trans hlength.symm, ?_⟩
  rw [peers_concat, hpeers, hpending, List.append_assoc]

/-- A step that no session sees. -/
theorem Separate.unseen {es : List ServerEvent} {e : ServerEvent} (h : Separate host es sv)
    (hserved : Served sv') (hsessions : sv'.sessions = sv.sessions)
    (hsame : sv'.starts = sv.starts)
    (hpending : sv'.accept.pending = sv.accept.pending ++ e.peer.toList)
    (hstarts : ∀ i, sv'.accept = .starting i → i ∉ sv.starts)
    (hunseen : ∀ i, e.seenBy i = none) : Separate host (es ++ [e]) sv' where
  served := hserved
  connections := h.connections_step (congrArg List.length hsessions) hpending
  starts := fun i hi => by
    rw [hsame]
    exact hstarts i hi
  quiet := fun i hi => by
    rw [sessionEvents_other es (hunseen i)]
    rw [hsessions] at hi
    exact h.quiet i hi
  session := fun i s hs => by
    rw [sessionEvents_other es (hunseen i), hsame]
    rw [hsessions] at hs
    obtain ⟨stream, hpeer, halone⟩ := h.session i s hs
    exact ⟨stream, peers_kept hpeer e, halone⟩

/-- A step that session `i` sees. -/
theorem Separate.seen {es : List ServerEvent} {e : ServerEvent} {i : Nat} {s s' : Session}
    {d : Event} (h : Separate host es sv) (hserved : Served sv')
    (hs : sv.sessions[i]? = some s) (hstep : Session.Step host s d s')
    (hsessions : sv'.sessions = sv.sessions.set i s') (hsame : sv'.starts = sv.starts)
    (haccept : sv'.accept = sv.accept) (hpeer : e.peer = none) (hseen : e.seenBy i = some d)
    (hunseen : ∀ j, j ≠ i → e.seenBy j = none) : Separate host (es ++ [e]) sv' where
  served := hserved
  connections := by
    refine h.connections_step ?_ ?_
    · rw [hsessions, List.length_set]
    · rw [haccept, hpeer, Option.toList_none, List.append_nil]
  starts := by
    rw [haccept, hsame]
    exact h.starts
  quiet := by
    intro j hj
    rw [hsessions, List.length_set] at hj
    have hlt := (List.getElem?_eq_some_iff.mp hs).1
    rw [sessionEvents_other es (hunseen j (by omega))]
    exact h.quiet j hj
  session := by
    intro j u hu
    rw [hsessions] at hu
    rw [hsame]
    rcases getElem?_set_cases hu with ⟨rfl, rfl⟩ | ⟨hji, hu⟩
    · obtain ⟨stream, hpeer, halone⟩ := h.session j s hs
      rw [sessionEvents_concat, hseen, Option.toList_some]
      exact ⟨stream, peers_kept hpeer e, halone.step hstep⟩
    · obtain ⟨stream, hpeer, halone⟩ := h.session j u hu
      rw [sessionEvents_other es (hunseen j hji)]
      exact ⟨stream, peers_kept hpeer e, halone⟩

/-- The accept handler makes a session for the peer that came last. -/
theorem Separate.make {es : List ServerEvent} (h : Separate host es sv) {ec : Bool}
    {stream : Bytes} (hpc : sv.accept = .checking ec stream) (hec : ec = false) :
    Separate host (es ++ [.acceptStep]) (sv.acceptStep (.checking ec stream)) := by
  have hserved := h.served.acceptStep hpc
  have hunseen : ∀ i, sessionEvents i (es ++ [.acceptStep]) = sessionEvents i es :=
    fun i => sessionEvents_other es rfl
  subst hec
  obtain ⟨made, hmade, hpeers⟩ := h.connections
  have hpeers' : peers es = made ++ [stream] := by
    rw [hpeers, hpc]
    rfl
  refine ⟨hserved, ⟨made ++ [stream], ?_, ?_⟩, fun _ hi => (by cases hi), ?_, ?_⟩
  · show (made ++ [stream]).length = (sv.sessions ++ [Session.new stream]).length
    rw [List.length_append, List.length_append, hmade]
    rfl
  · rw [peers_concat, hpeers']
    rfl
  · intro i hi
    have hi' : (sv.sessions ++ [Session.new stream]).length ≤ i := hi
    rw [List.length_append] at hi'
    rw [hunseen]
    exact h.quiet i (by omega)
  · intro i s hs
    rw [hunseen]
    rcases getElem?_concat_cases hs with hs | ⟨rfl, rfl⟩
    · obtain ⟨u, hpeer, halone⟩ := h.session i s hs
      exact ⟨u, peers_kept hpeer _, halone⟩
    · refine ⟨stream, peers_kept ?_ _, ?_, fun _ => ⟨.new stream, ?_⟩⟩
      · rw [hpeers', ← hmade, List.getElem?_concat_length]
      · intro hstarted
        exact absurd (h.served.added _ (h.served.started _ hstarted)) (Nat.lt_irrefl _)
      · rw [h.quiet _ (Nat.le_refl _)]
        exact .nil

/-- The accept handler starts its session. -/
theorem Separate.startSession {es : List ServerEvent} (h : Separate host es sv) {i : Nat}
    (hpc : sv.accept = .starting i) :
    Separate host (es ++ [.acceptStep]) (sv.acceptStep (.starting i)) := by
  have hserved := h.served.acceptStep hpc
  have hunseen : ∀ i, sessionEvents i (es ++ [.acceptStep]) = sessionEvents i es :=
    fun i => sessionEvents_other es rfl
  have hknows := h.served.accept
  rw [hpc] at hknows
  obtain ⟨s, hs⟩ := h.served.exists_session hknows
  refine ⟨hserved, h.connections_step (List.length_modify ..) ?_, fun _ hi => (by cases hi), ?_, ?_⟩
  · rw [hpc]
    rfl
  · intro j hj
    have hj' : (sv.sessions.modify i Session.start).length ≤ j := hj
    rw [List.length_modify] at hj'
    rw [hunseen]
    exact h.quiet j hj'
  · intro j u hu
    have hu' : (sv.sessions.modify i Session.start)[j]? = some u := hu
    rw [modify_eq_set hs] at hu'
    rw [hunseen]
    show ∃ stream, _ ∧ AsIfAlone host stream (sessionEvents j es) (j ∈ sv.starts ++ [i]) u
    rcases getElem?_set_cases hu' with ⟨rfl, rfl⟩ | ⟨hji, hu'⟩
    · obtain ⟨stream, hpeer, -, hbefore⟩ := h.session j s hs
      have hmem : j ∈ sv.starts ++ [j] := List.mem_append_right _ (List.mem_singleton_self _)
      exact ⟨stream, peers_kept hpeer _, fun _ => (hbefore (h.starts j hpc)).2,
        fun hnot => absurd hmem hnot⟩
    · obtain ⟨stream, hpeer, hrun, hbefore⟩ := h.session j u hu'
      refine ⟨stream, peers_kept hpeer _, fun hmem => hrun ?_, fun hnot => hbefore ?_⟩
      · rcases List.mem_append.mp hmem with hmem | hmem
        · exact hmem
        · exact absurd (List.mem_singleton.mp hmem) hji
      · intro hmem
        exact hnot (List.mem_append_left _ hmem)

/-- **ONE STEP** of the server is one of at most one session. -/
theorem Separate.step {es : List ServerEvent} {e : ServerEvent} (h : Separate host es sv)
    (hstep : Server.Step host sv e sv') : Separate host (es ++ [e]) sv' := by
  have hserved := h.served.step hstep
  -- most steps leave the accept handler as it is
  have hsame : sv.accept.pending = sv.accept.pending ++ [] := (List.append_nil _).symm
  cases hstep with
  | accepted hout =>
      refine h.unseen hserved rfl rfl ?_ (fun _ hi => by cases hi) fun _ => rfl
      rw [hout]
      rfl
  | acceptFails hout =>
      refine h.unseen hserved rfl rfl ?_ (fun _ hi => by cases hi) fun _ => rfl
      rw [hout]
      rfl
  | @startAccept ec stream hqueued =>
      refine h.unseen hserved rfl rfl ?_ (fun _ hi => by cases hi) fun _ => rfl
      rw [hqueued]
      cases ec <;> rfl
  | @acceptStep pc hpc =>
      cases pc with
      | checking ec stream =>
          cases ec with
          | true =>
              refine h.unseen hserved rfl rfl ?_ (fun _ hi => by cases hi) fun _ => rfl
              rw [hpc]
              rfl
          | false => exact h.make hpc rfl
      | adding i =>
          have hknows := h.served.accept
          rw [hpc] at hknows
          refine h.unseen hserved rfl rfl ?_ ?_ fun _ => rfl
          · rw [hpc]
            rfl
          · intro j hj
            obtain rfl := Accept.starting.inj hj
            exact fun hmem => hknows.1 (h.served.started _ hmem)
      | starting i => exact h.startSession hpc
      | rearming =>
          -- the handler goes on, or the loop is at its end
          have hnext : (sv.acceptStep .rearming).accept = .outstanding
              ∨ (sv.acceptStep .rearming).accept = .ended := by
            show (if sv.isRunning then Accept.outstanding else .ended) = _
              ∨ (if sv.isRunning then Accept.outstanding else .ended) = _
            split
            · exact Or.inl rfl
            · exact Or.inr rfl
          refine h.unseen hserved rfl rfl ?_ ?_ fun _ => rfl
          · rw [hpc]
            rcases hnext with hnext | hnext <;> rw [hnext] <;> rfl
          · intro j hj
            rcases hnext with hnext | hnext <;> cases hnext.symm.trans hj
      | ended => exact h.unseen hserved rfl rfl hsame h.starts fun _ => rfl
      | outstanding => exact h.unseen hserved rfl rfl hsame h.starts fun _ => rfl
      | queued => exact h.unseen hserved rfl rfl hsame h.starts fun _ => rfl
  | @session i s s' d hs hsession =>
      rw [sessionStep_eq] at hserved ⊢
      exact h.seen hserved hs hsession rfl rfl rfl rfl (if_pos rfl) fun j hji => if_neg hji.symm
  | @stopStep pc =>
      cases pc with
      | notCalled => exact h.unseen hserved rfl rfl hsame h.starts fun _ => rfl
      | flagged => exact h.unseen hserved rfl rfl hsame h.starts fun _ => rfl
      | stopping => exact h.unseen hserved rfl rfl hsame h.starts fun _ => rfl
      | cleared => exact h.unseen hserved rfl rfl hsame h.starts fun _ => rfl
      | acceptorClosed => exact h.unseen hserved rfl rfl hsame h.starts fun _ => rfl
      | joining => exact h.unseen hserved rfl rfl hsame h.starts fun _ => rfl
      | returned => exact h.unseen hserved rfl rfl hsame h.starts fun _ => rfl
  | @stopSession i remaining hpc hi =>
      obtain ⟨s, hs⟩ := h.served.exists_session (h.served.remaining remaining hpc i hi)
      exact h.seen hserved hs (@Session.Step.requestStop host s) (modify_eq_set hs _) rfl rfl rfl
        (if_pos rfl) fun j hji => if_neg hji.symm

/-- What the peer of session `i` gets, in a run `es` of the server. -/
structure ServedAlone (host : ByteOrder) (i : Nat) (es : List ServerEvent) (s : Session)
    (stream : Bytes) : Prop where
  run    : Run (Session.Step host) (Session.opened stream) (sessionEvents i es) s
  /-- It is heard: the packets are frames at the beginning of its stream. -/
  heard  : Reads Packet.Sendable (serializePacket host) stream s.processed
  /-- It is sent nothing but the answers to them. -/
  sent   : s.outgoing <+: (s.processed.flatMap Packet.replies).flatten

/-- **SEPARATE CONNECTIONS**: whatever the other connections, the accept handler and
    `Server::stop` do in between, session `i`, once started, runs as if it were alone on
    what the `i`-th accepted peer sends, and that peer is sent the answers to its own
    packets only. -/
theorem served_alone (host : ByteOrder) (threadPoolSize : Nat) (es : List ServerEvent)
    (sv : Server) (hrun : Run (Server.Step host) (Server.started threadPoolSize) es sv)
    (i : Nat) (s : Session) (hs : sv.sessions[i]? = some s) (hstarted : i ∈ sv.starts) :
    ∃ stream, (peers es)[i]? = some stream ∧ ServedAlone host i es s stream := by
  have hseparate : Separate host ([] ++ es) sv :=
    hrun.historic (fun _ _ _ _ hstep h => Separate.step h hstep) (.opened host threadPoolSize)
  obtain ⟨stream, hpeer, halone, -⟩ := hseparate.session i s hs
  have hsession := halone hstarted
  have hloop := Loop.of_run hsession
  obtain ⟨popped, later, hreplies⟩ := Replies.run hsession (Replies.opened stream)
  exact ⟨stream, hpeer, hsession, hloop.reads, hreplies.outgoing⟩

/-- Two peers, one with a PING and one with an ECHO_REQUEST, on two workers.  `stopAll`
    comes between `addSession` and `start` of the second session. -/
def twoConnections : List ServerEvent :=
  [.accepted [0x41, 0x4E, 0, 1, 0, 0, 0, 0], .startAccept, .acceptStep, .acceptStep, .acceptStep,
    .acceptStep, .accepted [0x41, 0x4E, 0, 3, 0, 0, 0, 2, 0x68, 0x69], .session 0 .readCompletes,
    .session 0 .startCompletion, .session 0 .resume, .startAccept, .acceptStep, .acceptStep,
    .stopStep, .stopStep, .stopSession 1, .acceptStep, .session 0 .startPosted, .session 0 .resume,
    .session 0 .transmit, .session 1 .readCompletes, .session 1 .startCompletion,
    .session 1 .resume, .session 1 .readCompletes, .session 1 .startCompletion, .session 1 .resume]

/-- The first session has sent its PONG. -/
def pongSent : Session :=
  { Session.opened [] with
    headerBuffer := [0x41, 0x4E, 0, 1, 0, 0, 0, 0], processed := [⟨⟨magicHeader, .ping, 0⟩, []⟩]
    counted := 1, writeQueue := [[0x41, 0x4E, 0, 2, 0, 0, 0, 0]], writes := [⟨8, 8⟩]
    outgoing := [0x41, 0x4E, 0, 2, 0, 0, 0, 0] }

/-- The second one will drop its response, behind the stop handler. -/
def echoPosted : Session :=
  { Session.opened [] with
    headerBuffer := [0x41, 0x4E, 0, 3, 0, 0, 0, 2], payloadBuffer := [0x68, 0x69]
    processed := [⟨⟨magicHeader, .echoRequest, 2⟩, [0x68, 0x69]⟩], counted := 1
    posted := [.stop, .send [0x41, 0x4E, 0, 4, 0, 0, 0, 2, 0x68, 0x69]] }

theorem run_twoConnections :
    ∃ sv, Run (Server.Step .little) (Server.started 2) twoConnections sv
      ∧ sv.sessions = [pongSent, echoPosted] ∧ sv.starts = [0, 1] := by
  refine ⟨_,
    .cons (.accepted rfl rfl) <| .cons (.startAccept rfl ⟨rfl, by decide⟩) <|
    .cons (.acceptStep rfl rfl (by rintro ⟨i, hi⟩; cases hi)) <|
    .cons (.acceptStep rfl rfl (by rintro - ⟨r, hr⟩; cases hr)) <|
    .cons (.acceptStep rfl rfl (by rintro ⟨i, hi⟩; cases hi)) <|
    .cons (.acceptStep rfl rfl (by rintro ⟨i, hi⟩; cases hi)) <|
    .cons (.accepted rfl rfl) <|
    -- the first session reads its PING
    .cons (.unhindered rfl (.readCompletes rfl rfl (by decide)) (fun he => by cases he)
      (by decide)) <|
    .cons (.unhindered rfl (@Session.Step.startCompletion _ _ [] [] _ rfl rfl)
      (fun _ => ⟨rfl, by decide⟩) (by decide)) <|
    .cons (.unhindered rfl (.resume rfl) (fun he => by cases he) (by decide)) <|
    -- the second one is made, added, stopped and started
    .cons (.startAccept rfl ⟨rfl, by decide⟩) <|
    .cons (.acceptStep rfl rfl (by rintro ⟨i, hi⟩; cases hi)) <|
    .cons (.acceptStep rfl rfl (by rintro - ⟨r, hr⟩; cases hr)) <|
    .cons (.stopStep rfl (by decide) (fun r hr => by cases hr) (fun hj => by cases hj)) <|
    .cons (.stopStep rfl (by decide) (fun r hr => by cases hr) (fun hj => by cases hj)) <|
    .cons (@Server.Step.stopSession _ _ 1 {1, 0} rfl (by decide)) <|
    .cons (.acceptStep rfl rfl (by rintro ⟨i, hi⟩; cases hi)) <|
    -- the PONG is sent
    .cons (.unhindered rfl (.startPosted (by rfl) (by rfl)) (fun _ => ⟨rfl, by decide⟩) (by decide)) <|
    .cons (.unhindered rfl (.resume (by rfl)) (fun he => by cases he) (by decide)) <|
    .cons (.unhindered rfl (@Session.Step.transmit _ _ ⟨8, 0⟩ [] [0x41, 0x4E, 0, 2, 0, 0, 0, 0] 8
      (by rfl) (by rfl) (by rfl) (by decide)) (fun he => by cases he) (by decide)) <|
    -- the second session reads its request
    .cons (.unhindered rfl (.readCompletes (by rfl) (by rfl) (by decide)) (fun he => by cases he)
      (by decide)) <|
    .cons (.unhindered rfl (@Session.Step.startCompletion _ _ [] [] _ (by rfl) (by rfl))
      (fun _ => ⟨rfl, by decide⟩) (by decide)) <|
    .cons (.unhindered rfl (.resume (by rfl)) (fun he => by cases he) (by decide)) <|
    .cons (.unhindered rfl (.readCompletes (by rfl) (by rfl) (by decide)) (fun he => by cases he)
      (by decide)) <|
    .cons (.unhindered rfl (@Session.Step.startCompletion _ _ [] [] _ (by rfl) (by rfl))
      (fun _ => ⟨rfl, by decide⟩) (by decide)) <|
    .cons (.unhindered rfl (.resume (by rfl)) (fun he => by cases he) (by decide)) .nil, ?_, ?_⟩
  · rfl
  · rfl

/-- Each peer is served as if it were the only one. -/
theorem served_alone_two :
    ServedAlone .little 0 twoConnections pongSent [0x41, 0x4E, 0, 1, 0, 0, 0, 0]
      ∧ ServedAlone .little 1 twoConnections echoPosted
        [0x41, 0x4E, 0, 3, 0, 0, 0, 2, 0x68, 0x69] := by
  obtain ⟨sv, hrun, hsessions, hstarts⟩ := run_twoConnections
  constructor
  · obtain ⟨stream, hpeer, halone⟩ := served_alone .little 2 _ sv hrun 0 pongSent
      (by rw [hsessions]; rfl) (by rw [hstarts]; decide)
    obtain rfl := Option.some.inj hpeer
    exact halone
  · obtain ⟨stream, hpeer, halone⟩ := served_alone .little 2 _ sv hrun 1 echoPosted
      (by rw [hsessions]; rfl) (by rw [hstarts]; decide)
    obtain rfl := Option.some.inj hpeer
    exact halone

end Isolation

end AsyncNet
