import AsyncNetLob.NetClient
import AsyncNetLob.NetEncoderProofs
import Mathlib.Data.List.Infix

/-! # A worker is served

    The worker and its session are one system.  `ClientPhase` says what the worker has
    written and read at each place of its loop; with the invariants of the session
    (`Loop`, `Replies`) it decides what can have come back: the responses to the
    requests sent so far, or a beginning of them (`outgoing_begins`).

    So the worker never reads anything but its response, no side throws or hangs up, and
    no side waits for the other: a link where nothing can happen any more is one where all
    requests were answered and both sides are closed (`connected_served`). -/

namespace AsyncNet

open Protocol PrefixCode Transition

/-! ## Requests and responses -/

/-- What answers a request: an ECHO_RESPONSE header with the size of the payload, and
    the payload. -/
def response (payload : Bytes) : Packet where
  header := ⟨magicHeader, .echoResponse, UInt32.ofNat payload.length⟩
  payload := payload

theorem createEchoResponse_eq (payload : Bytes) :
    createEchoResponse payload = response payload := rfl

section Frames

variable (host : ByteOrder) (payload : Bytes)

/-- The frame of a request, of its response and of the DISCONNECT. -/
abbrev requestBytes : Bytes := serializePacket host (requestPacket payload)
abbrev responseBytes : Bytes := serializePacket host (response payload)
abbrev disconnectBytes : Bytes := serializePacket host disconnectPacket

/-- The first `k` requests. -/
def requests (k : ℕ) : List Packet := List.replicate k (requestPacket payload)

theorem requestBytes_length : (requestBytes host payload).length = headerSize + payload.length :=
  serializePacket_length host _

theorem responseBytes_length : (responseBytes host payload).length = headerSize + payload.length :=
  serializePacket_length host _

theorem disconnectBytes_length : (disconnectBytes host).length = headerSize :=
  serializePacket_length host _

theorem requests_succ (k : ℕ) :
    requests payload (k + 1) = requests payload k ++ [requestPacket payload] :=
  List.replicate_succ'

/-- Each request is answered by its response. -/
theorem replies_requests (k : ℕ) :
    (requests payload k).flatMap Packet.replies
      = List.replicate k (responseBytes host payload) := by
  induction k with
  | zero => rfl
  | succ k ih =>
      rw [requests_succ, List.flatMap_append, ih, List.flatMap_singleton, List.replicate_succ',
        responseBytes, ← createEchoResponse_eq, serializePacket_echoResponse]
      rfl

theorem replies_disconnect : disconnectPacket.replies = [] := rfl

theorem flatten_replicate_length (k : ℕ) (bytes : Bytes) :
    (List.replicate k bytes).flatten.length = k * bytes.length := by
  induction k with
  | zero => simp
  | succ k ih =>
      rw [List.replicate_succ, List.flatten_cons, List.length_append, ih, Nat.succ_mul]
      exact Nat.add_comm _ _

/-- What is left of the responses after the first `k`. -/
theorem flatten_replicate_drop (k j : ℕ) (bytes : Bytes) :
    (List.replicate (k + 1) bytes).flatten.drop (k * bytes.length + j) = bytes.drop j := by
  rw [List.replicate_succ', List.flatten_append, List.flatten_singleton, ← List.drop_drop,
    List.drop_left' (flatten_replicate_length k bytes)]

end Frames

/-! ## The phases of the worker -/

/-- What a worker with `n` requests to send has written and received, at each place of
    its loop. -/
inductive ClientPhase (host : ByteOrder) (n : ℕ) (payload : Bytes) (c : Client) : Prop where
  | writing {sent : ℕ} (hworker : c.worker = .writing sent) (hi : c.i < n)
      (hsent : sent < (requestBytes host payload).length)
      (hwritten : c.written = (requests payload c.i).flatMap (serializePacket host)
        ++ (requestBytes host payload).take sent)
      (hreceived : c.received = c.i * (responseBytes host payload).length)
  | readingHeader (hworker : c.worker = .readingHeader) (hi : c.i < n)
      (hwritten : c.written = (requests payload (c.i + 1)).flatMap (serializePacket host))
      (hreceived : c.received = c.i * (responseBytes host payload).length)
  | readingPayload (hworker : c.worker = .readingPayload (response payload).header)
      (hi : c.i < n) (hpos : 0 < payload.length)
      (hwritten : c.written = (requests payload (c.i + 1)).flatMap (serializePacket host))
      (hreceived : c.received = c.i * (responseBytes host payload).length + headerSize)
  | disconnecting {sent : ℕ} (hworker : c.worker = .disconnecting sent) (hi : c.i = n)
      (hsent : sent < (disconnectBytes host).length)
      (hwritten : c.written = (requests payload n).flatMap (serializePacket host)
        ++ (disconnectBytes host).take sent)
      (hreceived : c.received = n * (responseBytes host payload).length)
  | closed (hworker : c.worker = .closed) (hi : c.i = n)
      (hwritten : c.written = (requests payload n ++ [disconnectPacket]).flatMap
        (serializePacket host))
      (hreceived : c.received = n * (responseBytes host payload).length)

/-- The invariant of a link: the worker is in its loop and has read its responses, and
    the session has done what a session can do with the bytes written so far. -/
structure Serving (host : ByteOrder) (n : ℕ) (payload : Bytes) (l : Link) : Prop where
  phase     : ClientPhase host n payload l.client
  errors    : l.client.errors = 0
  completed : l.client.completed = l.client.i
  responses : l.client.responses = List.replicate l.client.i (response payload)
  received  : l.client.received ≤ l.session.outgoing.length
  calm      : ∃ es, CalmRun host (Session.opened l.client.written) es l.session
  patient   : ¬ l.client.HungUp → ∃ es, PatientRun host (Session.opened l.client.written) es l.session

section Serving

variable {host : ByteOrder} {n : ℕ} {payload : Bytes} {l : Link} {c : Client}

theorem requestPacket_sendable (hlimit : payload.length ≤ maxPayloadSize) :
    (requestPacket payload).Sendable := ⟨rfl, hlimit⟩

theorem requests_sendable (hlimit : payload.length ≤ maxPayloadSize) (k : ℕ) :
    ∀ p ∈ requests payload k, p.Sendable ∧ p.header.type ≠ .disconnect := by
  intro p hp
  rw [List.eq_of_mem_replicate hp]
  exact ⟨requestPacket_sendable hlimit, show MessageType.echoRequest ≠ .disconnect by decide⟩

/-- All that a worker sends. -/
theorem allPackets_sendable (hlimit : payload.length ≤ maxPayloadSize) {k : ℕ} :
    ∀ p ∈ requests payload k ++ [disconnectPacket], p.Sendable := by
  intro p hp
  rcases List.mem_append.mp hp with hp | hp
  · exact (requests_sendable hlimit _ p hp).1
  · rw [List.mem_singleton.mp hp]
    exact ⟨rfl, Nat.zero_le _⟩

/-- The response to a request that carries `payload`. -/
abbrev responseHeader (payload : Bytes) : Header := (response payload).header

theorem responseHeader_length (hlimit : payload.length ≤ maxPayloadSize) :
    (responseHeader payload).length.toNat = payload.length :=
  (requestPacket_sendable hlimit).length

theorem responseBytes_eq (host : ByteOrder) (payload : Bytes) :
    responseBytes host payload = wireHeader (responseHeader payload) ++ payload :=
  serializePacket_eq host _

/-- What a worker has written is the beginning of all it will write. -/
theorem ClientPhase.written_begins (h : ClientPhase host n payload c) :
    c.written <+: (requests payload n ++ [disconnectPacket]).flatMap (serializePacket host) := by
  have hbegins : ∀ k, k ≤ n → (requests payload k).flatMap (serializePacket host)
      <+: (requests payload n ++ [disconnectPacket]).flatMap (serializePacket host) := by
    intro k hk
    have hsplit : requests payload n = requests payload k ++ requests payload (n - k) := by
      rw [requests, requests, requests, List.replicate_append_replicate]
      congr 1
      omega
    rw [hsplit, List.append_assoc, List.flatMap_append]
    exact List.prefix_append _ _
  cases h with
  | @writing sent _ hi _ hwritten =>
      refine List.IsPrefix.trans ?_ (hbegins (c.i + 1) hi)
      rw [hwritten, requests_succ, List.flatMap_append, List.flatMap_singleton]
      exact (List.prefix_append_right_inj _).mpr (List.take_prefix _ _)
  | readingHeader _ hi hwritten =>
      rw [hwritten]
      exact hbegins _ hi
  | readingPayload _ hi _ hwritten =>
      rw [hwritten]
      exact hbegins _ hi
  | @disconnecting sent _ _ _ hwritten =>
      rw [hwritten, List.flatMap_append, List.flatMap_singleton]
      exact (List.prefix_append_right_inj _).mpr (List.take_prefix _ _)
  | closed _ _ hwritten => exact hwritten ▸ List.prefix_rfl

/-- **RESPONSES**: a session that has been sent a part of some frames has answered a part
    of them, in order. -/
theorem outgoing_begins {stream : Bytes} {es : List Event} {s : Session} {ps : List Packet}
    (hrun : Run (Session.Step host) (Session.opened stream) es s) (hps : ∀ p ∈ ps, p.Sendable)
    (hstream : stream <+: ps.flatMap (serializePacket host)) :
    s.processed.map Packet.frame <+: ps.map Packet.frame
      ∧ s.processed.flatMap Packet.replies <+: ps.flatMap Packet.replies
      ∧ s.outgoing <+: (ps.flatMap Packet.replies).flatten := by
  have hloop := Loop.of_run hrun
  obtain ⟨popped, later, hreplies⟩ := Replies.run hrun (Replies.opened stream)
  have hreads : Reads Packet.Sendable (serializePacket host) (ps.flatMap (serializePacket host))
      s.processed := ⟨hloop.reads.frames, hloop.reads.begins.trans hstream⟩
  have hlongest : LongestFrames host (ps.flatMap (serializePacket host)) ps := longest_of_frames hps
  have hframes := frames_of_serializePacket host (hlongest.reads (packetCode host) hreads)
  have hanswers : s.processed.flatMap Packet.replies
      <+: ps.flatMap Packet.replies := by
    obtain ⟨more, hmore⟩ := hframes
    rw [flatMap_replies, flatMap_replies, ← hmore, List.flatMap_append]
    exact List.prefix_append _ _
  refine ⟨hframes, hanswers, hreplies.outgoing.trans ?_⟩
  obtain ⟨more, hmore⟩ := hanswers
  rw [← hmore, List.flatten_append]
  exact List.prefix_append _ _

/-- A worker that waits has sent its request and has read a part of the response. -/
theorem ClientPhase.waits (h : ClientPhase host n payload c)
    (hlimit : payload.length ≤ maxPayloadSize) (hwanted : 0 < c.wanted) :
    c.i < n ∧ c.written = (requests payload (c.i + 1)).flatMap (serializePacket host)
      ∧ ∃ j, c.received = c.i * (responseBytes host payload).length + j
        ∧ j + c.wanted ≤ (responseBytes host payload).length := by
  have hlen := responseBytes_length host payload
  rw [Client.wanted] at hwanted ⊢
  cases h with
  | writing hworker => exact absurd hwanted (by rw [hworker]; exact Nat.lt_irrefl 0)
  | readingHeader hworker hi hwritten hreceived =>
      refine ⟨hi, hwritten, 0, hreceived, ?_⟩
      rw [hworker, hlen]
      dsimp only
      omega
  | readingPayload hworker hi _ hwritten hreceived =>
      refine ⟨hi, hwritten, headerSize, hreceived, ?_⟩
      rw [hworker, hlen]
      exact Nat.add_le_add_left (Nat.le_of_eq (responseHeader_length hlimit)) _
  | disconnecting hworker => exact absurd hwanted (by rw [hworker]; exact Nat.lt_irrefl 0)
  | closed hworker => exact absurd hwanted (by rw [hworker]; exact Nat.lt_irrefl 0)

/-- While a response is awaited, what has come of it is its beginning. -/
theorem ClientPhase.available_begins (h : ClientPhase host n payload c)
    (hlimit : payload.length ≤ maxPayloadSize) (hwanted : 0 < c.wanted) {es : List Event}
    {s : Session} (hrun : Run (Session.Step host) (Session.opened c.written) es s) :
    s.outgoing.drop c.received <+: (responseBytes host payload).drop
      (c.received - c.i * (responseBytes host payload).length) := by
  obtain ⟨-, hwritten, j, hreceived, -⟩ := h.waits hlimit hwanted
  have hps : ∀ p ∈ requests payload (c.i + 1), p.Sendable :=
    fun p hp => (requests_sendable hlimit _ p hp).1
  obtain ⟨-, -, hout⟩ := outgoing_begins hrun hps (hwritten ▸ List.prefix_rfl)
  rw [replies_requests] at hout
  rw [hreceived, Nat.add_sub_cancel_left, ← flatten_replicate_drop c.i j]
  exact hout.drop _

/-- The session has no more to answer than what a worker sends. -/
theorem replies_begin (hlimit : payload.length ≤ maxPayloadSize) {stream : Bytes}
    (hbegins : stream <+: (requests payload n ++ [disconnectPacket]).flatMap (serializePacket host))
    {es : List Event} {s : Session}
    (hrun : Run (Session.Step host) (Session.opened stream) es s) :
    s.processed.map Packet.frame <+: (requests payload n ++ [disconnectPacket]).map Packet.frame
      ∧ s.processed.flatMap Packet.replies <+: List.replicate n (responseBytes host payload)
      ∧ s.outgoing.length ≤ n * (headerSize + payload.length) := by
  obtain ⟨hframes, hanswers, hout⟩ := outgoing_begins hrun (allPackets_sendable hlimit) hbegins
  rw [List.flatMap_append, List.flatMap_singleton, replies_requests, replies_disconnect,
    List.append_nil] at hanswers hout
  refine ⟨hframes, hanswers, ?_⟩
  rw [← responseBytes_length host, ← flatten_replicate_length]
  exact hout.length_le

/-- As long as the worker's socket is open, it keeps to the protocol. -/
theorem ClientPhase.civil (h : ClientPhase host n payload c)
    (hlimit : payload.length ≤ maxPayloadSize) (hopen : ¬ c.HungUp) : Civil host c.written := by
  have hwhole : ∀ k, Civil host ((requests payload k).flatMap (serializePacket host)) := by
    intro k
    refine ⟨requests payload k, disconnectPacket, requests_sendable hlimit k, ⟨rfl, Nat.zero_le _⟩,
      ?_, ?_⟩
    · rw [List.flatMap_append]
      exact List.prefix_append _ _
    · rw [List.flatMap_append, List.flatMap_singleton, List.length_append, disconnectBytes_length,
        headerSize]
      omega
  have hpart : ∀ (k : ℕ) {q : Packet} {sent : ℕ}, q.Sendable →
      sent < (serializePacket host q).length →
      Civil host ((requests payload k).flatMap (serializePacket host)
        ++ (serializePacket host q).take sent) := by
    intro k q sent hq hsent
    refine ⟨requests payload k, q, requests_sendable hlimit k, hq, ?_, ?_⟩
    · rw [List.flatMap_append, List.flatMap_singleton]
      exact (List.prefix_append_right_inj _).mpr (List.take_prefix _ _)
    · rw [List.flatMap_append, List.flatMap_singleton, List.length_append, List.length_append,
        List.length_take]
      omega
  cases h with
  | writing _ _ hsent hwritten =>
      exact hwritten ▸ hpart _ (requestPacket_sendable hlimit) hsent
  | readingHeader _ _ hwritten => exact hwritten ▸ hwhole _
  | readingPayload _ _ _ hwritten => exact hwritten ▸ hwhole _
  | disconnecting _ _ hsent hwritten =>
      exact hwritten ▸ hpart _ ⟨rfl, Nat.zero_le _⟩ hsent
  | closed hworker => exact absurd (Or.inl hworker) hopen

/-- A worker in its loop hangs up when it has written and read everything. -/
theorem ClientPhase.of_hungUp (h : ClientPhase host n payload c) (hhung : c.HungUp) :
    c.i = n ∧ c.received = n * (responseBytes host payload).length
      ∧ c.written = (requests payload n ++ [disconnectPacket]).flatMap (serializePacket host) := by
  cases h with
  | closed _ hi hwritten hreceived => exact ⟨hi, hreceived, hwritten⟩
  | writing hworker => rcases hhung with hw | hw <;> cases hworker.symm.trans hw
  | readingHeader hworker => rcases hhung with hw | hw <;> cases hworker.symm.trans hw
  | readingPayload hworker => rcases hhung with hw | hw <;> cases hworker.symm.trans hw
  | disconnecting hworker => rcases hhung with hw | hw <;> cases hworker.symm.trans hw

/-- A session is not hung up on its worker. -/
theorem Serving.socketOpen (h : Serving host n payload l) (hlimit : payload.length ≤ maxPayloadSize)
    (hopen : ¬ l.client.HungUp) : l.session.socketOpen = true := by
  obtain ⟨es, hrun⟩ := h.patient hopen
  cases hsocket : l.session.socketOpen with
  | true => rfl
  | false =>
      exact absurd (Or.inl hsocket) (Patient.not_stopping hrun (h.phase.civil hlimit hopen))

/-! ## Steps of the session -/

theorem outgoing_grows {s s' : Session} {e : Event} (hstep : Session.Step host s e s') :
    s.outgoing <+: s'.outgoing := by
  by_cases he : e = .transmit
  · subst he
    cases hstep with
    | transmit => exact List.prefix_append _ _
  · rw [outgoing_step hstep he]

/-- When the worker has hung up, every response was sent as a whole. -/
theorem Serving.sent (h : Serving host n payload l) (hlimit : payload.length ≤ maxPayloadSize)
    (hclosed : l.client.HungUp) {op : WriteOp} {rest : List WriteOp}
    (hop : l.session.writes = op :: rest) : op.size ≤ op.sent := by
  obtain ⟨es, hrun⟩ := h.calm
  obtain ⟨popped, later, hreplies⟩ := Replies.run hrun.unguarded (Replies.opened _)
  obtain ⟨front, queue, hqueue, -, -, -, -, hsize, hout⟩ := hreplies.phase.of_writes hop
  obtain ⟨-, hreceived, -⟩ := h.phase.of_hungUp hclosed
  have hanswers := (replies_begin hlimit h.phase.written_begins hrun.unguarded).2.1
  rw [hreplies.replies, hqueue] at hanswers
  obtain ⟨more, hmore⟩ := hanswers
  have htotal := congrArg (fun bs : List Bytes => bs.flatten.length) hmore
  have hlen := congrArg List.length hout
  have hread := h.received
  simp only [List.flatten_append, List.flatten_cons, List.length_append,
    flatten_replicate_length] at htotal
  rw [List.length_append, List.length_take] at hlen
  omega

/-- A step of the session keeps the link. -/
theorem Serving.session (h : Serving host n payload l) (hlimit : payload.length ≤ maxPayloadSize)
    {e : Event} {s' : Session} (hstep : Session.Step host l.session e s') (hallows : l.Allows e) :
    Serving host n payload { l with session := s' } where
  phase := h.phase
  errors := h.errors
  completed := h.completed
  responses := h.responses
  received := Nat.le_trans h.received (outgoing_grows hstep).length_le
  calm := by
    obtain ⟨es, hrun⟩ := h.calm
    refine ⟨es ++ [e], hrun.append (.single ⟨hstep, ?_⟩)⟩
    cases hstep with
    | readFails => exact hallows.imp_right fun hfew => hfew.2
    | writeFails hop =>
        refine hallows.resolve_right ?_
        rintro ⟨hclosed, hleft⟩
        have hsent := h.sent hlimit hclosed hop
        have hless := hleft _ (by rw [hop]; exact List.mem_cons_self)
        omega
    | requestStop => exact hallows
    | readCompletes => trivial
    | transmit => trivial
    | writeCompletes => trivial
    | startPosted => trivial
    | startCompletion => trivial
    | resume => trivial
  patient := by
    intro hopen
    obtain ⟨es, hrun⟩ := h.patient hopen
    refine ⟨es ++ [e], hrun.append (.single ⟨hstep, ?_⟩)⟩
    cases e with
    | readFails => exact hallows.resolve_right fun hfew => hopen hfew.1
    | writeFails => exact hallows.resolve_right fun hleft => hopen hleft.1
    | requestStop => exact hallows
    | readCompletes => trivial
    | transmit => trivial
    | writeCompletes => trivial
    | startPosted => trivial
    | startCompletion => trivial
    | resume => trivial

/-! ## Steps of the worker -/

/-- At the head of the loop. -/
theorem ClientPhase.loop (hi : c.i ≤ n)
    (hwritten : c.written = (requests payload c.i).flatMap (serializePacket host))
    (hreceived : c.received = c.i * (responseBytes host payload).length) :
    ClientPhase host n payload (c.loop n) := by
  by_cases hmore : c.i < n
  · have hworker : (c.loop n).worker = .writing 0 := if_pos hmore
    refine .writing hworker hmore ?_ ?_ hreceived
    · rw [requestBytes_length, headerSize]
      omega
    · rw [List.take_zero, List.append_nil]
      exact hwritten
  · have hall : c.i = n := by omega
    have hworker : (c.loop n).worker = .disconnecting 0 := if_neg hmore
    refine .disconnecting hworker hall ?_ ?_ ?_
    · rw [disconnectBytes_length, headerSize]
      omega
    · rw [List.take_zero, List.append_nil, ← hall]
      exact hwritten
    · rw [← hall]
      exact hreceived

/-- The bytes of a request, or of the DISCONNECT, go out in pieces. -/
theorem take_more {bytes : Bytes} {sent k : ℕ} {before : Bytes} :
    before ++ bytes.take sent ++ (bytes.drop sent).take k = before ++ bytes.take (sent + k) := by
  rw [List.append_assoc, List.take_add]

/-- The worker after a part of a request. -/
theorem Client.write_writing (c : Client) {sent k : ℕ} (hworker : c.worker = .writing sent) :
    (c.write host payload k).worker
      = if (requestBytes host payload).length - sent ≤ k then .readingHeader
        else .writing (sent + k) := by
  simp only [Client.write, Client.unsent, hworker, List.length_drop, decide_eq_true_eq]

/-- The worker after a part of the DISCONNECT. -/
theorem Client.write_disconnecting (c : Client) {sent k : ℕ}
    (hworker : c.worker = .disconnecting sent) :
    (c.write host payload k).worker
      = if (disconnectBytes host).length - sent ≤ k then .closed
        else .disconnecting (sent + k) := by
  simp only [Client.write, Client.unsent, hworker, List.length_drop, decide_eq_true_eq]

/-- A write touches the worker's place and the bytes it has written. -/
theorem Client.write_kept (c : Client) (host : ByteOrder) (payload : Bytes) (k : ℕ) :
    (c.write host payload k).written = c.written ++ (c.unsent host payload).take k
      ∧ (c.write host payload k).i = c.i
      ∧ (c.write host payload k).errors = c.errors
      ∧ (c.write host payload k).completed = c.completed
      ∧ (c.write host payload k).received = c.received
      ∧ (c.write host payload k).responses = c.responses := by
  rw [Client.write]
  dsimp only
  split <;> exact ⟨rfl, rfl, rfl, rfl, rfl, rfl⟩

/-- A read touches neither of them. -/
theorem Client.read_kept (c : Client) (host : ByteOrder) (n : ℕ) (bytes : Bytes) :
    (c.read host n bytes).written = c.written
      ∧ (c.read host n bytes).received = c.received + bytes.length := by
  rw [Client.read]
  dsimp only
  split
  · split
    · exact ⟨rfl, rfl⟩
    · split <;> exact ⟨rfl, rfl⟩
  · exact ⟨rfl, rfl⟩
  · exact ⟨rfl, rfl⟩

/-- The bytes of a frame do not depend on the host. -/
theorem Client.unsent_host (c : Client) (host host' : ByteOrder) (payload : Bytes) :
    c.unsent host payload = c.unsent host' payload := by
  rw [Client.unsent, Client.unsent, serializePacket_host host host']

theorem Client.write_host (c : Client) (host host' : ByteOrder) (payload : Bytes) (k : ℕ) :
    c.write host payload k = c.write host' payload k := by
  rw [Client.write, Client.write, c.unsent_host host host']

/-- A worker that has hung up has nothing to write and waits for nothing. -/
theorem Client.HungUp.done (h : c.HungUp) (host : ByteOrder) (payload : Bytes) :
    c.unsent host payload = [] ∧ c.wanted = 0 := by
  rw [Client.unsent, Client.wanted]
  rcases h with hw | hw <;>
  · rw [hw]
    exact ⟨rfl, rfl⟩

/-- A write brings the worker to its next place. -/
theorem ClientPhase.write (h : ClientPhase host n payload c) {k : ℕ} (hk : 0 < k)
    (hsize : k ≤ (c.unsent host payload).length) :
    ClientPhase host n payload (c.write host payload k) := by
  obtain ⟨hwritten, hi, -, -, hreceived, -⟩ := c.write_kept host payload k
  cases h with
  | @writing sent hworker hlt hsent hw hr =>
      have hpiece : c.unsent host payload = (requestBytes host payload).drop sent := by
        rw [Client.unsent, hworker]
      rw [hpiece, List.length_drop] at hsize
      rw [hpiece, hw, take_more] at hwritten
      by_cases hlast : (requestBytes host payload).length ≤ sent + k
      · have hworker' : (c.write host payload k).worker = .readingHeader := by
          exact (c.write_writing hworker).trans (if_pos (by omega))
        refine .readingHeader hworker' (hi ▸ hlt) ?_ ?_
        · rw [hwritten, hi, List.take_of_length_le hlast, requests_succ, List.flatMap_append,
            List.flatMap_singleton]
        · rw [hreceived, hi]
          exact hr
      · have hworker' : (c.write host payload k).worker = .writing (sent + k) := by
          exact (c.write_writing hworker).trans (if_neg (by omega))
        refine .writing hworker' (hi ▸ hlt) (Nat.lt_of_not_le hlast) ?_ ?_
        · rw [hwritten, hi]
        · rw [hreceived, hi]
          exact hr
  | readingHeader hworker =>
      rw [Client.unsent, hworker] at hsize
      exact absurd hsize (Nat.not_le_of_lt hk)
  | readingPayload hworker =>
      rw [Client.unsent, hworker] at hsize
      exact absurd hsize (Nat.not_le_of_lt hk)
  | @disconnecting sent hworker hall hsent hw hr =>
      have hpiece : c.unsent host payload = (disconnectBytes host).drop sent := by
        rw [Client.unsent, hworker]
      rw [hpiece, List.length_drop] at hsize
      rw [hpiece, hw, take_more] at hwritten
      by_cases hlast : (disconnectBytes host).length ≤ sent + k
      · have hworker' : (c.write host payload k).worker = .closed := by
          exact (c.write_disconnecting hworker).trans (if_pos (by omega))
        refine .closed hworker' (hi.trans hall) ?_ (hreceived.trans hr)
        rw [hwritten, List.take_of_length_le hlast, List.flatMap_append, List.flatMap_singleton]
      · have hworker' : (c.write host payload k).worker = .disconnecting (sent + k) := by
          exact (c.write_disconnecting hworker).trans (if_neg (by omega))
        exact .disconnecting hworker' (hi.trans hall) (Nat.lt_of_not_le hlast) hwritten
          (hreceived.trans hr)
  | closed hworker =>
      rw [Client.unsent, hworker] at hsize
      exact absurd hsize (Nat.not_le_of_lt hk)

/-- The worker is in its loop and has counted the responses that it has read. -/
structure Client.InLoop (host : ByteOrder) (n : ℕ) (payload : Bytes) (c : Client) : Prop where
  phase     : ClientPhase host n payload c
  completed : c.completed = c.i
  responses : c.responses = List.replicate c.i (response payload)

theorem Client.InLoop.write (h : c.InLoop host n payload) {k : ℕ} (hk : 0 < k)
    (hsize : k ≤ (c.unsent host payload).length) :
    (c.write host payload k).InLoop host n payload := by
  obtain ⟨-, hi, -, hcompleted, -, hresponses⟩ := c.write_kept host payload k
  refine ⟨h.phase.write hk hsize, ?_, ?_⟩
  · rw [hcompleted, hi]
    exact h.completed
  · rw [hresponses, hi]
    exact h.responses

/-- An iteration ends with the response it waited for. -/
theorem Client.InLoop.complete (h : c.InLoop host n payload) (hi : c.i < n) {c' : Client}
    (hwritten : c'.written = (requests payload (c.i + 1)).flatMap (serializePacket host))
    (hreceived : c'.received = (c.i + 1) * (responseBytes host payload).length)
    (hkept : c'.i = c.i ∧ c'.completed = c.completed ∧ c'.responses = c.responses) :
    (Client.complete n c' (response payload)).InLoop host n payload := by
  obtain ⟨hci, hcompleted, hresponses⟩ := hkept
  refine ⟨ClientPhase.loop ?_ ?_ ?_, ?_, ?_⟩
  · show c'.i + 1 ≤ n
    rw [hci]
    exact hi
  · show c'.written = (requests payload (c'.i + 1)).flatMap _
    rw [hci]
    exact hwritten
  · show c'.received = (c'.i + 1) * _
    rw [hci]
    exact hreceived
  · show c'.completed + 1 = c'.i + 1
    rw [hcompleted, hci, h.completed]
  · show c'.responses ++ [_] = List.replicate (c'.i + 1) _
    rw [hresponses, hci, h.responses, List.replicate_succ']

/-- **A READ** that returns the next part of the response brings the worker to its next
    place, or ends the iteration. -/
theorem Client.InLoop.read (h : c.InLoop host n payload) (hlimit : payload.length ≤ maxPayloadSize)
    (clientHost : ByteOrder) {bytes : Bytes} (hwanted : 0 < c.wanted)
    (hsize : bytes.length = c.wanted)
    (hbegins : bytes <+: (responseBytes host payload).drop
      (c.received - c.i * (responseBytes host payload).length)) :
    (c.read clientHost n bytes).InLoop host n payload
      ∧ (c.read clientHost n bytes).errors = c.errors := by
  have hlength := responseHeader_length hlimit
  cases hphase : h.phase with
  | writing hworker => exact absurd hwanted (by rw [Client.wanted, hworker]; exact Nat.lt_irrefl 0)
  | readingHeader hworker hi hwritten hreceived =>
      have hw : c.wanted = headerSize := by rw [Client.wanted, hworker]
      have hbytes : bytes = wireHeader (responseHeader payload) := by
        rw [hreceived, Nat.sub_self, List.drop_zero, responseBytes_eq] at hbegins
        rw [List.prefix_iff_eq_take.mp hbegins, hsize, hw, List.take_left' (wireHeader_length _)]
      have hdecode : deserializeHeader clientHost (wireHeader (responseHeader payload)) headerSize {}
          = (true, responseHeader payload) := by
        have hwire := deserializeHeader_wire clientHost (responseHeader payload) [] {}
        rw [List.append_nil, wireHeader_length] at hwire
        exact hwire.trans (congrArg (·, _) (decide_eq_true rfl))
      let c' : Client := { c with received := c.received + headerSize
                                  headerBuf := wireHeader (responseHeader payload) }
      by_cases hpos : 0 < payload.length
      · -- the payload is still to be read
        have hmore : (responseHeader payload).length > 0 := by
          rw [gt_iff_lt, UInt32.lt_iff_toNat_lt, hlength]
          exact hpos
        have hread : c.read clientHost n bytes
            = { c' with worker := .readingPayload (responseHeader payload)
                        payloadBuf := Session.resize c'.payloadBuf payload.length } := by
          rw [Client.read, hworker, hbytes]
          dsimp only
          rw [hdecode, ← hlength]
          exact (if_neg Bool.false_ne_true).trans (if_pos hmore)
        rw [hread]
        exact ⟨⟨.readingPayload rfl hi hpos hwritten (congrArg (· + headerSize) hreceived),
          h.completed, h.responses⟩, rfl⟩
      · -- an empty payload: the iteration is over
        have hnil : payload = [] := List.length_eq_zero_iff.mp (by omega)
        have hzero : ¬ (responseHeader payload).length > 0 := by
          rw [gt_iff_lt, UInt32.lt_iff_toNat_lt, hlength]
          exact hpos
        have hread : c.read clientHost n bytes
            = Client.complete n c' (response payload) := by
          rw [Client.read, hworker, hbytes]
          dsimp only
          rw [hdecode]
          refine (if_neg Bool.false_ne_true).trans ((if_neg hzero).trans ?_)
          exact congrArg (fun bs => Client.complete n c' ⟨responseHeader payload, bs⟩) hnil.symm
        rw [hread]
        refine ⟨h.complete hi hwritten ?_ ⟨rfl, rfl, rfl⟩, rfl⟩
        show c.received + headerSize = _
        rw [hreceived, responseBytes_length, hnil, Nat.succ_mul]
        rfl
  | readingPayload hworker hi hpos hwritten hreceived =>
      have hw : c.wanted = payload.length := by
        rw [Client.wanted, hworker]
        exact hlength
      have hbytes : bytes = payload := by
        rw [hreceived, Nat.add_sub_cancel_left, responseBytes_eq,
          List.drop_left' (wireHeader_length _)] at hbegins
        exact hbegins.eq_of_length (hsize.trans hw)
      have hread : c.read clientHost n bytes
          = Client.complete n { c with received := c.received + payload.length
                                       payloadBuf := payload } (response payload) := by
        rw [Client.read, hworker, hbytes]
        rfl
      rw [hread]
      refine ⟨h.complete hi hwritten ?_ ⟨rfl, rfl, rfl⟩, rfl⟩
      show c.received + payload.length = _
      rw [hreceived, responseBytes_length, Nat.succ_mul]
      omega
  | disconnecting hworker =>
      exact absurd hwanted (by rw [Client.wanted, hworker]; exact Nat.lt_irrefl 0)
  | closed hworker => exact absurd hwanted (by rw [Client.wanted, hworker]; exact Nat.lt_irrefl 0)

theorem Serving.inLoop (h : Serving host n payload l) : l.client.InLoop host n payload :=
  ⟨h.phase, h.completed, h.responses⟩

/-- A write keeps the link. -/
theorem Serving.write (h : Serving host n payload l) {clientHost : ByteOrder} {k : ℕ}
    (hk : 0 < k) (hsize : k ≤ (l.client.unsent clientHost payload).length) :
    Serving host n payload
      { client := l.client.write clientHost payload k
        session := l.session.receive ((l.client.unsent clientHost payload).take k) } := by
  rw [l.client.unsent_host clientHost host] at hsize ⊢
  rw [l.client.write_host clientHost host]
  have hopen : ¬ l.client.HungUp := by
    intro hclosed
    rw [(hclosed.done host payload).1, List.length_nil] at hsize
    omega
  obtain ⟨hwritten, -, herrors, -, hreceived, -⟩ := l.client.write_kept host payload k
  obtain ⟨hphase, hcompleted, hresponses⟩ := h.inLoop.write hk hsize
  obtain ⟨es, hrun⟩ := h.patient hopen
  have hlate := Patient.receive hrun ((l.client.unsent host payload).take k)
  rw [opened_receive, ← hwritten] at hlate
  exact ⟨hphase, herrors.trans h.errors, hcompleted, hresponses, hreceived ▸ h.received,
    ⟨es, Patient.calm hlate⟩, fun _ => ⟨es, hlate⟩⟩

/-- A read returns the next part of the response. -/
theorem Serving.read (h : Serving host n payload l) (hlimit : payload.length ≤ maxPayloadSize)
    {clientHost : ByteOrder} (hwanted : 0 < l.client.wanted)
    (hsize : l.client.wanted ≤ l.available.length) :
    Serving host n payload
      { l with client := l.client.read clientHost n (l.available.take l.client.wanted) } := by
  have htake : (l.available.take l.client.wanted).length = l.client.wanted := by
    rw [List.length_take]
    omega
  have hopen : ¬ l.client.HungUp := by
    intro hclosed
    rw [(hclosed.done host payload).2] at hwanted
    exact Nat.lt_irrefl 0 hwanted
  obtain ⟨es, hrun⟩ := h.patient hopen
  have hbegins := h.phase.available_begins hlimit hwanted hrun.unguarded
  obtain ⟨⟨hphase, hcompleted, hresponses⟩, herrors⟩ := h.inLoop.read hlimit clientHost
    hwanted htake ((List.take_prefix _ _).trans hbegins)
  obtain ⟨hwritten, hreceived⟩ :=
    l.client.read_kept clientHost n (l.available.take l.client.wanted)
  rw [← hwritten] at hrun
  refine ⟨hphase, herrors.trans h.errors, hcompleted, hresponses, ?_, ⟨es, Patient.calm hrun⟩,
    fun _ => ⟨es, hrun⟩⟩
  have hread := h.received
  rw [Link.available, List.length_drop] at hsize
  rw [hreceived, htake]
  show _ ≤ l.session.outgoing.length
  omega

/-- A worker throws only before it has hung up. -/
theorem Link.Step.throws_open {clientHost : ByteOrder} {l' : Link}
    (hstep : Link.Step clientHost host n payload l .throws l') : ¬ l.client.HungUp := by
  intro hhung
  obtain ⟨hnil, hzero⟩ := hhung.done clientHost payload
  cases hstep with
  | throws _ hwaits =>
      rw [hnil, hzero] at hwaits
      rcases hwaits with hno | hno
      · exact hno rfl
      · exact Nat.not_lt_zero _ hno

/-- Nothing is thrown. -/
theorem Serving.not_thrown (h : Serving host n payload l) (hlimit : payload.length ≤ maxPayloadSize)
    {clientHost : ByteOrder} {l' : Link}
    (hstep : Link.Step clientHost host n payload l .throws l') : False := by
  have hopen := hstep.throws_open
  cases hstep with
  | throws hclosed => cases hclosed.symm.trans (h.socketOpen hlimit hopen)

/-- **ONE STEP** keeps the link. -/
theorem Serving.step (h : Serving host n payload l) (hlimit : payload.length ≤ maxPayloadSize)
    {clientHost : ByteOrder} {e : LinkEvent} {l' : Link}
    (hstep : Link.Step clientHost host n payload l e l') : Serving host n payload l' := by
  cases hstep with
  | session hstep hallows => exact h.session hlimit hstep.1 hallows
  | write hk hsize => exact h.write hk hsize
  | read hwanted hsize => exact h.read hlimit hwanted hsize
  | throws hclosed hwaits => exact absurd (h.not_thrown hlimit (.throws hclosed hwaits)) id

theorem Serving.connected (host : ByteOrder) (n : ℕ) (payload : Bytes) :
    Serving host n payload (Link.connected n) where
  phase := ClientPhase.loop (Nat.zero_le _) rfl (Nat.zero_mul _).symm
  errors := rfl
  completed := rfl
  responses := rfl
  received := Nat.zero_le _
  calm := ⟨[], .nil⟩
  patient := fun _ => ⟨[], .nil⟩

/-! ## Where a link stops -/

/-- What a patient session does is allowed. -/
theorem Link.allows_of_patient {e : Event} (h : Patient e l.session) : l.Allows e := by
  cases e with
  | readFails => exact Or.inl h
  | writeFails => exact Or.inl h
  | requestStop => exact h
  | readCompletes => trivial
  | transmit => trivial
  | writeCompletes => trivial
  | startPosted => trivial
  | startCompletion => trivial
  | resume => trivial

/-- A link where nothing can happen. -/
def Link.Stuck (clientHost host : ByteOrder) (n : ℕ) (payload : Bytes) (l : Link) : Prop :=
  ∀ e l', ¬ Link.Step clientHost host n payload l e l'

variable {clientHost : ByteOrder}

theorem Link.Stuck.resting (hstuck : l.Stuck clientHost host n payload) :
    l.session.Resting host := fun _ _ hstep hpatient =>
  hstuck _ _ (.session hstep (Link.allows_of_patient hpatient))

/-- A settled session has sent the response that its worker waits for. -/
theorem Settled.available {s : Session} (h : Settled host c.written s)
    (hlimit : payload.length ≤ maxPayloadSize)
    (hwritten : c.written = (requests payload (c.i + 1)).flatMap (serializePacket host)) {j : ℕ}
    (hreceived : c.received = c.i * (responseBytes host payload).length + j) :
    s.outgoing.drop c.received = (responseBytes host payload).drop j := by
  have hlongest : LongestFrames host c.written (requests payload (c.i + 1)) := by
    rw [hwritten]
    exact longest_of_frames fun p hp => (requests_sendable hlimit _ p hp).1
  have hframes := frames_eq host (h.frames.unique (packetCode host) hlongest)
  rw [h.replies, flatMap_replies, hframes, ← flatMap_replies, replies_requests, hreceived,
    flatten_replicate_drop]

/-- **NO DEADLOCK**: while a worker waits for its response, something can happen. -/
theorem Serving.not_waiting (h : Serving host n payload l) (hlimit : payload.length ≤ maxPayloadSize)
    (hstuck : l.Stuck clientHost host n payload) (hopen : ¬ l.client.HungUp) :
    l.client.wanted = 0 := by
  by_contra hsome
  have hwanted := Nat.pos_of_ne_zero hsome
  obtain ⟨-, hwritten, j, hreceived, hj⟩ := h.phase.waits hlimit hwanted
  obtain ⟨es, hrun⟩ := h.patient hopen
  have hsettled := hstuck.resting.settled hrun (h.phase.civil hlimit hopen)
  have havailable := hsettled.available hlimit hwritten hreceived
  refine hstuck _ _ (.read hwanted ?_)
  rw [Link.available, havailable, List.length_drop]
  omega

/-- A worker that has nothing to write and waits for nothing has closed its socket. -/
theorem ClientPhase.closed_of_idle (h : ClientPhase host n payload c)
    (hlimit : payload.length ≤ maxPayloadSize) (hunsent : c.unsent host payload = [])
    (hwanted : c.wanted = 0) : c.worker = .closed := by
  cases h with
  | writing hworker _ hsent =>
      rw [Client.unsent, hworker, List.drop_eq_nil_iff] at hunsent
      exact absurd hsent (Nat.not_lt_of_le hunsent)
  | readingHeader hworker =>
      rw [Client.wanted, hworker] at hwanted
      cases hwanted
  | readingPayload hworker _ hpos =>
      rw [Client.wanted, hworker] at hwanted
      exact absurd ((responseHeader_length hlimit).symm.trans hwanted) (Nat.ne_of_gt hpos)
  | disconnecting hworker _ hsent =>
      rw [Client.unsent, hworker, List.drop_eq_nil_iff] at hunsent
      exact absurd hsent (Nat.not_lt_of_le hunsent)
  | closed hworker => exact hworker

/-- A worker stops only after it has closed its socket. -/
theorem Serving.closed (h : Serving host n payload l) (hlimit : payload.length ≤ maxPayloadSize)
    (hstuck : l.Stuck clientHost host n payload) : l.client.worker = .closed := by
  have hunsent : l.client.unsent clientHost payload = [] := by
    by_contra hsome
    exact hstuck _ _ (.write (k := 1) Nat.one_pos (List.length_pos_iff.mpr hsome))
  have hidle := (l.client.unsent_host host clientHost payload).trans hunsent
  by_cases hhung : l.client.HungUp
  · exact h.phase.closed_of_idle hlimit hidle (hhung.done host payload).2
  · exact h.phase.closed_of_idle hlimit hidle (h.not_waiting hlimit hstuck hhung)

theorem upToDisconnect_le (fs : List (MessageType × Bytes)) : upToDisconnect fs <+: fs := by
  induction fs with
  | nil => exact List.prefix_rfl
  | cons f fs ih =>
      rw [upToDisconnect]
      split
      · exact List.cons_prefix_cons.mpr ⟨rfl, List.nil_prefix⟩
      · exact List.cons_prefix_cons.mpr ⟨rfl, ih⟩

/-- A DISCONNECT at the end is compared. -/
theorem upToDisconnect_concat {fs : List (MessageType × Bytes)} {d : MessageType × Bytes}
    (hfs : ∀ f ∈ fs, f.1 ≠ .disconnect) (hd : d.1 = .disconnect) :
    upToDisconnect (fs ++ [d]) = fs ++ [d] := by
  induction fs with
  | nil => exact if_pos hd
  | cons f fs ih =>
      rw [List.cons_append, upToDisconnect, if_neg (hfs f List.mem_cons_self),
        ih fun g hg => hfs g (List.mem_cons_of_mem _ hg)]

/-- The session of a worker that has closed its socket. -/
structure Link.Finished (n : ℕ) (payload : Bytes) (l : Link) : Prop where
  worker    : l.client.worker = .closed
  completed : l.client.completed = n
  /-- The session was handed every request, and the DISCONNECT. -/
  processed : l.session.processed.map Packet.frame
    = (requests payload n ++ [disconnectPacket]).map Packet.frame
  closings  : l.session.closings = 1
  removals  : l.session.removals = 1

/-- The session of a worker that has hung up has come to its end. -/
structure Session.Over (s : Session) : Prop where
  idle     : s.Idle
  closings : s.closings = 1
  removals : s.removals = 1

/-- **NO SESSION IS LEFT OPEN**: an outstanding read sees the end of the stream. -/
theorem Link.Stuck.session_over (hstuck : l.Stuck clientHost host n payload) (hhung : l.client.HungUp)
    {stream : Bytes} {es : List Event}
    (hrun : Run (Session.Step host) (Session.opened stream) es l.session) : l.session.Over := by
  have hno := hstuck.resting.not_pending
  have hreads : l.session.reads = [] := by
    cases hop : l.session.reads with
    | nil => rfl
    | cons op rest =>
        exfalso
        obtain ⟨rfl, -⟩ := (Loop.of_run hrun).phase.of_reads hop
        by_cases hready : l.session.socketOpen = true ∧ op.size ≤ l.session.incoming.length
        · exact hstuck _ _ (.session ⟨.readCompletes hop hready.1 hready.2, fun he => by cases he⟩
            trivial)
        · refine hstuck _ _ (.session ⟨.readFails (k := 0) hop (Nat.zero_le _) (Nat.zero_le _),
            fun he => by cases he⟩ ?_)
          by_cases hopen : l.session.socketOpen = true
          · refine Or.inr ⟨hhung, fun op' hop' => ?_⟩
            rw [hop, List.mem_singleton] at hop'
            rw [hop']
            exact Nat.lt_of_not_le fun hsize => hready ⟨hopen, hsize⟩
          · exact Or.inl (Bool.eq_false_iff.mpr hopen)
  have hstopped : l.session.isStopped = true := by
    by_contra hlive
    rcases Session.Attended.of_run hrun (Bool.eq_false_iff.mpr hlive) with hr | ⟨x, -, hx⟩ | hx
    · exact hr hreads
    · exact hno x hx
    · exact hno .stop hx
  have hlife := Lifecycle.of_run hrun
  refine ⟨⟨hreads, fun x _ => hno x⟩, (hlife.once).2.2.1.mp hstopped, ?_⟩
  cases hlife.stage with
  | live hlive => cases hlive.symm.trans hstopped
  | closing _ _ _ _ hremoving => cases hstuck.resting.idle.1.symm.trans hremoving
  | removed _ _ _ hremovals => exact hremovals

/-- **BOTH SIDES ARE CLOSED** where nothing can happen. -/
theorem Serving.finished (h : Serving host n payload l) (hlimit : payload.length ≤ maxPayloadSize)
    (hstuck : l.Stuck clientHost host n payload) : l.Finished n payload := by
  have hworker := h.closed hlimit hstuck
  have hhung : l.client.HungUp := Or.inl hworker
  obtain ⟨hall, -, hwritten⟩ := h.phase.of_hungUp hhung
  obtain ⟨es, hrun⟩ := h.calm
  have hloop := (Loop.opened True host l.client.written).run hrun
  obtain ⟨hidle, hclosings, hremovals⟩ := hstuck.session_over hhung hrun.unguarded
  have hlongest : LongestFrames host l.client.written (requests payload n ++ [disconnectPacket]) := by
    rw [hwritten]
    exact longest_of_frames (allPackets_sendable hlimit)
  have hcompared := hloop.complete hidle hlongest
  have hfs : ∀ f ∈ (requests payload n).map Packet.frame, f.1 ≠ .disconnect := by
    intro f hf
    obtain ⟨p, hp, rfl⟩ := List.mem_map.mp hf
    exact (requests_sendable hlimit _ p hp).2
  rw [List.map_append, List.map_singleton, upToDisconnect_concat hfs rfl] at hcompared
  refine ⟨hworker, h.completed.trans hall, ?_, hclosings, hremovals⟩
  have hle := upToDisconnect_le (l.session.processed.map Packet.frame)
  rw [hcompared] at hle
  have hbegins := (replies_begin hlimit h.phase.written_begins hrun.unguarded).1
  refine hbegins.eq_of_length (Nat.le_antisymm hbegins.length_le ?_)
  rw [List.map_append, List.map_singleton]
  exact hle.length_le

/-! ## How long it takes -/

/-- What a worker still has to do: four for each byte to be written, of which the session
    needs three, one for each read, and all that for the iterations to come. -/
def Client.work (n : ℕ) (payload : Bytes) (c : Client) : ℕ :=
  let frame := headerSize + payload.length
  let later := (n - (c.i + 1)) * (4 * frame + 2) + 4 * headerSize
  match c.worker with
  | .writing sent => 4 * (frame - sent) + 2 + later
  | .readingHeader => 2 + later
  | .readingPayload _ => 1 + later
  | .disconnecting sent => 4 * (headerSize - sent)
  | .closed => 0
  | .failed => 0

/-- At the head of the loop. -/
theorem Client.loop_work (c : Client) (n : ℕ) (payload : Bytes) :
    (c.loop n).work n payload
      = (n - c.i) * (4 * (headerSize + payload.length) + 2) + 4 * headerSize := by
  rw [Client.loop, Client.work]
  by_cases hmore : c.i < n
  · obtain ⟨k, hk⟩ : ∃ k, n - c.i = k + 1 := ⟨n - c.i - 1, by omega⟩
    rw [if_pos hmore, hk, show n - (c.i + 1) = k by omega, Nat.succ_mul k]
    dsimp only
    rw [Nat.sub_zero]
    generalize k * (4 * (headerSize + payload.length) + 2) = rest
    omega
  · rw [if_neg hmore, show n - c.i = 0 by omega, Nat.zero_mul]
    dsimp only
    omega

/-- A write pays for what the session does with its bytes. -/
theorem Client.write_work {n k : ℕ} (hk : 0 < k) (hsize : k ≤ (c.unsent host payload).length) :
    1 + (c.write host payload k).work n payload + 3 * k ≤ c.work n payload := by
  cases hworker : c.worker with
  | writing sent =>
      have hleft : (c.unsent host payload).length = headerSize + payload.length - sent := by
        rw [Client.unsent, hworker, List.length_drop]
        exact congrArg (· - sent) (requestBytes_length host payload)
      have hi : (c.write host payload k).i = c.i := by rw [Client.write, hworker]
      rw [Client.work, Client.work, c.write_writing hworker, requestBytes_length, hworker, hi]
      by_cases hlast : headerSize + payload.length - sent ≤ k
      · rw [if_pos hlast]
        dsimp only
        omega
      · rw [if_neg hlast]
        dsimp only
        omega
  | disconnecting sent =>
      have hleft : (c.unsent host payload).length = headerSize - sent := by
        rw [Client.unsent, hworker, List.length_drop]
        exact congrArg (· - sent) (disconnectBytes_length host)
      rw [Client.work, Client.work, c.write_disconnecting hworker, disconnectBytes_length, hworker]
      by_cases hlast : headerSize - sent ≤ k
      · rw [if_pos hlast]
        exact (by omega : 1 + 0 + 3 * k ≤ 4 * (headerSize - sent))
      · rw [if_neg hlast]
        dsimp only
        omega
  | readingHeader => exact absurd hsize (by rw [Client.unsent, hworker]; exact Nat.not_le_of_lt hk)
  | readingPayload => exact absurd hsize (by rw [Client.unsent, hworker]; exact Nat.not_le_of_lt hk)
  | closed => exact absurd hsize (by rw [Client.unsent, hworker]; exact Nat.not_le_of_lt hk)
  | failed => exact absurd hsize (by rw [Client.unsent, hworker]; exact Nat.not_le_of_lt hk)

/-- A read is paid for, whatever it returns. -/
theorem Client.read_work {n : ℕ} {bytes : Bytes} (hwanted : 0 < c.wanted) :
    1 + (c.read host n bytes).work n payload ≤ c.work n payload := by
  rw [Client.wanted] at hwanted
  cases hworker : c.worker with
  | readingHeader =>
      rw [Client.read, hworker, Client.work.eq_def n payload c, hworker]
      dsimp only
      split
      · rw [Client.loop_work]
        dsimp only
        omega
      · split
        · rw [Client.work]
          dsimp only
          omega
        · rw [Client.complete, Client.loop_work]
          dsimp only
          omega
  | readingPayload =>
      rw [Client.read, hworker, Client.work.eq_def n payload c, hworker]
      dsimp only
      rw [Client.complete, Client.loop_work]
  | writing => exact absurd hwanted (by rw [hworker]; exact Nat.lt_irrefl 0)
  | disconnecting => exact absurd hwanted (by rw [hworker]; exact Nat.lt_irrefl 0)
  | closed => exact absurd hwanted (by rw [hworker]; exact Nat.lt_irrefl 0)
  | failed => exact absurd hwanted (by rw [hworker]; exact Nat.lt_irrefl 0)

def Link.work (n : ℕ) (payload : Bytes) (l : Link) : ℕ := l.client.work n payload + l.session.work

theorem Session.receive_work (s : Session) (bytes : Bytes) :
    (s.receive bytes).work = s.work + 3 * bytes.length := by
  simp only [Session.work, Session.receive, List.length_append]
  omega

/-- **ONE STEP** is paid for, if an exception is. -/
theorem Link.Step.paid {e : LinkEvent} {l' : Link}
    (hstep : Link.Step clientHost host n payload l e l')
    (hthrows : e = .throws → 0 < l.client.work n payload) :
    1 + l'.work n payload + l.session.outgoing.length
      ≤ l.work n payload + l'.session.outgoing.length := by
  cases hstep with
  | @session e s' hstep hallows =>
      have hpaid := hstep.paid
      have hcredit : e.credit = 0 := by
        cases e <;> first | rfl | exact absurd hallows id
      show 1 + (l.client.work n payload + s'.work) + l.session.outgoing.length
        ≤ l.client.work n payload + l.session.work + s'.outgoing.length
      omega
  | @write k hk hsize =>
      have hpaid : 1 + (l.client.write clientHost payload k).work n payload + 3 * k
          ≤ l.client.work n payload := Client.write_work hk hsize
      have hlen : ((l.client.unsent clientHost payload).take k).length = k := by
        rw [List.length_take]
        omega
      have hreceive := l.session.receive_work ((l.client.unsent clientHost payload).take k)
      show 1 + ((l.client.write clientHost payload k).work n payload
        + (l.session.receive ((l.client.unsent clientHost payload).take k)).work)
        + l.session.outgoing.length
        ≤ l.client.work n payload + l.session.work + l.session.outgoing.length
      omega
  | read hwanted hsize =>
      have hpaid : 1 + (l.client.read clientHost n (l.available.take l.client.wanted)).work n payload
          ≤ l.client.work n payload := Client.read_work hwanted
      show 1 + ((l.client.read clientHost n (l.available.take l.client.wanted)).work n payload
        + l.session.work) + l.session.outgoing.length
        ≤ l.client.work n payload + l.session.work + l.session.outgoing.length
      omega
  | throws =>
      have hpaid := hthrows rfl
      show 1 + (0 + l.session.work) + l.session.outgoing.length
        ≤ l.client.work n payload + l.session.work + l.session.outgoing.length
      omega

theorem Serving.paid (h : Serving host n payload l) (hlimit : payload.length ≤ maxPayloadSize)
    {e : LinkEvent} {l' : Link} (hstep : Link.Step clientHost host n payload l e l') :
    1 + l'.work n payload + l.session.outgoing.length
      ≤ l.work n payload + l'.session.outgoing.length := by
  refine hstep.paid ?_
  rintro rfl
  exact absurd (h.not_thrown hlimit hstep) id

/-- What a worker and its session have come to. -/
structure Link.Served (clientHost host : ByteOrder) (n : ℕ) (payload : Bytes) (es : List LinkEvent)
    (l : Link) : Prop where
  steps     : es.length ≤ n * (5 * payload.length + 42) + 38
  errors    : l.client.errors = 0
  completed : l.client.completed ≤ n
  responses : l.client.responses = List.replicate l.client.completed (response payload)
  /-- Nothing can happen only when all is done. -/
  finished  : l.Stuck clientHost host n payload → l.Finished n payload

theorem ClientPhase.i_le (h : ClientPhase host n payload c) : c.i ≤ n := by
  cases h with
  | writing _ hi => exact Nat.le_of_lt hi
  | readingHeader _ hi => exact Nat.le_of_lt hi
  | readingPayload _ hi => exact Nat.le_of_lt hi
  | disconnecting _ hi => exact Nat.le_of_eq hi
  | closed _ hi => exact Nat.le_of_eq hi

theorem Serving.completed_le (h : Serving host n payload l) : l.client.completed ≤ n := by
  rw [h.completed]
  exact h.phase.i_le

/-- The work of a link that has just been connected, and the bytes its session will send. -/
theorem Link.connected_work (n : ℕ) (payload : Bytes) :
    (Link.connected n).work n payload + n * (headerSize + payload.length)
      = n * (5 * payload.length + 42) + 38 := by
  have hwork : (Link.connected n).work n payload
      = n * (4 * (headerSize + payload.length) + 2) + 4 * headerSize + 6 :=
    congrArg (· + 6) (Client.loop_work _ n payload)
  have htotal : n * (5 * payload.length + 42) = n * (4 * (headerSize + payload.length) + 2)
      + n * (headerSize + payload.length) := by
    rw [← Nat.mul_add, headerSize]
    congr 1
    omega
  have hheader : headerSize = 8 := rfl
  rw [hwork, htotal]
  omega

/-- A run keeps the link, and each of its steps was paid for. -/
theorem connected_serves (hlimit : payload.length ≤ maxPayloadSize) {es : List LinkEvent}
    (hrun : Run (Link.Step clientHost host n payload) (Link.connected n) es l) :
    Serving host n payload l ∧ es.length ≤ n * (5 * payload.length + 42) + 38 := by
  have hstep : ∀ s e s', Link.Step clientHost host n payload s e s' → Serving host n payload s →
      Serving host n payload s' := fun _ _ _ hs h => h.step hlimit hs
  have hstart := Serving.connected host n payload
  have hserving := hrun.invariant hstep hstart
  have hpaid := (hrun.guarded hstep hstart).potential (Φ := Link.work n payload)
    (G := fun t => t.session.outgoing.length) (C := fun _ => 0)
    fun _ _ _ hs => hs.2.paid hlimit hs.1
  obtain ⟨fs, hcalm⟩ := hserving.calm
  have hout := (replies_begin hlimit hserving.phase.written_begins hcalm.unguarded).2.2
  have hempty : (Link.connected n).session.outgoing.length = 0 := rfl
  have hnone : (es.map fun _ => 0).sum = 0 := by
    rw [List.map_const', List.sum_replicate_nat, Nat.mul_zero]
  rw [hempty, hnone] at hpaid
  rw [← Link.connected_work]
  exact ⟨hserving, by omega⟩

/-- **EVERY REQUEST IS ANSWERED**: however the steps of a worker and its session are
    ordered and however the bytes are split, the worker reads the response to each of its
    requests and nothing else, neither side gives up or waits for the other, and after
    a bounded number of steps both sides are closed. -/
theorem connected_served (clientHost host : ByteOrder) (n : ℕ) (payload : Bytes)
    (hlimit : payload.length ≤ maxPayloadSize) {es : List LinkEvent} {l : Link}
    (hrun : Run (Link.Step clientHost host n payload) (Link.connected n) es l) :
    Link.Served clientHost host n payload es l
      ∧ ∃ es' l', Run (Link.Step clientHost host n payload) l es' l' ∧ l'.Finished n payload := by
  obtain ⟨hserving, hsteps⟩ := connected_serves hlimit hrun
  refine ⟨⟨hsteps, hserving.errors, hserving.completed_le, ?_, hserving.finished hlimit⟩, ?_⟩
  · rw [hserving.completed]
    exact hserving.responses
  · obtain ⟨es', l', hmore, hstuck⟩ := Run.exists_last (n * (5 * payload.length + 42) + 38)
      fun fs t hfs => by
        have hle := (connected_serves hlimit (hrun.append hfs)).2
        rw [List.length_append] at hle
        omega
    exact ⟨es', l', hmore,
      (connected_serves hlimit (hrun.append hmore)).1.finished hlimit hstuck⟩

/-- One request, "hi", written in two pieces and answered: the worker has read the
    response before the session has seen its write complete. -/
theorem connected_served_hi :
    Link.Served .little .little 1 [0x68, 0x69]
      [.write, .write, .session .readCompletes, .session .startCompletion, .session .resume,
        .session .readCompletes, .session .startCompletion, .session .resume, .session .startPosted,
        .session .resume, .session .transmit, .read, .read]
      { client := {
          worker := .disconnecting 0, i := 1, completed := 1, errors := 0
          headerBuf := [0x41, 0x4E, 0, 4, 0, 0, 0, 2], payloadBuf := [0x68, 0x69]
          written := [0x41, 0x4E, 0, 3, 0, 0, 0, 2, 0x68, 0x69], received := 10
          responses := [⟨⟨magicHeader, .echoResponse, 2⟩, [0x68, 0x69]⟩] }
        session := { Session.opened [] with
          headerBuffer := [0x41, 0x4E, 0, 3, 0, 0, 0, 2], payloadBuffer := [0x68, 0x69]
          processed := [⟨⟨magicHeader, .echoRequest, 2⟩, [0x68, 0x69]⟩], counted := 1
          writeQueue := [[0x41, 0x4E, 0, 4, 0, 0, 0, 2, 0x68, 0x69]], writes := [⟨10, 10⟩]
          outgoing := [0x41, 0x4E, 0, 4, 0, 0, 0, 2, 0x68, 0x69] } } :=
  (connected_served .little .little 1 [0x68, 0x69] (by decide)
    (.cons (.write (k := 3) (by decide) (by decide)) <|
    .cons (.write (k := 7) (by decide) (by decide)) <|
    -- the session reads the request
    .cons (.session ⟨.readCompletes (by rfl) (by rfl) (by decide), by decide⟩ trivial) <|
    .cons (.session ⟨@Session.Step.startCompletion _ _ [] [] _ (by rfl) (by rfl), by decide⟩
      trivial) <|
    .cons (.session ⟨.resume (by rfl), by decide⟩ trivial) <|
    .cons (.session ⟨.readCompletes (by rfl) (by rfl) (by decide), by decide⟩ trivial) <|
    .cons (.session ⟨@Session.Step.startCompletion _ _ [] [] _ (by rfl) (by rfl), by decide⟩
      trivial) <|
    .cons (.session ⟨.resume (by rfl), by decide⟩ trivial) <|
    -- it writes the response
    .cons (.session ⟨.startPosted (by rfl) (by rfl), by decide⟩ trivial) <|
    .cons (.session ⟨.resume (by rfl), by decide⟩ trivial) <|
    .cons (.session ⟨@Session.Step.transmit _ _ ⟨10, 0⟩ []
      [0x41, 0x4E, 0, 4, 0, 0, 0, 2, 0x68, 0x69] 10 (by rfl) (by rfl) (by rfl) (by decide),
      fun _ => by decide⟩ trivial) <|
    .cons (.read (by decide) (by decide)) <|
    .cons (.read (by decide) (by decide)) (by exact .nil))).1

end Serving

end AsyncNet
