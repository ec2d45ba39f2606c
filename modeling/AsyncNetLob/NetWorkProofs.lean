import AsyncNetLob.NetDeliveryProofs
import AsyncNetLob.NetRepliesProofs

/-! # What a session does for its bytes

    Every handler, read and write of a session is there because bytes came in or
    because somebody called `stop`.  `Session.work` counts the steps that a session can
    still take: each byte that has not been read counts for three, an outstanding
    operation and a queued handler for all that can follow from it.

    So a run is at most as long as the stream and the calls of `stop` allow
    (`opened_frugal`), whatever is in the stream and whatever fails, and a session never
    sends more bytes than it was sent. -/

namespace AsyncNet

open Protocol Transition

/-! ## Work -/

/-- The steps that follow once the strand runs a handler, this one included. -/
def Handler.work : Handler → ℕ
  | .removeSession => 1
  | .stop => 2
  | .send _ => 10
  | .written _ => 4
  | .headerRead true _ => 4
  | .headerRead false _ => 21
  | .payloadRead _ true => 4
  | .payloadRead _ false => 18

/-- The steps that follow from an outstanding read, less those its bytes pay for. -/
def ReadOp.work : ReadOp → ℕ
  | .header => 6
  | .payload _ => 20

/-- The steps of handlers that are queued. -/
def queuedWork (hs : List Handler) : ℕ := (hs.map fun h => h.work + 1).sum

/-- The steps that a session can still take, but for the bytes that its writes put on
    the socket. -/
def Session.work (s : Session) : ℕ :=
  3 * s.incoming.length + (s.reads.map ReadOp.work).sum + 6 * s.writes.length
    + 3 * s.writeQueue.length + queuedWork s.posted + queuedWork s.completions
    + (s.running.toList.map Handler.work).sum

@[simp] theorem queuedWork_nil : queuedWork [] = 0 := rfl

@[simp] theorem queuedWork_cons (h : Handler) (hs : List Handler) :
    queuedWork (h :: hs) = h.work + 1 + queuedWork hs := rfl

@[simp] theorem queuedWork_append (hs hs' : List Handler) :
    queuedWork (hs ++ hs') = queuedWork hs + queuedWork hs' := by
  rw [queuedWork, List.map_append, List.sum_append]
  rfl

/-- A packet is answered by one frame at most. -/
theorem Packet.posts_work (host : ByteOrder) (p : Packet) : queuedWork (p.posts host) ≤ 11 := by
  rw [Packet.posts]
  split
  · exact Nat.le_refl _
  · split
    · exact Nat.le_refl _
    · split
      · decide
      · exact Nat.zero_le _

section Work

variable {host : ByteOrder} {s s' : Session}

theorem Session.stop_work (s : Session) : s.stop.work = s.work + 3 := by
  simp only [Session.work, Session.stop, queuedWork_append, queuedWork_cons, queuedWork_nil,
    Handler.work]
  omega

theorem Session.doWrite_work (s : Session) : s.doWrite.work ≤ s.work + 6 := by
  rw [Session.doWrite]
  split
  · exact Nat.le_add_right _ _
  · simp only [Session.work, List.length_append, List.length_singleton]
    omega

/-- Delivering a packet. -/
theorem Session.deliver_work (host : ByteOrder) (s : Session) (p : Packet) :
    (s.deliver host p).work ≤ s.work + 17 := by
  have hposts := p.posts_work host
  simp only [Session.work, Session.deliver, List.map_append, List.sum_append, List.map_cons,
    List.map_nil, List.sum_singleton, queuedWork_append, ReadOp.work]
  omega

/-- The handler of a posted frame. -/
theorem Session.onSend_work (s : Session) (data : Bytes) :
    (s.onSend data).work ≤ s.work + 9 := by
  have hpush : ({ s with writeQueue := s.writeQueue ++ [data] } : Session).work = s.work + 3 := by
    simp only [Session.work, List.length_append, List.length_singleton]
    omega
  rw [Session.onSend]
  split
  · exact Nat.le_add_right _ _
  · dsimp only
    split
    · omega
    · have hwrite := ({ s with writeQueue := s.writeQueue ++ [data] } : Session).doWrite_work
      omega

/-- The handler of a write pays for the next one with the frame it pops. -/
theorem Session.onWritten_work (s : Session) (ec : Bool) :
    (s.onWritten ec).work ≤ s.work + 3 := by
  rw [Session.onWritten]
  split
  · exact Nat.le_of_eq s.stop_work
  · cases hqueue : s.writeQueue with
    | nil =>
        have hsame : ({ s with writeQueue := [] } : Session) = s := by
          rw [← hqueue]
        show ({ s with writeQueue := [] } : Session).work ≤ _
        rw [hsame]
        exact Nat.le_add_right _ _
    | cons front queue =>
        have hpop : ({ s with writeQueue := queue } : Session).work + 3 = s.work := by
          simp only [Session.work, hqueue, List.length_cons]
          omega
        dsimp only [List.tail_cons]
        split
        · omega
        · have hwrite := ({ s with writeQueue := queue } : Session).doWrite_work
          omega

/-- The read handlers are paid for. -/
theorem Session.readHandler_work (host : ByteOrder) (s : Session) {h : Handler}
    (hread : h.isRead = true) :
    (s.execute host h).work + 1 ≤ s.work + h.work := by
  have hstop := s.stop_work
  have hcase := execute_read host s hread
  generalize s.execute host h = t at hcase
  cases hcase with
  | failed op k =>
      have hwork : (op.handler true k).work = 4 := by cases op <;> rfl
      omega
  | malformed =>
      show _ ≤ s.work + 21
      omega
  | oversize =>
      show _ ≤ s.work + 21
      omega
  | @announced k header =>
      show (s.doReadPayload header).work + 1 ≤ s.work + 21
      simp only [Session.work, Session.doReadPayload, List.map_append, List.sum_append,
        List.map_cons, List.map_nil, List.sum_singleton, ReadOp.work]
      omega
  | @empty k header =>
      have hdeliver := s.deliver_work host ⟨header, []⟩
      show _ ≤ s.work + 21
      omega
  | complete header =>
      have hdeliver := s.deliver_work host ⟨header, s.payloadBuffer⟩
      show _ ≤ s.work + 18
      omega

/-- **HANDLERS** are paid for: each one by the work it was counted for. -/
theorem Session.execute_work (host : ByteOrder) (s : Session) (hidle : s.running = none)
    (h : Handler) :
    (s.execute host h).work + 1 ≤ s.work + h.work := by
  cases h with
  | stop =>
      show s.onStop.work + 1 ≤ s.work + 2
      rw [Session.onStop]
      split
      · omega
      · simp only [Session.work, hidle, Option.toList_some, Option.toList_none, List.map_cons,
          List.map_nil, List.sum_cons, List.sum_nil, Handler.work]
        omega
  | send data =>
      have hsend := s.onSend_work data
      show (s.onSend data).work + 1 ≤ s.work + 10
      omega
  | written ec =>
      have hwritten := s.onWritten_work ec
      show (s.onWritten ec).work + 1 ≤ s.work + 4
      omega
  | removeSession => exact Nat.le_refl _
  | headerRead ec k => exact s.readHandler_work host rfl
  | payloadRead header ec => exact s.readHandler_work host rfl

/-! ## Steps -/

/-- A completed read pays for its handler with the bytes it took. -/
theorem Session.completeRead_work (ec : Bool) {op : ReadOp} {rest : List ReadOp} {k : ℕ}
    (hop : s.reads = op :: rest) (hk : k ≤ s.incoming.length) (hfull : ec = false → k = op.size) :
    (s.completeRead op rest ec k).work + 1 ≤ s.work := by
  have hwork : (s.completeRead op rest ec k).work + 3 * k + op.work
      = s.work + (op.handler ec k).work + 1 := by
    cases op <;>
      simp only [Session.work, Session.completeRead, hop, List.length_drop, List.map_cons,
        List.sum_cons, queuedWork_append, queuedWork_cons, queuedWork_nil] <;>
      omega
  cases op with
  | header =>
      cases ec with
      | true =>
          simp only [ReadOp.work, ReadOp.handler, Handler.work] at hwork
          omega
      | false =>
          have hsize : k = 8 := hfull rfl
          simp only [ReadOp.work, ReadOp.handler, Handler.work] at hwork
          omega
  | payload header =>
      cases ec <;> simp only [ReadOp.work, ReadOp.handler, Handler.work] at hwork <;> omega

theorem Session.completeWrite_work (ec : Bool) {op : WriteOp} {rest : List WriteOp}
    (hop : s.writes = op :: rest) : (s.completeWrite rest ec).work + 1 = s.work := by
  simp only [Session.work, Session.completeWrite, hop, List.length_cons, queuedWork_append,
    queuedWork_cons, queuedWork_nil, Handler.work]
  omega

/-- A step that is not an empty transmission. -/
def Session.Working (host : ByteOrder) (s : Session) (e : Event) (s' : Session) : Prop :=
  Session.Step host s e s' ∧ (e = .transmit → s'.outgoing ≠ s.outgoing)

/-- A call of `stop` is paid for by the caller. -/
def Event.credit (e : Event) : ℕ := if e = .requestStop then 4 else 0

/-- No step but a transmission puts bytes on the socket. -/
theorem outgoing_step {e : Event} (hstep : Session.Step host s e s') (he : e ≠ .transmit) :
    s'.outgoing = s.outgoing := by
  cases hstep with
  | @readCompletes op => cases op <;> rfl
  | @readFails op => cases op <;> rfl
  | transmit => exact absurd rfl he
  | writeCompletes => rfl
  | writeFails => rfl
  | startPosted => rfl
  | startCompletion => rfl
  | requestStop => rfl
  | @resume x => exact (execute_kept host _ x).2.1

/-- **ONE STEP** is paid for by the work of the session, by a byte put on the socket, or
    by the caller of `stop`. -/
theorem Session.Working.paid {e : Event} (hstep : Session.Working host s e s') :
    1 + s'.work + s.outgoing.length ≤ s.work + s'.outgoing.length + e.credit := by
  obtain ⟨hstep, hsent⟩ := hstep
  have hout := fun he => congrArg List.length (outgoing_step hstep he)
  cases hstep with
  | readCompletes hop _ hsize =>
      have hwork := Session.completeRead_work false hop hsize fun _ => rfl
      have hsame := hout (by decide)
      omega
  | readFails hop _ hsize =>
      have hwork := Session.completeRead_work true hop hsize fun hec => by cases hec
      have hsame := hout (by decide)
      omega
  | @transmit op rest front k hop _ hfront hk =>
      have hwork : (s.transmit op rest front k).work = s.work := by
        simp only [Session.work, Session.transmit, hop, List.length_cons]
      have hmore : (s.transmit op rest front k).outgoing.length
          = s.outgoing.length + ((front.drop op.sent).take k).length := List.length_append
      have hpos : ((front.drop op.sent).take k).length ≠ 0 := by
        intro hzero
        refine hsent rfl ?_
        show s.outgoing ++ (front.drop op.sent).take k = s.outgoing
        rw [List.length_eq_zero_iff.mp hzero, List.append_nil]
      omega
  | @writeCompletes op rest hop =>
      have hwork := Session.completeWrite_work false hop
      have hsame := hout (by decide)
      omega
  | @writeFails op rest hop =>
      have hwork := Session.completeWrite_work true hop
      have hsame := hout (by decide)
      omega
  | startPosted hidle hposted =>
      simp only [Session.work, hidle, hposted, queuedWork_cons, Option.toList_some,
        Option.toList_none, List.map_cons, List.map_nil, List.sum_cons, List.sum_nil]
      omega
  | startCompletion hidle hdone =>
      simp only [Session.work, hidle, hdone, queuedWork_append, queuedWork_cons,
        Option.toList_some, Option.toList_none, List.map_cons, List.map_nil, List.sum_cons,
        List.sum_nil]
      omega
  | @resume x hrunning =>
      have hsame := hout (by decide)
      have hexec := ({ s with running := none } : Session).execute_work host rfl x
      have htaken : s.work = ({ s with running := none } : Session).work + x.work := by
        simp only [Session.work, hrunning, Option.toList_some, Option.toList_none, List.map_cons,
          List.map_nil, List.sum_cons, List.sum_nil]
        omega
      omega
  | requestStop =>
      have hstop := s.stop_work
      have hcredit : Event.requestStop.credit = 4 := rfl
      have hsame := hout (by decide)
      omega

theorem sum_credit (es : List Event) : (es.map Event.credit).sum = 4 * es.count .requestStop := by
  induction es with
  | nil => rfl
  | cons e es ih =>
      rw [List.map_cons, List.sum_cons, ih, List.count_cons, Event.credit]
      cases e <;> simp
      omega

/-! ## Bytes -/

theorem serializePacket_length (host : ByteOrder) (p : Packet) :
    (serializePacket host p).length = headerSize + p.payload.length := by
  rw [serializePacket_eq, List.length_append, wireHeader_length]

/-- An answer is not longer than its request. -/
theorem Packet.replies_length (host : ByteOrder) (p : Packet) :
    p.replies.flatten.length ≤ (serializePacket host p).length := by
  rw [Packet.replies, serializePacket_length]
  split
  · exact Nat.le_add_right _ _
  · split
    · rw [List.flatten_singleton, echoFrame, List.length_append]
      exact Nat.le_refl _
    · exact Nat.zero_le _

/-- The replies to a packet depend on its frame only. -/
theorem flatMap_replies (ps : List Packet) :
    ps.flatMap Packet.replies = (ps.map Packet.frame).flatMap fun f =>
      (Packet.mk ⟨magicHeader, f.1, 0⟩ f.2).replies := by
  rw [List.flatMap_map]
  rfl

theorem replies_length (host : ByteOrder) (ps : List Packet) :
    (ps.flatMap Packet.replies).flatten.length
      ≤ (ps.flatMap (serializePacket host)).length := by
  induction ps with
  | nil => exact Nat.le_refl 0
  | cons p ps ih =>
      have hp := p.replies_length host
      simp only [List.flatMap_cons, List.flatten_append, List.length_append]
      omega

/-! ## Runs -/

/-- The read loop is whole after every run, whatever fails. -/
theorem Loop.of_run {stream : Bytes} {es : List Event}
    (hrun : Run (Session.Step host) (Session.opened stream) es s) : Loop False host stream s :=
  hrun.invariant (I := Loop False host stream) (fun _ _ _ hstep hs => hs.step hstep False.elim)
    (Loop.opened False host stream)

/-- No more bytes are sent, or queued, than came in. -/
theorem outgoing_frugal {stream : Bytes} {es : List Event}
    (hrun : Run (Session.Step host) (Session.opened stream) es s) :
    s.outgoing.length ≤ stream.length ∧ s.writeQueue.flatten.length ≤ stream.length := by
  have hloop := Loop.of_run hrun
  obtain ⟨popped, later, hreplies⟩ := Replies.run hrun (Replies.opened stream)
  have hbytes := Nat.le_trans (replies_length host s.processed) hloop.reads.begins.length_le
  refine ⟨Nat.le_trans hreplies.outgoing.length_le hbytes, ?_⟩
  rw [hreplies.replies] at hbytes
  simp only [List.flatten_append, List.length_append] at hbytes
  omega

/-- Each call of `stop` adds four steps, itself included. -/
theorem Session.Working.length_le {stream : Bytes} {es : List Event}
    (hrun : Run (Session.Working host) (Session.opened stream) es s) :
    es.length ≤ 4 * stream.length + 6 + 4 * es.count .requestStop := by
  have hsteps := hrun.potential (Φ := Session.work) (G := fun s => s.outgoing.length)
    fun _ _ _ hstep => hstep.paid
  have hplain : Run (Session.Step host) (Session.opened stream) es s :=
    hrun.mono fun _ _ _ hstep => hstep.1
  have houtput := (outgoing_frugal hplain).1
  have hwork : (Session.opened stream).work = 3 * stream.length + 6 := rfl
  have hnothing : (Session.opened stream).outgoing.length = 0 := rfl
  rw [sum_credit] at hsteps
  omega

/-- What a run `es` of a session costs, against the bytes that it was sent. -/
structure Frugal (stream : Bytes) (es : List Event) (s : Session) : Prop where
  /-- Each call of `stop` adds four steps, itself included. -/
  steps : es.length ≤ 4 * stream.length + 6 + 4 * es.count .requestStop
  output : s.outgoing.length ≤ stream.length
  queue : s.writeQueue.flatten.length ≤ stream.length

/-- **NO WORK AND NO BYTES FOR FREE**: however reads, writes, failures, stops and
    handlers follow each other, a session takes no more steps than its stream and the
    calls of `stop` pay for, and neither sends nor queues more bytes than it was sent. -/
theorem opened_frugal (host : ByteOrder) (stream : Bytes) (es : List Event) (s : Session)
    (hrun : Run (Session.Working host) (Session.opened stream) es s) : Frugal stream es s := by
  have hplain : Run (Session.Step host) (Session.opened stream) es s :=
    hrun.mono fun _ _ _ hstep => hstep.1
  obtain ⟨houtput, hqueue⟩ := outgoing_frugal hplain
  exact ⟨Session.Working.length_le hrun, houtput, hqueue⟩

/-- A session that has echoed "hi" and holds a PING but for its last byte. -/
def Session.echoed : Session :=
  { Session.opened [0x41, 0x4E, 0, 1, 0, 0, 0] with
    headerBuffer := [0x41, 0x4E, 0, 3, 0, 0, 0, 2], payloadBuffer := [0x68, 0x69]
    processed := [⟨⟨magicHeader, .echoRequest, 2⟩, [0x68, 0x69]⟩], counted := 1
    outgoing := [0x41, 0x4E, 0, 4, 0, 0, 0, 2, 0x68, 0x69] }

/-- The request is read in two pieces and answered in one. -/
theorem run_echoed :
    Run (Session.Working .little)
      (Session.opened ([0x41, 0x4E, 0, 3, 0, 0, 0, 2, 0x68, 0x69] ++ [0x41, 0x4E, 0, 1, 0, 0, 0]))
      [.readCompletes, .startCompletion, .resume, .readCompletes, .startCompletion, .resume,
        .startPosted, .resume, .transmit, .writeCompletes, .startCompletion, .resume]
      Session.echoed :=
  .cons ⟨.readCompletes rfl rfl (by decide), by decide⟩ <|
  .cons ⟨@Session.Step.startCompletion _ _ [] [] _ rfl rfl, by decide⟩ <|
  .cons ⟨.resume rfl, by decide⟩ <|
  .cons ⟨.readCompletes rfl rfl (by decide), by decide⟩ <|
  .cons ⟨@Session.Step.startCompletion _ _ [] [] _ rfl rfl, by decide⟩ <|
  .cons ⟨.resume rfl, by decide⟩ <|
  .cons ⟨.startPosted rfl (by rfl), by decide⟩ <| .cons ⟨.resume rfl, by decide⟩ <|
  .cons ⟨@Session.Step.transmit _ _ ⟨10, 0⟩ [] [0x41, 0x4E, 0, 4, 0, 0, 0, 2, 0x68, 0x69] 10
    (by rfl) (by rfl) (by rfl) (by decide), fun _ => by decide⟩ <|
  .cons ⟨@Session.Step.writeCompletes _ _ ⟨10, 10⟩ [] (by rfl) rfl, by decide⟩ <|
  .cons ⟨@Session.Step.startCompletion _ _ [] [] _ (by rfl) (by rfl), by decide⟩ <|
  .cons ⟨.resume (by rfl), by decide⟩ (by exact .nil)

/-- Twelve steps for 17 bytes, of which ten come back. -/
theorem opened_frugal_hi :
    Frugal ([0x41, 0x4E, 0, 3, 0, 0, 0, 2, 0x68, 0x69] ++ [0x41, 0x4E, 0, 1, 0, 0, 0])
      [.readCompletes, .startCompletion, .resume, .readCompletes, .startCompletion, .resume,
        .startPosted, .resume, .transmit, .writeCompletes, .startCompletion, .resume]
      Session.echoed :=
  opened_frugal .little _ _ _ run_echoed

end Work

end AsyncNet
