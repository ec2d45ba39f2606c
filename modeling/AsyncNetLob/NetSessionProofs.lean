import AsyncNetLob.NetSession

/-! # What the handlers of a session do

    `processPacket` records the packet and posts at most one handler
    (`Packet.posts`); `doWrite` starts one write of the front of the queue.  The read
    handlers stop the session, wait for a payload, or deliver a packet and wait for
    the next header (`ReadCase`). -/

namespace AsyncNet

open Protocol

/-- The handler of a completed read. -/
def Handler.isRead : Handler → Bool
  | .headerRead _ _ => true
  | .payloadRead _ _ => true
  | _ => false

@[simp] theorem ReadOp.handler_isRead (op : ReadOp) (ec : Bool) (k : Nat) :
    (op.handler ec k).isRead = true := by
  cases op <;> rfl

/-- The handlers that are posted. -/
def Handler.isPosted : Handler → Bool
  | .stop => true
  | .send _ => true
  | _ => false

theorem Handler.isRead_of_isPosted {h : Handler} (hp : h.isPosted = true) : h.isRead = false := by
  cases h <;> first | rfl | cases hp

/-- A list of posted handlers grows by one. -/
theorem posted_concat {hs : List Handler} (hposted : ∀ h ∈ hs, h.isPosted = true) {x : Handler}
    (hx : x.isPosted = true) : ∀ h ∈ hs ++ [x], h.isPosted = true := by
  intro h hh
  rcases List.mem_append.mp hh with hh | hh
  · exact hposted h hh
  · rw [List.mem_singleton.mp hh]
    exact hx

/-- The handlers after which the session is stopped, or which post a stop. -/
def Handler.stops : Handler → Bool
  | .stop => true
  | .written true => true
  | _ => false

@[simp] theorem ReadOp.handler_stops (op : ReadOp) (ec : Bool) (k : Nat) :
    (op.handler ec k).stops = false := by
  cases op <;> rfl

/-- What `processPacket` posts for a packet. -/
def Packet.posts (host : ByteOrder) (p : Packet) : List Handler :=
  if p.header.type = .ping then [.send (serializePacket host createPongPacket)]
  else if p.header.type = .echoRequest then
    [.send (serializePacket host (createEchoResponse p.payload))]
  else if p.header.type = .disconnect then [.stop]
  else []

/-- A handler of a kind is not one of another kind that joins its queue. -/
theorem mem_of_mem_concat (kind : Handler → Bool) {queue : List Handler} {x h : Handler}
    (hx : kind x = false) (hh : kind h = true) (hmem : h ∈ queue ++ [x]) : h ∈ queue := by
  rcases List.mem_append.mp hmem with hmem | hmem
  · exact hmem
  · rw [List.mem_singleton.mp hmem, hx] at hh
    cases hh

theorem Packet.posts_isPosted {host : ByteOrder} {p : Packet} :
    ∀ x ∈ p.posts host, x.isPosted = true := by
  intro x hx
  rw [Packet.posts] at hx
  split at hx
  · rw [List.mem_singleton.mp hx]
    rfl
  · split at hx
    · rw [List.mem_singleton.mp hx]
      rfl
    · split at hx
      · rw [List.mem_singleton.mp hx]
        rfl
      · cases hx

/-- Only a DISCONNECT posts a stop. -/
theorem Packet.stop_mem_posts {host : ByteOrder} {p : Packet} :
    .stop ∈ p.posts host ↔ p.header.type = .disconnect := by
  rw [Packet.posts]
  constructor
  · intro h
    split at h
    · cases List.mem_singleton.mp h
    · split at h
      · cases List.mem_singleton.mp h
      · split at h
        · assumption
        · cases h
  · intro h
    rw [h, if_neg (by decide), if_neg (by decide), if_pos rfl]
    exact List.mem_singleton_self _

namespace Session

variable {host : ByteOrder} {s : Session}

/-- A handler is queued on the strand or running. -/
def Pending (s : Session) (h : Handler) : Prop :=
  h ∈ s.posted ∨ h ∈ s.completions ∨ s.running = some h

/-- What is pending after a handler was taken was pending, if it was not posted. -/
theorem Pending.of_taken {t : Session} {h : Handler} (hp : t.Pending h) (hidle : t.running = none)
    (hdone : t.completions = s.completions) (hposted : h ∉ t.posted) : s.Pending h := by
  rcases hp with hp | hp | hp
  · exact absurd hp hposted
  · exact Or.inr (Or.inl (hdone ▸ hp))
  · cases hidle.symm.trans hp

/-- Starting a posted handler. -/
theorem pending_startPosted {x h : Handler} {rest : List Handler} (hidle : s.running = none)
    (hposted : s.posted = x :: rest) :
    ({ s with posted := rest, running := some x } : Session).Pending h ↔ s.Pending h := by
  rw [Pending, Pending, hposted, hidle, List.mem_cons, Option.some_inj, eq_comm (a := x)]
  simp only [reduceCtorEq, or_false]
  tauto

/-- Starting the handler of a completed operation. -/
theorem pending_startCompletion {x h : Handler} {before after : List Handler}
    (hidle : s.running = none) (hdone : s.completions = before ++ x :: after) :
    ({ s with completions := before ++ after, running := some x } : Session).Pending h
      ↔ s.Pending h := by
  rw [Pending, Pending, hdone, hidle, List.mem_append, List.mem_append, List.mem_cons,
    Option.some_inj, eq_comm (a := x)]
  simp only [reduceCtorEq, or_false]
  tauto

theorem processPacket_eq (s : Session) (header : Header) (payload : Bytes) :
    s.processPacket host header payload
      = { s with processed := s.processed ++ [⟨header, payload⟩], counted := s.counted + 1
                 posted := s.posted ++ (Packet.mk header payload).posts host } := by
  rw [processPacket, Packet.posts]
  by_cases hping : header.type = .ping
  · rw [if_pos hping, if_pos hping]
    rfl
  · rw [if_neg hping, if_neg hping]
    by_cases hecho : header.type = .echoRequest
    · rw [if_pos hecho, if_pos hecho]
      rfl
    · rw [if_neg hecho, if_neg hecho]
      by_cases hdisc : header.type = .disconnect
      · rw [if_pos hdisc, if_pos hdisc]
        rfl
      · rw [if_neg hdisc, if_neg hdisc, List.append_nil]

/-- Deliver a packet and wait for the next header. -/
def deliver (host : ByteOrder) (s : Session) (p : Packet) : Session :=
  { s with processed := s.processed ++ [p], counted := s.counted + 1
           posted := s.posted ++ p.posts host, reads := s.reads ++ [.header] }

theorem deliver_eq (s : Session) (header : Header) (payload : Bytes) :
    (s.processPacket host header payload).doReadHeader = s.deliver host ⟨header, payload⟩ := by
  rw [processPacket_eq]
  rfl

end Session

/-- The cases of a read handler. -/
inductive ReadCase (host : ByteOrder) (s : Session) : Handler → Session → Prop where
  | failed (op : ReadOp) (k : Nat) : ReadCase host s (op.handler true k) s.stop
  | malformed {k : Nat} (hdec : (deserializeHeader host s.headerBuffer k {}).1 = false) :
      ReadCase host s (.headerRead false k) s.stop
  | oversize {k : Nat} {header : Header}
      (hdec : deserializeHeader host s.headerBuffer k {} = (true, header))
      (hsize : maxPayloadSize < header.length.toNat) : ReadCase host s (.headerRead false k) s.stop
  | announced {k : Nat} {header : Header}
      (hdec : deserializeHeader host s.headerBuffer k {} = (true, header))
      (hsize : header.length.toNat ≤ maxPayloadSize) (hpos : header.length.toNat ≠ 0) :
      ReadCase host s (.headerRead false k) (s.doReadPayload header)
  | empty {k : Nat} {header : Header}
      (hdec : deserializeHeader host s.headerBuffer k {} = (true, header))
      (hzero : header.length.toNat = 0) :
      ReadCase host s (.headerRead false k) (s.deliver host ⟨header, []⟩)
  | complete (header : Header) :
      ReadCase host s (.payloadRead header false) (s.deliver host ⟨header, s.payloadBuffer⟩)

/-- **READ HANDLERS** do one of six things. -/
theorem execute_read (host : ByteOrder) (s : Session) {h : Handler} (hread : h.isRead = true) :
    ReadCase host s h (s.execute host h) := by
  cases h with
  | headerRead ec k =>
      cases ec with
      | true => exact .failed .header k
      | false =>
          show ReadCase host s _ (s.onHeader host false k)
          rw [Session.onHeader]
          cases hdec : deserializeHeader host s.headerBuffer k {} with
          | mk ok header =>
              cases ok with
              | false => exact .malformed (congrArg Prod.fst hdec)
              | true =>
                  dsimp only
                  by_cases hsize : header.length.toNat > maxPayloadSize
                  · simpa [hsize] using ReadCase.oversize hdec hsize
                  · by_cases hzero : header.length.toNat = 0
                    · have hpos : ¬ header.length > 0 := by
                        rw [gt_iff_lt, UInt32.lt_iff_toNat_lt, hzero]
                        exact Nat.not_lt_zero _
                      simpa [hsize, hpos, Session.deliver_eq] using ReadCase.empty hdec hzero
                    · have hpos : header.length > 0 := by
                        rw [gt_iff_lt, UInt32.lt_iff_toNat_lt]
                        exact Nat.pos_of_ne_zero hzero
                      simpa [hsize, hpos] using
                        ReadCase.announced hdec (Nat.le_of_not_lt hsize) hzero
  | payloadRead header ec =>
      cases ec with
      | true => exact .failed (.payload header) 0
      | false =>
          show ReadCase host s _ ((s.processPacket host header s.payloadBuffer).doReadHeader)
          rw [Session.deliver_eq]
          exact .complete header
  | stop => cases hread
  | send data => cases hread
  | written ec => cases hread
  | removeSession => cases hread

theorem Session.doWrite_eq (s : Session) :
    ∃ writes, s.doWrite = { s with writes := writes } := by
  rw [Session.doWrite]
  split
  · exact ⟨s.writes, rfl⟩
  · exact ⟨_, rfl⟩

/-- A send handler touches the queue and the writes. -/
theorem Session.onSend_eq (s : Session) (data : Bytes) : ∃ more writes,
    s.onSend data = { s with writeQueue := s.writeQueue ++ more, writes := writes } := by
  rw [Session.onSend]
  split
  · exact ⟨[], s.writes, by rw [List.append_nil]⟩
  · dsimp only
    split
    · exact ⟨_, s.writes, rfl⟩
    · obtain ⟨writes, hwrite⟩ :=
        Session.doWrite_eq { s with writeQueue := s.writeQueue ++ [data] }
      exact ⟨_, writes, hwrite⟩

/-- So does the handler of a write that succeeded. -/
theorem Session.onWritten_eq (s : Session) : ∃ queue writes,
    s.onWritten false = { s with writeQueue := queue, writes := writes } := by
  rw [Session.onWritten, if_neg Bool.false_ne_true]
  dsimp only
  split
  · exact ⟨_, s.writes, rfl⟩
  · obtain ⟨writes, hwrite⟩ := Session.doWrite_eq { s with writeQueue := s.writeQueue.tail }
    exact ⟨_, writes, hwrite⟩

/-- The cases of the other handlers. -/
inductive OtherCase (s : Session) : Handler → Session → Prop where
  | again (hstopped : s.isStopped = true) : OtherCase s .stop s
  | closes (hlive : s.isStopped = false) :
      OtherCase s .stop { s with isStopped := true, socketOpen := false
                                 closings := s.closings + 1, running := some .removeSession }
  | removes : OtherCase s .removeSession { s with removals := s.removals + 1 }
  | sends (data : Bytes) (more : List Bytes) (writes : List WriteOp) :
      OtherCase s (.send data) { s with writeQueue := s.writeQueue ++ more, writes := writes }
  | pops (queue : List Bytes) (writes : List WriteOp) :
      OtherCase s (.written false) { s with writeQueue := queue, writes := writes }
  | writeFailed : OtherCase s (.written true) s.stop

/-- **OTHER HANDLERS**: stops, sends and the handlers of writes. -/
theorem execute_other (host : ByteOrder) (s : Session) {h : Handler} (hother : h.isRead = false) :
    OtherCase s h (s.execute host h) := by
  cases h with
  | headerRead ec k => cases hother
  | payloadRead header ec => cases hother
  | stop =>
      show OtherCase s _ s.onStop
      rw [Session.onStop]
      cases hstopped : s.isStopped with
      | true =>
          rw [if_pos rfl]
          have hcase := OtherCase.again hstopped
          exact hcase
      | false =>
          rw [if_neg Bool.false_ne_true]
          exact .closes hstopped
  | send data =>
      show OtherCase s _ (s.onSend data)
      obtain ⟨more, writes, heq⟩ := s.onSend_eq data
      rw [heq]
      exact .sends data more writes
  | written ec =>
      cases ec with
      | true => exact .writeFailed
      | false =>
          show OtherCase s _ (s.onWritten false)
          obtain ⟨queue, writes, heq⟩ := s.onWritten_eq
          rw [heq]
          exact .pops queue writes
  | removeSession => exact .removes

end AsyncNet
