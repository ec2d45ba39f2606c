import AsyncNetLob.NetFramingProofs
import AsyncNetLob.NetSessionProofs

/-! # The read loop delivers the frames of the stream

    What a session hands to `processPacket` is compared with the longest list of
    frames that the stream begins with.  `Loop` is the invariant of the read loop:
    the processed packets, encoded, are the start of the stream, and `Phase` says
    how what is in the buffers and what is still to come make up the rest.

    The steps that the rest of the session takes do not touch the read side
    (`Loop.quiet`); the steps of the read loop go from phase to phase. -/

namespace AsyncNet

open Protocol PrefixCode Transition

/-- What the read loop works on. -/
structure ReadSide where
  headerBuffer  : Bytes
  payloadBuffer : Bytes
  incoming      : Bytes
  processed     : List Packet
  reads         : List ReadOp
  done          : List Handler
  handling      : Option Handler

def Session.readSide (s : Session) : ReadSide where
  headerBuffer := s.headerBuffer
  payloadBuffer := s.payloadBuffer
  incoming := s.incoming
  processed := s.processed
  reads := s.reads
  done := s.completions.filter Handler.isRead
  handling := s.running.filter Handler.isRead

/-- The one read has completed; its handler is queued or running. -/
structure ReadSide.Completed (v : ReadSide) (h : Handler) : Prop where
  reads : v.reads = []
  place : v.done = [h] ∧ v.handling = none ∨ v.done = [] ∧ v.handling = some h

/-- In a calm run nothing is delivered that would be compared: a DISCONNECT was
    processed, or no frame begins the rest of the stream. -/
def Halts (calm : Prop) (host : ByteOrder) (stream : Bytes) (processed : List Packet) : Prop :=
  calm → (∃ p ∈ processed, p.header.type = .disconnect)
    ∨ ∃ rest, stream = processed.flatMap (serializePacket host) ++ rest ∧ Unframed host rest

/-- What a read follows in the stream: a payload comes after its header. -/
def ReadOp.before : ReadOp → Bytes
  | .header => []
  | .payload h => wireHeader h

/-- The buffer a read fills. -/
def ReadSide.buffer (v : ReadSide) : ReadOp → Bytes
  | .header => v.headerBuffer
  | .payload _ => v.payloadBuffer

/-- The header of an outstanding payload was accepted. -/
def ReadOp.Accepted : ReadOp → Prop
  | .header => True
  | .payload h => h.magic = magicHeader ∧ h.length.toNat ≤ maxPayloadSize

/-- What the read loop waits for, and how the rest of the stream continues there. -/
inductive Phase (calm : Prop) (host : ByteOrder) (stream : Bytes) (v : ReadSide) : Prop where
  | waiting {op : ReadOp} (hreads : v.reads = [op]) (hdone : v.done = [])
      (hhandling : v.handling = none) (hop : op.Accepted) (hsize : (v.buffer op).length = op.size)
      (hrest : stream = v.processed.flatMap (serializePacket host) ++ (op.before ++ v.incoming))
  | done {op : ReadOp} (hcomp : v.Completed (op.handler false op.size)) (hop : op.Accepted)
      (hsize : (v.buffer op).length = op.size)
      (hrest : stream = v.processed.flatMap (serializePacket host)
        ++ (op.before ++ (v.buffer op ++ v.incoming)))
  | failed {op : ReadOp} {k : Nat} (hcomp : v.Completed (op.handler true k))
      (hhalts : Halts calm host stream v.processed)
  | ended (hreads : v.reads = []) (hdone : v.done = []) (hhandling : v.handling = none)
      (hhalts : Halts calm host stream v.processed)

/-- The session was stopped, or will be. -/
def Session.Stopping (s : Session) : Prop :=
  s.socketOpen = false ∨ ∃ h : Handler, h.stops = true ∧ s.Pending h

/-- The invariant of the read loop. -/
structure Loop (calm : Prop) (host : ByteOrder) (stream : Bytes) (s : Session) : Prop where
  phase         : Phase calm host stream s.readSide
  reads         : Reads Packet.Sendable (serializePacket host) stream s.processed
  headerBuffer  : s.headerBuffer.length = headerSize
  payloadBuffer : s.payloadBuffer.length ≤ maxPayloadSize
  posted        : ∀ h ∈ s.posted, h.isPosted = true
  stopping      : s.Stopping → Halts calm host stream s.processed

/-- Nothing but the session itself and its peer stops the session: reads fail only
    if too few bytes arrive or after the session closed the socket, writes fail only
    after it closed the socket, and nobody else calls `stop`. -/
def Undisturbed (e : Event) (s : Session) : Prop :=
  match e with
  | .readFails => s.socketOpen = false ∨ ∀ op ∈ s.reads, s.incoming.length < op.size
  | .writeFails => s.socketOpen = false
  | .requestStop => False
  | _ => True

section Loop

variable {calm : Prop} {host : ByteOrder} {stream : Bytes} {s s' : Session}

/-- A step outside the read side that does not start to stop the session. -/
theorem Loop.quiet (h : Loop calm host stream s) (hside : s'.readSide = s.readSide)
    (hposted : ∀ x ∈ s'.posted, x.isPosted = true) (hstop : calm → s'.Stopping → s.Stopping) :
    Loop calm host stream s' where
  phase := hside ▸ h.phase
  reads := by
    have hprocessed : s'.processed = s.processed := congrArg ReadSide.processed hside
    exact hprocessed ▸ h.reads
  headerBuffer := by
    have hbuffer : s'.headerBuffer = s.headerBuffer := congrArg ReadSide.headerBuffer hside
    exact hbuffer ▸ h.headerBuffer
  payloadBuffer := by
    have hbuffer : s'.payloadBuffer = s.payloadBuffer := congrArg ReadSide.payloadBuffer hside
    exact hbuffer ▸ h.payloadBuffer
  posted := hposted
  stopping := fun hs hcalm => by
    have hprocessed : s'.processed = s.processed := congrArg ReadSide.processed hside
    rw [hprocessed]
    exact h.stopping (hstop hcalm hs) hcalm

/-- An outstanding read is the only activity of the read loop. -/
theorem Phase.of_reads (h : Phase calm host stream s.readSide) {op : ReadOp} {rest : List ReadOp}
    (hop : s.reads = op :: rest) : rest = [] ∧ s.completions.filter Handler.isRead = []
      ∧ s.running.filter Handler.isRead = none ∧ op.Accepted
      ∧ (s.readSide.buffer op).length = op.size
      ∧ stream = s.processed.flatMap (serializePacket host) ++ (op.before ++ s.incoming) := by
  have hreads : s.readSide.reads = op :: rest := hop
  cases h with
  | waiting hreads' hdone hhandling hacc hsize hrest =>
      obtain ⟨rfl, rfl⟩ := List.cons.inj (hreads.symm.trans hreads')
      exact ⟨rfl, hdone, hhandling, hacc, hsize, hrest⟩
  | done hcomp => cases hreads.symm.trans hcomp.reads
  | failed hcomp => cases hreads.symm.trans hcomp.reads
  | ended hreads' => cases hreads.symm.trans hreads'

/-- Completing a read keeps the size of its buffer. -/
theorem fill_length {buffer bytes : Bytes} (h : bytes.length ≤ buffer.length) :
    (Session.fill buffer bytes).length = buffer.length := by
  rw [Session.fill, List.length_append, List.length_drop]
  omega

theorem fill_eq {buffer bytes : Bytes} (h : bytes.length = buffer.length) :
    Session.fill buffer bytes = bytes := by
  rw [Session.fill, h, List.drop_length, List.append_nil]

/-- What a completing read changes on the read side. -/
theorem completeRead_side (op : ReadOp) (rest : List ReadOp) (ec : Bool) (k : Nat)
    (hdone : s.completions.filter Handler.isRead = [])
    (hhandling : s.running.filter Handler.isRead = none) :
    let v := (s.completeRead op rest ec k).readSide
    v.reads = rest ∧ v.done = [op.handler ec k] ∧ v.handling = none
      ∧ v.incoming = s.incoming.drop k ∧ v.processed = s.processed
      ∧ v.buffer op = Session.fill (s.readSide.buffer op) (s.incoming.take k) := by
  have hfilter : (s.completions ++ [op.handler ec k]).filter Handler.isRead
      = [op.handler ec k] := by
    rw [List.filter_append, hdone, List.filter_cons_of_pos (op.handler_isRead ec k)]
    rfl
  cases op with
  | header => exact ⟨rfl, hfilter, hhandling, rfl, rfl, rfl⟩
  | payload h => exact ⟨rfl, hfilter, hhandling, rfl, rfl, rfl⟩

theorem completeRead_stopping {op : ReadOp} {rest : List ReadOp} {ec : Bool} {k : Nat}
    (h : (s.completeRead op rest ec k).Stopping) : s.Stopping := by
  have hposted : (s.completeRead op rest ec k).posted = s.posted := by cases op <;> rfl
  have hopen : (s.completeRead op rest ec k).socketOpen = s.socketOpen := by cases op <;> rfl
  have hrunning : (s.completeRead op rest ec k).running = s.running := by cases op <;> rfl
  have hdone : (s.completeRead op rest ec k).completions = s.completions ++ [op.handler ec k] := by
    cases op <;> rfl
  rw [Session.Stopping, hopen] at h
  refine Or.imp_right (fun ⟨x, hx, hpending⟩ => ⟨x, hx, ?_⟩) h
  rw [Session.Pending, hposted, hdone, hrunning] at hpending
  exact Or.imp_right (Or.imp_left (mem_of_mem_concat _ (op.handler_stops ec k) hx)) hpending

/-- A completing read keeps the rest of the session and the sizes of the buffers. -/
theorem Loop.completeRead (h : Loop calm host stream s) {op : ReadOp} {rest : List ReadOp}
    {ec : Bool}
    {k : Nat} (hk : k ≤ (s.readSide.buffer op).length)
    (hphase : Phase calm host stream (s.completeRead op rest ec k).readSide) :
    Loop calm host stream (s.completeRead op rest ec k) := by
  have htake : (s.incoming.take k).length ≤ (s.readSide.buffer op).length := by
    rw [List.length_take]
    omega
  cases op with
  | header =>
      exact ⟨hphase, h.reads, (fill_length htake).trans h.headerBuffer, h.payloadBuffer,
        h.posted, fun hs => h.stopping (completeRead_stopping hs)⟩
  | payload header =>
      exact ⟨hphase, h.reads, h.headerBuffer,
        Nat.le_trans (Nat.le_of_eq (fill_length htake)) h.payloadBuffer, h.posted,
        fun hs => h.stopping (completeRead_stopping hs)⟩

theorem Loop.readCompletes (h : Loop calm host stream s) {op : ReadOp} {rest : List ReadOp}
    (hop : s.reads = op :: rest) (havail : op.size ≤ s.incoming.length) :
    Loop calm host stream (s.completeRead op rest false op.size) := by
  obtain ⟨rfl, hdone, hhandling, hacc, hsize, hrest⟩ := h.phase.of_reads hop
  obtain ⟨hreads', hdone', hhandling', hincoming, hprocessed, hbuffer⟩ :=
    completeRead_side op [] false op.size hdone hhandling
  have htake : (s.incoming.take op.size).length = (s.readSide.buffer op).length := by
    rw [List.length_take, hsize]
    omega
  rw [fill_eq htake] at hbuffer
  refine h.completeRead (Nat.le_of_eq hsize.symm)
    (@Phase.done _ _ _ _ op ⟨hreads', Or.inl ⟨hdone', hhandling'⟩⟩ hacc ?_ ?_)
  · rw [hbuffer, htake, hsize]
  · rw [hprocessed, hbuffer, hincoming, List.take_append_drop]
    exact hrest

theorem Loop.readFails (h : Loop calm host stream s) {op : ReadOp} {rest : List ReadOp} {k : Nat}
    (hop : s.reads = op :: rest) (hk : k ≤ op.size)
    (hfew : calm → s.socketOpen = false ∨ s.incoming.length < op.size) :
    Loop calm host stream (s.completeRead op rest true k) := by
  obtain ⟨rfl, hdone, hhandling, hacc, hsize, hrest⟩ := h.phase.of_reads hop
  obtain ⟨hreads', hdone', hhandling', -, hprocessed, -⟩ :=
    completeRead_side op [] true k hdone hhandling
  refine h.completeRead (hsize ▸ hk) (@Phase.failed _ _ _ _ op k
    ⟨hreads', Or.inl ⟨hdone', hhandling'⟩⟩ ?_)
  rw [hprocessed]
  intro hcalm
  rcases hfew hcalm with hclosed | hfew
  · exact h.stopping (Or.inl hclosed) hcalm
  · refine Or.inr ⟨_, hrest, ?_⟩
    cases op with
    | header => exact .of_short hfew
    | payload header => exact .of_truncated hfew

/-! ## Read handlers -/

/-- A running read handler is the only activity of the read loop. -/
theorem Phase.of_running (h : Phase calm host stream s.readSide) {x : Handler}
    (hrunning : s.running = some x) (hread : x.isRead = true) :
    s.reads = [] ∧ s.completions.filter Handler.isRead = []
      ∧ ((∃ op : ReadOp, x = op.handler false op.size ∧ op.Accepted
          ∧ (s.readSide.buffer op).length = op.size
          ∧ stream = s.processed.flatMap (serializePacket host)
            ++ (op.before ++ (s.readSide.buffer op ++ s.incoming)))
        ∨ ∃ (op : ReadOp) (k : Nat), x = op.handler true k
          ∧ Halts calm host stream s.processed) := by
  have hhandling : s.readSide.handling = some x := by
    show s.running.filter Handler.isRead = some x
    rw [hrunning, Option.filter_some, if_pos hread]
  have hplace : ∀ y, s.readSide.Completed y →
      s.reads = [] ∧ s.completions.filter Handler.isRead = [] ∧ x = y := by
    rintro y ⟨hreads, ⟨-, hnone⟩ | ⟨hdone, hsome⟩⟩
    · cases hhandling.symm.trans hnone
    · exact ⟨hreads, hdone, Option.some.inj (hhandling.symm.trans hsome)⟩
  cases h with
  | waiting _ _ hnone => cases hhandling.symm.trans hnone
  | done hcomp hop hsize hrest =>
      obtain ⟨hreads, hdone, rfl⟩ := hplace _ hcomp
      exact ⟨hreads, hdone, Or.inl ⟨_, rfl, hop, hsize, hrest⟩⟩
  | failed hcomp hhalts =>
      obtain ⟨hreads, hdone, rfl⟩ := hplace _ hcomp
      exact ⟨hreads, hdone, Or.inr ⟨_, _, rfl, hhalts⟩⟩
  | ended _ _ hnone => cases hhandling.symm.trans hnone

theorem idle_stopping (h : ({ s with running := none } : Session).Stopping) : s.Stopping := by
  refine Or.imp_right (fun ⟨x, hx, hpending⟩ => ⟨x, hx, ?_⟩) h
  rcases hpending with hs | hs | hs
  · exact Or.inl hs
  · exact Or.inr (Or.inl hs)
  · cases hs

/-- The read loop ends by stopping the session. -/
theorem Loop.stops (h : Loop calm host stream s) (hreads : s.reads = [])
    (hdone : s.completions.filter Handler.isRead = [])
    (hhalts : Halts calm host stream s.processed) :
    Loop calm host stream ({ s with running := none } : Session).stop where
  phase := .ended hreads hdone rfl hhalts
  reads := h.reads
  headerBuffer := h.headerBuffer
  payloadBuffer := h.payloadBuffer
  posted := posted_concat h.posted rfl
  stopping := fun _ => hhalts

/-- A delivered packet takes its frame from the rest of the stream. -/
theorem Loop.deliver (h : Loop calm host stream s) (hreads : s.reads = [])
    (hdone : s.completions.filter Handler.isRead = []) {header : Header} {payload : Bytes}
    (hmagic : header.magic = magicHeader) (hlimit : header.length.toNat ≤ maxPayloadSize)
    (hlen : payload.length = header.length.toNat)
    (hrest : stream = s.processed.flatMap (serializePacket host)
      ++ (wireHeader header ++ (payload ++ s.incoming))) :
    Loop calm host stream
      (({ s with running := none } : Session).deliver host ⟨header, payload⟩) := by
  have hsend : (Packet.mk header payload).Sendable := ⟨hmagic, hlen ▸ hlimit⟩
  have hframe : stream = (s.processed ++ [Packet.mk header payload]).flatMap
      (serializePacket host) ++ s.incoming := by
    rw [List.flatMap_append, List.flatMap_singleton, serializePacket_of_length host hlen, hrest]
    simp only [List.append_assoc]
  refine ⟨@Phase.waiting _ _ _ _ .header (congrArg (· ++ [ReadOp.header]) hreads) hdone rfl trivial
    h.headerBuffer hframe, ⟨?_, hframe ▸ List.prefix_append _ _⟩, h.headerBuffer,
    h.payloadBuffer, ?_, ?_⟩
  · intro p hp
    rcases List.mem_append.mp hp with hp | hp
    · exact h.reads.frames p hp
    · rw [List.mem_singleton.mp hp]
      exact hsend
  · intro x hx
    rcases List.mem_append.mp hx with hx | hx
    · exact h.posted x hx
    · exact Packet.posts_isPosted x hx
  · intro hstop hcalm
    -- a stop was on its way before, or this packet asks for it
    have hwas : s.Stopping ∨ header.type = .disconnect := by
      rcases hstop with hs | ⟨x, hx, hs | hs | hs⟩
      · exact Or.inl (Or.inl hs)
      · rcases List.mem_append.mp hs with hs | hs
        · exact Or.inl (Or.inr ⟨x, hx, Or.inl hs⟩)
        · refine Or.inr ((@Packet.stop_mem_posts host ⟨header, payload⟩).mp ?_)
          have hposts := Packet.posts_isPosted x hs
          cases x <;> first | exact hs | cases hx | cases hposts
      · exact Or.inl (Or.inr ⟨x, hx, Or.inr (Or.inl hs)⟩)
      · cases hs
    refine Or.inl ?_
    rcases hwas with hwas | hdisc
    · rcases h.stopping hwas hcalm with ⟨p, hp, hpd⟩ | ⟨rest, hrest', hunframed⟩
      · exact ⟨p, List.mem_append_left _ hp, hpd⟩
      · -- a frame begins the rest after all
        refine absurd ?_ (hunframed _ hsend)
        rw [List.append_cancel_left (hrest'.symm.trans hrest),
          serializePacket_of_length host hlen, ← List.append_assoc]
        exact List.prefix_append _ _
    · exact ⟨_, List.mem_append_right _ (List.mem_singleton_self _), hdisc⟩

theorem resize_length (buffer : Bytes) (size : Nat) :
    (Session.resize buffer size).length = size := by
  rw [Session.resize, List.length_append, List.length_take, List.length_replicate]
  omega

/-- Waiting for the payload that an accepted header announces. -/
theorem Loop.awaits (h : Loop calm host stream s) (hreads : s.reads = [])
    (hdone : s.completions.filter Handler.isRead = []) {header : Header}
    (hmagic : header.magic = magicHeader) (hlimit : header.length.toNat ≤ maxPayloadSize)
    (hrest : stream = s.processed.flatMap (serializePacket host)
      ++ (wireHeader header ++ s.incoming)) :
    Loop calm host stream (({ s with running := none } : Session).doReadPayload header) where
  phase := @Phase.waiting _ _ _ _ (.payload header)
    (congrArg (· ++ [ReadOp.payload header]) hreads) hdone rfl ⟨hmagic, hlimit⟩
    (resize_length _ _) hrest
  reads := h.reads
  headerBuffer := h.headerBuffer
  payloadBuffer := Nat.le_trans (Nat.le_of_eq (resize_length _ _)) hlimit
  posted := h.posted
  stopping := by
    exact fun hs => h.stopping (idle_stopping hs)

/-- **READ HANDLERS** keep the loop. -/
theorem Loop.readHandler (h : Loop calm host stream s) {x : Handler} (hrunning : s.running = some x)
    (hread : x.isRead = true) :
    Loop calm host stream (({ s with running := none } : Session).execute host x) := by
  obtain ⟨hreads, hdone, hwhat⟩ := h.phase.of_running hrunning hread
  have hcase := execute_read host ({ s with running := none } : Session) hread
  generalize ({ s with running := none } : Session).execute host x = s' at hcase ⊢
  -- a completed header read has filled the header buffer
  have hheader : ∀ k, x = .headerRead false k → k = s.headerBuffer.length
      ∧ stream = s.processed.flatMap (serializePacket host) ++ (s.headerBuffer ++ s.incoming) := by
    rintro k rfl
    rcases hwhat with ⟨op, hx, -, hsize, hrest⟩ | ⟨op, k', hx, -⟩
    · cases op with
      | header =>
          have hk : k = headerSize := (Handler.headerRead.inj hx).2
          exact ⟨hk.trans hsize.symm, hrest⟩
      | payload header => cases hx
    · cases op <;> cases hx
  have hdecoded : ∀ {k header}, x = .headerRead false k →
      deserializeHeader host s.headerBuffer k {} = (true, header) →
      header.magic = magicHeader ∧ stream = s.processed.flatMap (serializePacket host)
        ++ (wireHeader header ++ s.incoming) := by
    intro k header hx hdec
    obtain ⟨rfl, hrest⟩ := hheader k hx
    obtain ⟨hmagic, htake⟩ := deserializeHeader_true host hdec
    rw [← h.headerBuffer, List.take_length] at htake
    exact ⟨hmagic, htake ▸ hrest⟩
  cases hcase with
  | failed op k =>
      -- a read that was filled reports no error
      rcases hwhat with ⟨op', hx, -⟩ | ⟨-, -, -, hhalts⟩
      · cases op <;> cases op' <;> cases hx
      · exact h.stops hreads hdone hhalts
  | malformed hdec =>
      obtain ⟨rfl, hrest⟩ := hheader _ rfl
      rw [h.headerBuffer] at hdec
      exact h.stops hreads hdone fun _ => Or.inr ⟨_, hrest, .of_malformed h.headerBuffer hdec⟩
  | oversize hdec hsize =>
      obtain ⟨-, hrest⟩ := hdecoded rfl hdec
      exact h.stops hreads hdone fun _ => Or.inr ⟨_, hrest, .of_oversize hsize⟩
  | announced hdec hsize hpos =>
      obtain ⟨hmagic, hrest⟩ := hdecoded rfl hdec
      exact h.awaits hreads hdone hmagic hsize hrest
  | empty hdec hzero =>
      obtain ⟨hmagic, hrest⟩ := hdecoded rfl hdec
      exact h.deliver hreads hdone hmagic (hzero ▸ Nat.zero_le _) hzero.symm hrest
  | complete header =>
      -- the payload buffer holds as much as the header announced
      rcases hwhat with ⟨op, hx, hop, hsize, hrest⟩ | ⟨op, k, hx, -⟩
      · cases op with
        | header => cases hx
        | payload header' =>
            obtain rfl := (Handler.payloadRead.inj hx).1
            exact h.deliver hreads hdone hop.1 hop.2 hsize hrest
      · cases op <;> cases hx

/-! ## The other handlers -/

/-- The strand has taken another handler off the queue. -/
theorem idle_side {x : Handler} (hrunning : s.running = some x) (hother : x.isRead = false) :
    ({ s with running := none } : Session).readSide = s.readSide := by
  have hnone : s.running.filter Handler.isRead = none := by
    rw [hrunning, Option.filter_some, hother]
    rfl
  rw [Session.readSide, Session.readSide, hnone]
  rfl

/-- **OTHER HANDLERS** stay off the read side. -/
theorem Loop.otherHandler (h : Loop calm host stream s) {x : Handler}
    (hrunning : s.running = some x) (hother : x.isRead = false) :
    let s' := ({ s with running := none } : Session).execute host x
    Loop calm host stream s' ∧ s'.readSide = s.readSide
      ∧ (s'.running = none ∨ s'.running = some .removeSession ∧ x ≠ .removeSession) := by
  have hside := idle_side hrunning hother
  have hidle : Loop calm host stream ({ s with running := none } : Session) :=
    h.quiet hside h.posted fun _ => idle_stopping
  have hstopping : x.stops = true → s.Stopping := fun hx => Or.inr ⟨x, hx, Or.inr (Or.inr hrunning)⟩
  have hcase := execute_other host ({ s with running := none } : Session) hother
  generalize ({ s with running := none } : Session).execute host x = t at hcase
  dsimp only
  cases hcase with
  | again => exact ⟨hidle, hside, Or.inl rfl⟩
  | closes =>
      refine ⟨h.quiet hside h.posted fun _ _ => hstopping rfl, hside, Or.inr ⟨rfl, ?_⟩⟩
      exact Handler.noConfusion
  | removes => exact ⟨hidle.quiet rfl h.posted fun _ => id, hside, Or.inl rfl⟩
  | sends => exact ⟨hidle.quiet rfl h.posted fun _ => id, hside, Or.inl rfl⟩
  | pops => exact ⟨hidle.quiet rfl h.posted fun _ => id, hside, Or.inl rfl⟩
  | writeFailed =>
      exact ⟨h.quiet hside (posted_concat h.posted rfl) fun _ _ => hstopping rfl, hside, Or.inl rfl⟩

/-! ## Steps -/

/-- The strand takes a handler whose read has completed. -/
theorem Loop.startRead (h : Loop calm host stream s) {before after : List Handler} {x : Handler}
    (hidle : s.running = none) (hdone : s.completions = before ++ x :: after)
    (hread : x.isRead = true) :
    Loop calm host stream { s with completions := before ++ after, running := some x } := by
  have hmem : x ∈ s.readSide.done := by
    refine List.mem_filter.mpr ⟨?_, hread⟩
    rw [hdone]
    exact List.mem_append_right _ List.mem_cons_self
  have hfilter : s.readSide.done
      = before.filter Handler.isRead ++ x :: after.filter Handler.isRead := by
    show s.completions.filter Handler.isRead = _
    rw [hdone, List.filter_append, List.filter_cons_of_pos hread]
  -- the handler moves from the queue to the strand
  have hmove : ∀ y, s.readSide.Completed y → x = y
      ∧ ({ s with completions := before ++ after, running := some x } : Session).readSide.Completed
        y := by
    rintro y ⟨hreads, ⟨hq, -⟩ | ⟨hq, -⟩⟩
    · rw [hfilter] at hq
      obtain ⟨hb, hcons⟩ := List.append_eq_singleton_iff.mp hq |>.resolve_right fun hno =>
        List.cons_ne_nil _ _ hno.2
      obtain ⟨rfl, ha⟩ := List.cons.inj hcons
      refine ⟨rfl, hreads, Or.inr ⟨?_, ?_⟩⟩
      · show (before ++ after).filter Handler.isRead = []
        rw [List.filter_append, hb, ha]
        rfl
      · show (some x).filter Handler.isRead = some x
        rw [Option.filter_some, if_pos hread]
    · rw [hq] at hmem
      cases hmem
  have hstop : ({ s with completions := before ++ after, running := some x } : Session).Stopping →
      s.Stopping := Or.imp_right fun ⟨y, hy, hpending⟩ =>
    ⟨y, hy, (Session.pending_startCompletion hidle hdone).mp hpending⟩
  refine ⟨?_, h.reads, h.headerBuffer, h.payloadBuffer, h.posted,
    fun hs => h.stopping (hstop hs)⟩
  cases h.phase with
  | waiting _ hnil =>
      rw [hnil] at hmem
      cases hmem
  | done hcomp hop hsize hrest =>
      exact @Phase.done _ _ _ _ _ (hmove _ hcomp).2 hop hsize hrest
  | failed hcomp hhalts => exact @Phase.failed _ _ _ _ _ _ (hmove _ hcomp).2 hhalts
  | ended _ hnil =>
      rw [hnil] at hmem
      cases hmem

/-- The strand takes another handler. -/
theorem startOther_side {completions posted : List Handler} {x : Handler}
    (hidle : s.running = none) (hother : x.isRead = false)
    (hsame : completions.filter Handler.isRead = s.completions.filter Handler.isRead) :
    ({ s with completions := completions, posted := posted, running := some x } : Session).readSide
      = s.readSide := by
  have hnone : (some x).filter Handler.isRead = none := by
    rw [Option.filter_some, hother]
    rfl
  rw [Session.readSide, Session.readSide, hidle, hsame, hnone]
  rfl

theorem completeWrite_side (rest : List WriteOp) (ec : Bool) :
    (s.completeWrite rest ec).readSide = s.readSide := by
  have hfilter : (s.completions ++ [Handler.written ec]).filter Handler.isRead
      = s.completions.filter Handler.isRead := by
    rw [List.filter_append]
    exact List.append_nil _
  show ({ s.readSide with done := (s.completions ++ [Handler.written ec]).filter Handler.isRead }
    : ReadSide) = s.readSide
  rw [hfilter]
  rfl

/-- **STEP**: every step keeps the loop; a calm loop needs an undisturbed one. -/
theorem Loop.step (h : Loop calm host stream s) {e : Event} (hstep : Session.Step host s e s')
    (hcalm : calm → Undisturbed e s) : Loop calm host stream s' := by
  cases hstep with
  | readCompletes hop _ hsize => exact h.readCompletes hop hsize
  | readFails hop hk _ =>
      refine h.readFails hop hk fun hc => Or.imp_right (fun hfew => ?_) (hcalm hc)
      exact hfew _ (by rw [hop]; exact List.mem_cons_self)
  | transmit => exact h.quiet rfl h.posted fun _ => id
  | writeCompletes =>
      refine h.quiet (completeWrite_side _ _) h.posted fun _ => ?_
      refine Or.imp_right fun ⟨x, hx, hpending⟩ => ⟨x, hx, ?_⟩
      exact Or.imp_right (Or.imp_left (mem_of_mem_concat Handler.stops rfl hx)) hpending
  | writeFails => exact h.quiet (completeWrite_side _ _) h.posted fun hc _ => Or.inl (hcalm hc)
  | @startPosted x rest hidle hposted =>
      have hmem : x ∈ s.posted := by
        rw [hposted]
        exact List.mem_cons_self
      have hposts := h.posted x hmem
      refine h.quiet (startOther_side hidle (Handler.isRead_of_isPosted hposts) rfl)
        (fun y hy => ?_) fun _ => ?_
      · exact h.posted y (by rw [hposted]; exact List.mem_cons_of_mem _ hy)
      · exact Or.imp_right fun ⟨y, hy, hpending⟩ =>
          ⟨y, hy, (Session.pending_startPosted hidle hposted).mp hpending⟩
  | @startCompletion before after x hidle hdone =>
      cases hread : x.isRead with
      | true => exact h.startRead hidle hdone hread
      | false =>
          refine h.quiet (startOther_side hidle hread ?_) h.posted fun _ => ?_
          · rw [hdone, List.filter_append, List.filter_append,
              List.filter_cons_of_neg (by rw [hread]; exact Bool.false_ne_true)]
          · exact Or.imp_right fun ⟨y, hy, hpending⟩ =>
              ⟨y, hy, (Session.pending_startCompletion hidle hdone).mp hpending⟩
  | @resume x hrunning =>
      cases hread : x.isRead with
      | true => exact h.readHandler hrunning hread
      | false => exact (h.otherHandler hrunning hread).1
  | requestStop =>
      exact h.quiet rfl (posted_concat h.posted rfl) fun hc => absurd (hcalm hc) id

end Loop

/-! ## Progress -/

/-- No read is outstanding and no read handler is queued or running. -/
structure Session.Idle (s : Session) : Prop where
  reads    : s.reads = []
  handlers : ∀ h : Handler, h.isRead = true → ¬ s.Pending h

/-- Every step of a run is undisturbed. -/
abbrev CalmRun (host : ByteOrder) : Session → List Event → Session → Prop :=
  Run (Guarded (Session.Step host) Undisturbed)

section Progress

variable {calm : Prop} {host : ByteOrder} {stream : Bytes} {s : Session}

theorem Loop.run (h : Loop calm host stream s) {es : List Event} {t : Session}
    (hrun : CalmRun host s es t) : Loop calm host stream t :=
  hrun.invariant (fun _ _ _ hstep hs => hs.step hstep.1 fun _ => hstep.2) h

/-- The strand finishes a handler that is not a read handler. -/
theorem Loop.settle (h : Loop calm host stream s)
    (hhandling : s.running.filter Handler.isRead = none) :
    ∃ es t, CalmRun host s es t ∧ t.running = none ∧ t.readSide = s.readSide := by
  have hother : ∀ x, s.running = some x → x.isRead = false := by
    intro x hx
    rw [hx, Option.filter_some] at hhandling
    cases hread : x.isRead with
    | false => rfl
    | true =>
        rw [hread] at hhandling
        cases hhandling
  cases hrunning : s.running with
  | none => exact ⟨[], s, .nil, hrunning, rfl⟩
  | some x =>
      obtain ⟨hloop, hside, hnext⟩ := h.otherHandler hrunning (hother x hrunning)
      have hfirst : CalmRun host s [.resume] _ := .single ⟨.resume hrunning, trivial⟩
      rcases hnext with hnone | ⟨hremove, -⟩
      · exact ⟨_, _, hfirst, hnone, hside⟩
      · -- a stop handler has a second part
        obtain ⟨-, hside', hnext'⟩ := hloop.otherHandler hremove rfl
        refine ⟨_, _, hfirst.append (.single ⟨.resume hremove, trivial⟩), ?_, hside'.trans hside⟩
        exact hnext'.resolve_right fun hno => hno.2 rfl

/-- The handler of a completed read gets to run. -/
theorem Loop.reaches (h : Loop calm host stream s) {x : Handler}
    (hcomp : s.readSide.Completed x) :
    ∃ es t, CalmRun host s es t ∧ t.running = some x ∧ t.reads = [] ∧ t.incoming = s.incoming := by
  obtain ⟨hreads, ⟨hdone, hhandling⟩ | ⟨-, hhandling⟩⟩ := hcomp
  · obtain ⟨es, t, hrun, hidle, hside⟩ := h.settle hhandling
    have hmem : x ∈ t.completions := by
      have hmem : x ∈ t.readSide.done := by
        rw [hside, hdone]
        exact List.mem_singleton_self _
      exact (List.mem_filter.mp hmem).1
    obtain ⟨before, after, hsplit⟩ := List.append_of_mem hmem
    refine ⟨_, _, hrun.append (.single ⟨.startCompletion hidle hsplit, trivial⟩), rfl, ?_, ?_⟩
    · exact (congrArg ReadSide.reads hside).trans hreads
    · exact congrArg ReadSide.incoming hside
  · obtain ⟨y, hy, hyx⟩ : ∃ y, s.running = some y ∧ y = x := by
      cases hrunning : s.running with
      | none =>
          rw [Session.readSide, hrunning] at hhandling
          cases hhandling
      | some y =>
          refine ⟨y, rfl, ?_⟩
          rw [Session.readSide, hrunning, Option.filter_some] at hhandling
          split at hhandling
          · exact Option.some.inj hhandling
          · cases hhandling
    exact ⟨[], s, .nil, hyx ▸ hy, hreads, rfl⟩

theorem Loop.idle (h : Loop calm host stream s) (hreads : s.reads = [])
    (hdone : s.completions.filter Handler.isRead = [])
    (hhandling : s.running.filter Handler.isRead = none) : s.Idle where
  reads := hreads
  handlers := by
    rintro x hread (hx | hx | hx)
    · rw [Handler.isRead_of_isPosted (h.posted x hx)] at hread
      cases hread
    · have hmem : x ∈ s.completions.filter Handler.isRead := List.mem_filter.mpr ⟨hx, hread⟩
      rw [hdone] at hmem
      cases hmem
    · rw [hx, Option.filter_some, if_pos hread] at hhandling
      cases hhandling

/-- What the read loop has left to do: a header and its payload take two reads. -/
def ReadOp.weight (incoming : Nat) : ReadOp → Nat
  | .header => 2 * incoming
  | .payload _ => 2 * incoming + 1

/-- A header may be followed by a payload, a payload only by a header. -/
def ReadOp.next (incoming : Nat) : ReadOp → Nat
  | .header => 2 * incoming + 1
  | .payload _ => 2 * incoming

/-- The read loop is over, or waits with at most this weight. -/
def Session.Within (s : Session) (n : Nat) : Prop :=
  s.Idle ∨ ∃ op : ReadOp, s.reads = [op] ∧ op.weight s.incoming.length ≤ n

/-- After a completed read the loop is over or waits for the next one. -/
theorem Loop.handles (h : Loop calm host stream s) {op : ReadOp} {ec : Bool} {k : Nat}
    (hcomp : s.readSide.Completed (op.handler ec k)) :
    ∃ es t, CalmRun host s es t ∧ t.Within (op.next s.incoming.length) ∧ (ec = true → t.Idle) := by
  obtain ⟨es, t, hrun, hrunning, hreads, hincoming⟩ := h.reaches hcomp
  have hloop := h.run hrun
  have hread := op.handler_isRead ec k
  have hnext := hloop.readHandler hrunning hread
  obtain ⟨-, hdone, -⟩ := hloop.phase.of_running hrunning hread
  have hcase := execute_read host ({ t with running := none } : Session) hread
  refine ⟨_, _, hrun.append (.single ⟨.resume hrunning, trivial⟩), ?_⟩
  rw [← hincoming]
  generalize hx : op.handler ec k = x at hnext hcase ⊢
  generalize ({ t with running := none } : Session).execute host x = u at hnext hcase ⊢
  cases hcase with
  | failed =>
      have hidle := hnext.idle hreads hdone rfl
      exact ⟨Or.inl hidle, fun _ => hidle⟩
  | malformed =>
      have hidle := hnext.idle hreads hdone rfl
      exact ⟨Or.inl hidle, fun _ => hidle⟩
  | oversize =>
      have hidle := hnext.idle hreads hdone rfl
      exact ⟨Or.inl hidle, fun _ => hidle⟩
  | announced =>
      cases op with
      | header =>
          refine ⟨Or.inr ⟨_, congrArg (· ++ [ReadOp.payload _]) hreads, Nat.le_refl _⟩, ?_⟩
          rintro rfl
          cases hx
      | payload header => cases hx
  | empty =>
      cases op with
      | header =>
          refine ⟨Or.inr ⟨_, congrArg (· ++ [ReadOp.header]) hreads, Nat.le_succ _⟩, ?_⟩
          rintro rfl
          cases hx
      | payload header => cases hx
  | complete =>
      cases op with
      | header => cases hx
      | payload header =>
          refine ⟨Or.inr ⟨_, congrArg (· ++ [ReadOp.header]) hreads, Nat.le_refl _⟩, ?_⟩
          rintro rfl
          cases hx

/-- An outstanding read completes, with an error if too few bytes arrive or the socket
    is closed. -/
theorem Loop.completes (h : Loop calm host stream s) {op : ReadOp} (hreads : s.reads = [op]) :
    ∃ e t ec k, Guarded (Session.Step host) Undisturbed s e t
      ∧ t.readSide.Completed (op.handler ec k)
      ∧ (ec = true ∨ op.next t.incoming.length < op.weight s.incoming.length) := by
  obtain ⟨-, hdone, hhandling, -, -, -⟩ := h.phase.of_reads hreads
  by_cases hready : s.socketOpen = true ∧ op.size ≤ s.incoming.length
  · obtain ⟨hopen, hsize⟩ := hready
    obtain ⟨hreads', hdone', hhandling', hincoming, -, -⟩ :=
      completeRead_side op [] false op.size hdone hhandling
    refine ⟨_, _, false, op.size, ⟨.readCompletes hreads hopen hsize, trivial⟩,
      ⟨hreads', Or.inl ⟨hdone', hhandling'⟩⟩, Or.inr ?_⟩
    have hlen : (s.completeRead op [] false op.size).incoming.length
        = s.incoming.length - op.size := by
      rw [← List.length_drop]
      exact congrArg List.length hincoming
    rw [hlen]
    cases op with
    | header =>
        simp only [ReadOp.next, ReadOp.weight, ReadOp.size, headerSize] at hsize ⊢
        omega
    | payload header =>
        simp only [ReadOp.next, ReadOp.weight]
        omega
  · obtain ⟨hreads', hdone', hhandling', -, -, -⟩ :=
      completeRead_side op [] true 0 hdone hhandling
    refine ⟨_, _, true, 0, ⟨.readFails hreads (Nat.zero_le _) (Nat.zero_le _), ?_⟩,
      ⟨hreads', Or.inl ⟨hdone', hhandling'⟩⟩, Or.inl rfl⟩
    by_cases hopen : s.socketOpen = true
    · refine Or.inr fun op' hop' => ?_
      rw [hreads, List.mem_singleton] at hop'
      rw [hop']
      exact Nat.lt_of_not_le fun hsize => hready ⟨hopen, hsize⟩
    · exact Or.inl (Bool.eq_false_iff.mpr hopen)

/-- A waiting read loop comes to an end: each round takes from the stream. -/
theorem Loop.waits (n : Nat) (h : Loop calm host stream s) (hwithin : s.Within n) :
    ∃ es t, CalmRun host s es t ∧ t.Idle := by
  induction n using Nat.strongRecOn generalizing s with
  | ind n ih =>
      rcases hwithin with hidle | ⟨op, hreads, hweight⟩
      · exact ⟨[], s, .nil, hidle⟩
      · obtain ⟨e, t, ec, k, hstep, hcomp, hless⟩ := h.completes hreads
        have hloop := h.step hstep.1 fun _ => hstep.2
        obtain ⟨es, u, hrun, hnext, hfail⟩ := hloop.handles hcomp
        have htwo : CalmRun host s (e :: es) u := .cons hstep hrun
        rcases hless with hec | hless
        · exact ⟨_, u, htwo, hfail hec⟩
        · obtain ⟨es', v, hrest, hidle⟩ := ih _ (Nat.lt_of_lt_of_le hless hweight)
            (h.run htwo) hnext
          exact ⟨_, v, htwo.append hrest, hidle⟩

/-- **PROGRESS**: from every state the read loop can come to an end. -/
theorem Loop.ends (h : Loop calm host stream s) : ∃ es t, CalmRun host s es t ∧ t.Idle := by
  have hdone : ∀ {op : ReadOp} {ec k}, s.readSide.Completed (op.handler ec k) →
      ∃ es t, CalmRun host s es t ∧ t.Idle := by
    intro op ec k hcomp
    obtain ⟨es, t, hrun, hwithin, -⟩ := h.handles hcomp
    obtain ⟨es', u, hrest, hidle⟩ := (h.run hrun).waits _ hwithin
    exact ⟨_, u, hrun.append hrest, hidle⟩
  cases h.phase with
  | waiting hreads => exact h.waits _ (Or.inr ⟨_, hreads, Nat.le_refl _⟩)
  | done hcomp => exact hdone hcomp
  | failed hcomp => exact hdone hcomp
  | ended hreads hnone hhandling => exact ⟨[], s, .nil, h.idle hreads hnone hhandling⟩

end Progress

/-! ## Delivery -/

/-- The longest list of frames that a stream begins with. -/
abbrev LongestFrames (host : ByteOrder) (stream : Bytes) (ps : List Packet) : Prop :=
  Longest Packet.Sendable (serializePacket host) stream ps

/-- What a session was handed, against its stream. -/
structure Delivered (host : ByteOrder) (stream : Bytes) (s : Session) : Prop where
  /-- Nothing but those frames, and nothing at or after what is not a frame. -/
  framed : ∀ ps, LongestFrames host stream ps →
    s.processed.map Packet.frame <+: ps.map Packet.frame
  /-- In order, and no more than the stream says. -/
  ordered : ∀ ps, LongestFrames host stream ps →
    upToDisconnect (s.processed.map Packet.frame) <+: upToDisconnect (ps.map Packet.frame)
  /-- All of it, when the read loop has come to its end. -/
  complete : s.Idle → ∀ ps, LongestFrames host stream ps →
    upToDisconnect (s.processed.map Packet.frame) = upToDisconnect (ps.map Packet.frame)
  /-- The read loop can come to its end. -/
  ends : ∃ es t, CalmRun host s es t ∧ t.Idle
  /-- A stream of frames without DISCONNECT is delivered exactly. -/
  whole : s.Idle → ∀ ps : List Packet, (∀ p ∈ ps, p.Sendable ∧ p.header.type ≠ .disconnect) →
    stream = ps.flatMap (serializePacket host) →
    s.processed.map Packet.frame = ps.map Packet.frame
  bounded : s.payloadBuffer.length ≤ maxPayloadSize

section Delivery

variable {host : ByteOrder} {stream : Bytes} {s : Session} {ps : List Packet}

theorem Loop.opened (calm : Prop) (host : ByteOrder) (stream : Bytes) :
    Loop calm host stream (Session.opened stream) where
  phase := @Phase.waiting _ _ _ _ .header rfl rfl rfl trivial rfl rfl
  reads := .nil
  headerBuffer := rfl
  payloadBuffer := Nat.zero_le _
  posted := fun _ hx => absurd hx List.not_mem_nil
  stopping := by
    rintro (hs | ⟨x, -, hs | hs | hs⟩)
    · cases hs
    · cases hs
    · cases hs
    · cases hs

/-- A list of frames without DISCONNECT is compared as a whole. -/
theorem upToDisconnect_self {fs : List (MessageType × Bytes)} (h : ∀ f ∈ fs, f.1 ≠ .disconnect) :
    upToDisconnect fs = fs := by
  induction fs with
  | nil => rfl
  | cons f fs ih =>
      rw [upToDisconnect, if_neg (h f List.mem_cons_self),
        ih fun g hg => h g (List.mem_cons_of_mem _ hg)]

/-- A DISCONNECT survives the cut. -/
theorem disconnect_mem_upTo {fs : List (MessageType × Bytes)} (h : ∃ f ∈ fs, f.1 = .disconnect) :
    ∃ f ∈ upToDisconnect fs, f.1 = .disconnect := by
  induction fs with
  | nil => exact absurd h.choose_spec.1 List.not_mem_nil
  | cons f fs ih =>
      rw [upToDisconnect]
      by_cases hf : f.1 = .disconnect
      · rw [if_pos hf]
        exact ⟨f, List.mem_singleton_self _, hf⟩
      · obtain ⟨g, hg, hgd⟩ := h
        rcases List.mem_cons.mp hg with rfl | hg
        · exact absurd hgd hf
        · obtain ⟨x, hx, hxd⟩ := ih ⟨g, hg, hgd⟩
          rw [if_neg hf]
          exact ⟨x, List.mem_cons_of_mem _ hx, hxd⟩

theorem Loop.ordered {calm : Prop} (h : Loop calm host stream s)
    (hps : LongestFrames host stream ps) :
    s.processed.map Packet.frame <+: ps.map Packet.frame :=
  frames_of_serializePacket host (hps.reads (packetCode host) h.reads)

/-- Nothing is longer than a whole stream of frames. -/
theorem longest_of_frames (hps : ∀ p ∈ ps, p.Sendable) :
    LongestFrames host (ps.flatMap (serializePacket host)) ps := by
  have hnil : Unframed host [] := .of_short (by decide)
  have hlong := (packetCode host).longest_of_stuck hps hnil
  rw [List.append_nil] at hlong
  exact hlong

/-- At its end the read loop has delivered everything up to the first DISCONNECT. -/
theorem Loop.complete (h : Loop True host stream s) (hidle : s.Idle)
    (hps : LongestFrames host stream ps) :
    upToDisconnect (s.processed.map Packet.frame) = upToDisconnect (ps.map Packet.frame) := by
  have hhalts : Halts True host stream s.processed := by
    have hno : ∀ {x : Handler}, x.isRead = true → ¬ s.readSide.Completed x := by
      rintro x hread ⟨-, ⟨hdone, -⟩ | ⟨-, hhandling⟩⟩
      · have hmem : x ∈ s.completions.filter Handler.isRead := by
          rw [show s.completions.filter Handler.isRead = [x] from hdone]
          exact List.mem_singleton_self _
        exact hidle.handlers x hread (Or.inr (Or.inl (List.mem_filter.mp hmem).1))
      · have hx : s.running.filter Handler.isRead = some x := hhandling
        exact hidle.handlers x hread (Or.inr (Or.inr (Option.eq_some_of_filter_eq_some hx)))
    cases h.phase with
    | waiting hreads => cases hidle.reads.symm.trans hreads
    | done hcomp => exact absurd hcomp (hno (ReadOp.handler_isRead _ _ _))
    | failed hcomp => exact absurd hcomp (hno (ReadOp.handler_isRead _ _ _))
    | ended _ _ _ hhalts => exact hhalts
  rcases hhalts trivial with ⟨p, hp, hdisc⟩ | ⟨rest, hrest, hunframed⟩
  · obtain ⟨more, hmore⟩ := h.ordered hps
    rw [← hmore]
    exact (upToDisconnect_append ⟨p.frame, List.mem_map_of_mem hp, hdisc⟩ more).symm
  · have hlongest : LongestFrames host stream s.processed := by
      rw [hrest]
      exact (packetCode host).longest_of_stuck h.reads.frames hunframed
    rw [frames_eq host (hlongest.unique (packetCode host) hps)]

theorem Loop.delivered (h : Loop True host stream s) : Delivered host stream s where
  framed := fun _ hps => h.ordered hps
  ordered := fun ps hps => upToDisconnect_prefix (h.ordered hps)
  complete := fun hidle ps hps => h.complete hidle hps
  ends := h.ends
  whole := fun hidle ps hps hstream => by
    have hlongest : LongestFrames host stream ps := by
      rw [hstream]
      exact longest_of_frames fun p hp => (hps p hp).1
    have hnone : ∀ f ∈ ps.map Packet.frame, f.1 ≠ .disconnect := by
      intro f hf
      obtain ⟨p, hp, rfl⟩ := List.mem_map.mp hf
      exact (hps p hp).2
    have hcomplete := h.complete hidle hlongest
    rw [upToDisconnect_self hnone] at hcomplete
    rw [← hcomplete]
    refine (upToDisconnect_self fun f hf hdisc => ?_).symm
    obtain ⟨g, hg, hgd⟩ := disconnect_mem_upTo ⟨f, hf, hdisc⟩
    rw [hcomplete] at hg
    exact hnone g hg hgd
  bounded := h.payloadBuffer

/-- **DELIVERY**: every stream begins with a longest list of frames, which is unique,
    and a session that nothing else stops is handed its frames, in every order in
    which reads, writes and handlers can happen. -/
theorem opened_delivers (host : ByteOrder) (stream : Bytes) :
    (∃ ps, LongestFrames host stream ps)
      ∧ (∀ ps ps', LongestFrames host stream ps → LongestFrames host stream ps' →
        ps.map Packet.frame = ps'.map Packet.frame)
      ∧ ∀ es s, CalmRun host (Session.opened stream) es s → Delivered host stream s := by
  refine ⟨(packetCode host).exists_longest stream, ?_, ?_⟩
  · intro ps ps' hps hps'
    exact frames_eq host (hps.unique (packetCode host) hps')
  · intro es s hrun
    exact ((Loop.opened True host stream).run hrun).delivered

end Delivery

end AsyncNet
