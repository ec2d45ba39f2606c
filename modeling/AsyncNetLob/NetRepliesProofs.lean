import AsyncNetLob.NetFramingProofs
import AsyncNetLob.NetSessionProofs

/-! # Replies are whole frames in request order

    `writeQueue_` is never empty while a write is outstanding, while its handler is
    queued or running, and after a failed write; it is empty otherwise (`WritePhase`).
    So at most one write is outstanding, a failed write is the last one, and what is
    on the socket is the frames popped so far and a part of the front.

    `Replies` ties the queue to the requests: the popped frames, the queue and the
    frames still to be pushed are the replies to the processed packets, in order,
    until the session is stopped and drops what is not pushed.  A reply is stated as
    its bytes (`Packet.replies`), which are what the encoder gives on either host
    (`Packet.posts_data`). -/

namespace AsyncNet

open Protocol Transition

/-- The handler of a completed write. -/
def Handler.isWritten : Handler → Bool
  | .written _ => true
  | _ => false

@[simp] theorem ReadOp.handler_isWritten (op : ReadOp) (ec : Bool) (k : Nat) :
    (op.handler ec k).isWritten = false := by
  cases op <;> rfl

theorem Handler.isWritten_of_isPosted {h : Handler} (hp : h.isPosted = true) :
    h.isWritten = false := by
  cases h <;> first | rfl | cases hp

/-- The frame that a posted send handler carries. -/
def Handler.data : Handler → List Bytes
  | .send data => [data]
  | _ => []

theorem Handler.data_of_not_posted {h : Handler} (hp : h.isPosted = false) : h.data = [] := by
  cases h <;> first | rfl | cases hp

/-! ## The replies, byte for byte -/

/-- The length field of a frame: four bytes, the most significant first. -/
def lengthField (payload : Bytes) : Bytes :=
  [UInt8.ofNat (payload.length / 2 ^ 24), UInt8.ofNat (payload.length / 2 ^ 16),
    UInt8.ofNat (payload.length / 2 ^ 8), UInt8.ofNat payload.length]

/-- "AN", type 2, no payload. -/
def pongFrame : Bytes := [0x41, 0x4E, 0x00, 0x02, 0x00, 0x00, 0x00, 0x00]

/-- "AN", type 4, the length of the payload, the payload. -/
def echoFrame (payload : Bytes) : Bytes :=
  [0x41, 0x4E, 0x00, 0x04] ++ lengthField payload ++ payload

/-- The frames that answer a packet: a PONG for a PING, the same payload for an
    ECHO_REQUEST, nothing for other types. -/
def Packet.replies (p : Packet) : List Bytes :=
  if p.header.type = .ping then [pongFrame]
  else if p.header.type = .echoRequest then [echoFrame p.payload]
  else []

example : Packet.replies ⟨⟨magicHeader, .echoRequest, 2⟩, [0x68, 0x69]⟩
    = [[0x41, 0x4E, 0, 4, 0, 0, 0, 2, 0x68, 0x69]] := by decide

/-- The PONG that is built is these bytes, on either host. -/
theorem serializePacket_pong (host : ByteOrder) :
    serializePacket host createPongPacket = pongFrame := by
  rw [serializePacket_eq]
  rfl

/-- The length field as the narrowed length has it. -/
theorem lengthField_eq (payload : Bytes) :
    ByteOrder.big.bytes32 (UInt32.ofNat payload.length) = lengthField payload := by
  have hbyte : ∀ k ≤ 24, UInt8.ofNat ((UInt32.ofNat payload.length).toNat / 2 ^ k)
      = UInt8.ofNat (payload.length / 2 ^ k) := by
    intro k hk
    refine UInt8.toNat_inj.mp ?_
    rw [UInt8.toNat_ofNat', UInt8.toNat_ofNat', UInt32.toNat_ofNat']
    -- the bits that are cut off are above the byte
    have hsplit : 2 ^ 32 = 2 ^ k * 2 ^ (32 - k) := by
      rw [← Nat.pow_add, Nat.add_sub_cancel' (Nat.le_trans hk (by decide))]
    have hdvd : 2 ^ 8 ∣ 2 ^ (32 - k) := Nat.pow_dvd_pow 2 (by omega)
    rw [hsplit, Nat.mod_mul_right_div_self, Nat.mod_mod_of_dvd _ hdvd]
  have hlow := hbyte 0 (by decide)
  rw [Nat.pow_zero, Nat.div_one, Nat.div_one] at hlow
  rw [lengthField, ← hbyte 24 (by decide), ← hbyte 16 (by decide), ← hbyte 8 (by decide), ← hlow]
  rfl

/-- The ECHO_RESPONSE that is built is these bytes, on either host. -/
theorem serializePacket_echoResponse (host : ByteOrder) (payload : Bytes) :
    serializePacket host (createEchoResponse payload) = echoFrame payload := by
  have hstart : ByteOrder.big.bytes16 magicHeader
      ++ ByteOrder.big.bytes16 MessageType.echoResponse.code = [0x41, 0x4E, 0x00, 0x04] := by decide
  rw [serializePacket_eq, echoFrame, ← lengthField_eq, ← hstart]
  rfl

/-- **THE SEND HANDLERS** that a packet posts carry the replies to it. -/
theorem Packet.posts_data (host : ByteOrder) (p : Packet) :
    (p.posts host).flatMap Handler.data = p.replies := by
  rw [Packet.posts, Packet.replies, serializePacket_pong, serializePacket_echoResponse]
  split
  · rfl
  · split
    · rfl
    · split <;> rfl

/-! ## The write queue -/

/-- What the writing of replies works on. -/
structure WriteSide where
  writeQueue   : List Bytes
  outgoing     : Bytes
  writes       : List WriteOp
  failedWrites : Nat
  done         : List Handler
  handling     : Option Handler

def Session.writeSide (s : Session) : WriteSide where
  writeQueue := s.writeQueue
  outgoing := s.outgoing
  writes := s.writes
  failedWrites := s.failedWrites
  done := s.completions.filter Handler.isWritten
  handling := s.running.filter Handler.isWritten

/-- What becomes of the front of the queue, after the frames `popped`. -/
inductive WritePhase (popped : List Bytes) (v : WriteSide) : Prop where
  | idle (hqueue : v.writeQueue = []) (hwrites : v.writes = []) (hdone : v.done = [])
      (hhandling : v.handling = none) (hfailed : v.failedWrites = 0)
      (hout : v.outgoing = popped.flatten)
  | writing {op : WriteOp} {front : Bytes} {queue : List Bytes}
      (hqueue : v.writeQueue = front :: queue)
      (hwrites : v.writes = [op]) (hdone : v.done = []) (hhandling : v.handling = none)
      (hfailed : v.failedWrites = 0) (hsize : op.size = front.length)
      (hout : v.outgoing = popped.flatten ++ front.take op.sent)
  | written {front : Bytes} {queue : List Bytes} (hqueue : v.writeQueue = front :: queue)
      (hwrites : v.writes = [])
      (hplace : v.done = [.written false] ∧ v.handling = none
        ∨ v.done = [] ∧ v.handling = some (.written false))
      (hfailed : v.failedWrites = 0) (hout : v.outgoing = popped.flatten ++ front)
  | failed {front : Bytes} {queue : List Bytes} {k : Nat} (hqueue : v.writeQueue = front :: queue)
      (hwrites : v.writes = []) (hdone : ∀ h ∈ v.done, h = .written true)
      (hhandling : ∀ h ∈ v.handling, h = .written true) (hfailed : v.failedWrites ≠ 0)
      (hout : v.outgoing = popped.flatten ++ front.take k)

/-- The frames still to be pushed, in posting order. -/
def Session.sends (s : Session) : List Bytes :=
  (s.running.toList ++ s.posted).flatMap Handler.data

/-- The invariant of the writing of replies. -/
structure Replies (s : Session) (popped later : List Bytes) : Prop where
  phase       : WritePhase popped s.writeSide
  replies     : s.processed.flatMap Packet.replies = popped ++ (s.writeQueue ++ later)
  later       : s.isStopped = false → later = s.sends
  completions : ∀ h ∈ s.completions, h.isPosted = false
  posted      : ∀ h ∈ s.posted, h.isPosted = true

section Replies

variable {host : ByteOrder} {s s' : Session} {popped later : List Bytes}

theorem Replies.opened (stream : Bytes) :
    Replies (Session.opened stream) [] [] where
  phase := .idle rfl rfl rfl rfl rfl rfl
  replies := rfl
  later := fun _ => rfl
  completions := fun _ hx => absurd hx List.not_mem_nil
  posted := fun _ hx => absurd hx List.not_mem_nil

/-- A step that neither writes nor processes a packet. -/
theorem Replies.quiet (h : Replies s popped later) (hside : s'.writeSide = s.writeSide)
    (hprocessed : s'.processed = s.processed)
    (hlater : s'.isStopped = false → s.isStopped = false ∧ s'.sends = s.sends)
    (hdone : ∀ x ∈ s'.completions, x.isPosted = false)
    (hposted : ∀ x ∈ s'.posted, x.isPosted = true) : Replies s' popped later where
  phase := hside ▸ h.phase
  replies := by
    have hqueue : s'.writeQueue = s.writeQueue := congrArg WriteSide.writeQueue hside
    rw [hprocessed, hqueue]
    exact h.replies
  later := fun hs => by
    obtain ⟨hrunning, hsends⟩ := hlater hs
    rw [hsends]
    exact h.later hrunning
  completions := hdone
  posted := hposted

/-! ## Writes -/

/-- An outstanding write is the only one, and it writes the front of the queue. -/
theorem WritePhase.of_writes (h : WritePhase popped s.writeSide) {op : WriteOp}
    {rest : List WriteOp} (hop : s.writes = op :: rest) :
    ∃ front queue, s.writeQueue = front :: queue ∧ rest = []
      ∧ s.completions.filter Handler.isWritten = [] ∧ s.running.filter Handler.isWritten = none
      ∧ s.failedWrites = 0 ∧ op.size = front.length
      ∧ s.outgoing = popped.flatten ++ front.take op.sent := by
  have hwrites : s.writeSide.writes = op :: rest := hop
  cases h with
  | idle _ hnil => cases hwrites.symm.trans hnil
  | @writing _ front queue hqueue hwrites' hdone hhandling hfailed hsize hout =>
      obtain ⟨rfl, rfl⟩ := List.cons.inj (hwrites.symm.trans hwrites')
      exact ⟨front, queue, hqueue, rfl, hdone, hhandling, hfailed, hsize, hout⟩
  | written _ hnil => cases hwrites.symm.trans hnil
  | failed _ hnil => cases hwrites.symm.trans hnil

/-- A write transmits the next bytes of the front. -/
theorem Replies.transmit (h : Replies s popped later) {op : WriteOp} {rest : List WriteOp}
    {front : Bytes} {k : Nat} (hop : s.writes = op :: rest)
    (hfront : s.writeQueue.head? = some front) :
    Replies (s.transmit op rest front k) popped later where
  phase := by
    obtain ⟨front', queue, hqueue, rfl, hdone, hhandling, hfailed, hsize, hout⟩ :=
      h.phase.of_writes hop
    rw [hqueue, List.head?_cons] at hfront
    obtain rfl := Option.some.inj hfront
    refine @WritePhase.writing _ _ ⟨op.size, op.sent + k⟩ front' queue hqueue rfl hdone hhandling
      hfailed hsize ?_
    show s.outgoing ++ (front'.drop op.sent).take k = _
    rw [hout, List.append_assoc, ← List.take_add]
  replies := h.replies
  later := h.later
  completions := h.completions
  posted := h.posted

/-- A write completes, with all of its buffer sent, or fails. -/
theorem Replies.completeWrite (h : Replies s popped later) {op : WriteOp}
    {rest : List WriteOp} {ec : Bool} (hop : s.writes = op :: rest)
    (hsent : ec = false → op.sent = op.size) :
    Replies (s.completeWrite rest ec) popped later where
  phase := by
    obtain ⟨front, queue, hqueue, rfl, hdone, hhandling, hfailed, hsize, hout⟩ :=
      h.phase.of_writes hop
    have hdone' : (s.completions ++ [Handler.written ec]).filter Handler.isWritten
        = [.written ec] := by
      rw [List.filter_append, hdone]
      rfl
    cases ec with
    | false =>
        refine @WritePhase.written _ _ front queue hqueue rfl (Or.inl ⟨hdone', hhandling⟩)
          hfailed ?_
        rw [hsent rfl, hsize, List.take_length] at hout
        exact hout
    | true =>
        refine @WritePhase.failed _ _ front queue op.sent hqueue rfl ?_ ?_ (Nat.succ_ne_zero _) hout
        · intro x hx
          have hx' : x ∈ (s.completions ++ [Handler.written true]).filter Handler.isWritten := hx
          rw [hdone', List.mem_singleton] at hx'
          exact hx'
        · intro x hx
          have hx' : s.running.filter Handler.isWritten = some x := hx
          rw [hhandling] at hx'
          cases hx'
  replies := h.replies
  later := h.later
  completions := by
    intro x hx
    rcases List.mem_append.mp hx with hx | hx
    · exact h.completions x hx
    · rw [List.mem_singleton.mp hx]
      rfl
  posted := h.posted

/-- A completing read is not seen. -/
theorem Replies.completeRead (h : Replies s popped later) (op : ReadOp) (rest : List ReadOp)
    (ec : Bool) (k : Nat) : Replies (s.completeRead op rest ec k) popped later := by
  have hfilter : (s.completions ++ [op.handler ec k]).filter Handler.isWritten
      = s.completions.filter Handler.isWritten := by
    rw [List.filter_append, List.filter_cons_of_neg (by simp)]
    exact List.append_nil _
  have hmem : ∀ x ∈ s.completions ++ [op.handler ec k], x.isPosted = false := by
    intro x hx
    rcases List.mem_append.mp hx with hx | hx
    · exact h.completions x hx
    · rw [List.mem_singleton.mp hx]
      cases op <;> rfl
  have hside : ({ s.writeSide with
      done := (s.completions ++ [op.handler ec k]).filter Handler.isWritten } : WriteSide)
      = s.writeSide := by
    rw [hfilter]
    rfl
  cases op with
  | header => exact h.quiet hside rfl (fun hs => ⟨hs, rfl⟩) hmem h.posted
  | payload header => exact h.quiet hside rfl (fun hs => ⟨hs, rfl⟩) hmem h.posted

/-! ## The strand -/

theorem Replies.startPosted (h : Replies s popped later) {x : Handler} {rest : List Handler}
    (hidle : s.running = none) (hposted : s.posted = x :: rest) :
    Replies { s with posted := rest, running := some x } popped later := by
  have hx : x.isPosted = true := h.posted x (by rw [hposted]; exact List.mem_cons_self)
  have hnone : (some x).filter Handler.isWritten = none := by
    rw [Option.filter_some, Handler.isWritten_of_isPosted hx]
    rfl
  refine h.quiet ?_ rfl (fun hs => ⟨hs, ?_⟩) h.completions fun y hy => ?_
  · rw [Session.writeSide, Session.writeSide, hidle, hnone]
    rfl
  · rw [Session.sends, Session.sends, hidle, hposted]
    rfl
  · exact h.posted y (by rw [hposted]; exact List.mem_cons_of_mem _ hy)

theorem Replies.startCompletion (h : Replies s popped later) {before after : List Handler}
    {x : Handler} (hidle : s.running = none) (hdone : s.completions = before ++ x :: after) :
    Replies { s with completions := before ++ after, running := some x } popped later := by
  have hmem : ∀ y ∈ before ++ after, y ∈ s.completions := by
    intro y hy
    rw [hdone]
    rcases List.mem_append.mp hy with hy | hy
    · exact List.mem_append_left _ hy
    · exact List.mem_append_right _ (List.mem_cons_of_mem _ hy)
  have hx : x.isPosted = false :=
    h.completions x (by rw [hdone]; exact List.mem_append_right _ List.mem_cons_self)
  have hsends : ({ s with completions := before ++ after, running := some x } : Session).sends
      = s.sends := by
    rw [Session.sends, Session.sends, hidle]
    show x.data ++ _ = _
    rw [Handler.data_of_not_posted hx]
    rfl
  have hcompletions : ∀ y ∈ before ++ after, y.isPosted = false :=
    fun y hy => h.completions y (hmem y hy)
  cases hwritten : x.isWritten with
  | false =>
      refine h.quiet ?_ rfl (fun hs => ⟨hs, hsends⟩) hcompletions h.posted
      have hnone : (some x).filter Handler.isWritten = none := by
        rw [Option.filter_some, hwritten]
        rfl
      rw [Session.writeSide, Session.writeSide, hidle, hnone, hdone, List.filter_append,
        List.filter_append, List.filter_cons_of_neg (by rw [hwritten]; exact Bool.false_ne_true)]
      rfl
  | true =>
      refine ⟨?_, h.replies, fun hs => (h.later hs).trans hsends.symm, hcompletions, h.posted⟩
      have hsome : (some x).filter Handler.isWritten = some x := by
        rw [Option.filter_some, if_pos hwritten]
      have hqueued : s.writeSide.done
          = before.filter Handler.isWritten ++ x :: after.filter Handler.isWritten := by
        show s.completions.filter Handler.isWritten = _
        rw [hdone, List.filter_append, List.filter_cons_of_pos hwritten]
      -- in the first two phases no handler of a write is queued
      cases h.phase with
      | idle _ _ hnil =>
          rw [hnil] at hqueued
          cases List.append_eq_nil_iff.mp hqueued.symm |>.2
      | writing _ _ hnil =>
          rw [hnil] at hqueued
          cases List.append_eq_nil_iff.mp hqueued.symm |>.2
      | @written front queue hqueue hwrites hplace hfailed hout =>
          rcases hplace with ⟨hone, -⟩ | ⟨hnil, -⟩
          · -- the handler moves from the queue to the strand
            rw [hone] at hqueued
            obtain ⟨hb, hcons⟩ := List.append_eq_singleton_iff.mp hqueued.symm
              |>.resolve_right fun hno => List.cons_ne_nil _ _ hno.2
            obtain ⟨rfl, ha⟩ := List.cons.inj hcons
            refine @WritePhase.written _ _ front queue hqueue hwrites (Or.inr ⟨?_, hsome⟩)
              hfailed hout
            show (before ++ after).filter Handler.isWritten = []
            rw [List.filter_append, hb, ha]
            rfl
          · rw [hnil] at hqueued
            cases List.append_eq_nil_iff.mp hqueued.symm |>.2
      | @failed front queue k hqueue hwrites hall hhandling hfailed hout =>
          refine @WritePhase.failed _ _ front queue k hqueue hwrites (fun y hy => ?_) ?_
            hfailed hout
          · obtain ⟨hy, hyw⟩ := List.mem_filter.mp hy
            exact hall y (List.mem_filter.mpr ⟨hmem y hy, hyw⟩)
          · intro y hy
            have hy' : (some x).filter Handler.isWritten = some y := hy
            rw [hsome] at hy'
            obtain rfl := Option.some.inj hy'
            exact hall x (by rw [hqueued]; exact List.mem_append_right _ List.mem_cons_self)

/-! ## Handlers -/

/-- A frame joins a queue that is being written. -/
theorem WritePhase.push {v : WriteSide} (h : WritePhase popped v) (hqueue : v.writeQueue ≠ [])
    (data : Bytes) : WritePhase popped { v with writeQueue := v.writeQueue ++ [data] } := by
  have hcons : ∀ {front : Bytes} {queue : List Bytes}, v.writeQueue = front :: queue →
      v.writeQueue ++ [data] = front :: (queue ++ [data]) := by
    intro front queue hq
    rw [hq]
    rfl
  cases h with
  | idle hnil => exact absurd hnil hqueue
  | writing hq hwrites hdone hhandling hfailed hsize hout =>
      exact .writing (hcons hq) hwrites hdone hhandling hfailed hsize hout
  | written hq hwrites hplace hfailed hout =>
      exact .written (hcons hq) hwrites hplace hfailed hout
  | failed hq hwrites hdone hhandling hfailed hout =>
      exact .failed (hcons hq) hwrites hdone hhandling hfailed hout

/-- A frame that joins an empty queue is written at once. -/
theorem WritePhase.begin (h : WritePhase popped s.writeSide) (hqueue : s.writeQueue = [])
    (data : Bytes) :
    WritePhase popped (({ s with writeQueue := [data] } : Session).doWrite).writeSide := by
  have hside : s.writeSide.writeQueue = [] := hqueue
  cases h with
  | idle _ hwrites hdone hhandling hfailed hout =>
      refine @WritePhase.writing _ _ ⟨data.length, 0⟩ data [] rfl ?_ hdone hhandling hfailed rfl ?_
      · exact congrArg (· ++ [WriteOp.mk data.length 0]) hwrites
      · show s.outgoing = _
        rw [List.take_zero, List.append_nil]
        exact hout
  | writing hq => cases hside.symm.trans hq
  | written hq => cases hside.symm.trans hq
  | failed hq => cases hside.symm.trans hq

/-- The strand has taken a handler other than that of a write. -/
theorem writeSide_taken {x : Handler} (hrunning : s.running = some x) (hx : x.isWritten = false) :
    ({ s with running := none } : Session).writeSide = s.writeSide := by
  rw [Session.writeSide, Session.writeSide, hrunning, Option.filter_some, hx]
  rfl

theorem sends_taken {x : Handler} (hrunning : s.running = some x) :
    s.sends = x.data ++ ({ s with running := none } : Session).sends := by
  rw [Session.sends, hrunning]
  rfl

/-- A posted frame is pushed, or dropped by a stopped session. -/
theorem Replies.onSend (h : Replies s popped later) {data : Bytes}
    (hrunning : s.running = some (.send data)) :
    ∃ later', Replies (({ s with running := none } : Session).onSend data) popped later' := by
  have hside := writeSide_taken hrunning rfl
  rw [Session.onSend]
  cases hstopped : s.isStopped with
  | true =>
      rw [if_pos rfl]
      refine ⟨later, h.quiet ?_ rfl (fun hs => by cases hs) h.completions h.posted⟩
      exact hside
  | false =>
      rw [if_neg Bool.false_ne_true]
      -- the frames still to be pushed begin with this one
      have hlater := (h.later hstopped).trans (sends_taken hrunning)
      have hphase : WritePhase popped ({ s with running := none } : Session).writeSide :=
        hside ▸ h.phase
      have hreplies : s.processed.flatMap Packet.replies
          = popped ++ ((s.writeQueue ++ [data])
            ++ ({ s with running := none } : Session).sends) := by
        rw [h.replies, hlater, List.append_assoc]
        rfl
      refine ⟨({ s with running := none } : Session).sends, ?_⟩
      cases hqueue : s.writeQueue with
      | nil =>
          refine ⟨hphase.begin hqueue data, ?_, fun _ => rfl, h.completions, h.posted⟩
          rw [hqueue] at hreplies
          exact hreplies
      | cons front queue =>
          rw [hqueue] at hreplies
          refine ⟨?_, hreplies, fun _ => rfl, h.completions, h.posted⟩
          have hwas : ({ s with running := none } : Session).writeSide.writeQueue
              = front :: queue := hqueue
          have hpush := hphase.push (by rw [hwas]; exact List.cons_ne_nil _ _) data
          rw [hwas] at hpush
          exact hpush

/-- The handler of a write pops the front and writes the next, or stops the session. -/
theorem Replies.onWritten (h : Replies s popped later) {ec : Bool}
    (hrunning : s.running = some (.written ec)) :
    ∃ popped',
      Replies (({ s with running := none } : Session).onWritten ec) popped' later := by
  have hsome : s.writeSide.handling = some (.written ec) := by
    show s.running.filter Handler.isWritten = _
    rw [hrunning]
    rfl
  have hsends : ({ s with running := none } : Session).sends = s.sends :=
    (sends_taken hrunning).symm
  cases h.phase with
  | idle _ _ _ hnone => cases hsome.symm.trans hnone
  | writing _ _ _ hnone => cases hsome.symm.trans hnone
  | @written front queue hqueue hwrites hplace hfailed hout =>
      obtain ⟨-, hnone⟩ | ⟨hdone, hhandling⟩ := hplace
      · cases hsome.symm.trans hnone
      · obtain rfl : ec = false := by
          injection hsome.symm.trans hhandling with hh
          injection hh
        -- the front was sent whole, and is popped
        have hq : s.writeQueue = front :: queue := hqueue
        have hreplies : s.processed.flatMap Packet.replies
            = (popped ++ [front]) ++ (queue ++ later) := by
          rw [h.replies, hq]
          simp only [List.append_assoc, List.cons_append, List.nil_append]
        have hout' : s.outgoing = (popped ++ [front]).flatten := by
          rw [List.flatten_append, List.flatten_singleton]
          exact hout
        have hlater := fun hs => (h.later hs).trans hsends.symm
        refine ⟨popped ++ [front], ?_⟩
        rw [Session.onWritten, if_neg Bool.false_ne_true]
        dsimp only
        rw [hq, List.tail_cons]
        -- `doWrite` goes on with the next frame, if there is one
        cases queue with
        | nil =>
            exact ⟨.idle rfl hwrites hdone rfl hfailed hout', hreplies, hlater, h.completions,
              h.posted⟩
        | cons next queue =>
            refine ⟨@WritePhase.writing _ _ ⟨next.length, 0⟩ next queue rfl ?_ hdone rfl hfailed
              rfl ?_, hreplies, hlater, h.completions, h.posted⟩
            · exact congrArg (· ++ [WriteOp.mk next.length 0]) hwrites
            · rw [List.take_zero, List.append_nil]
              exact hout'
  | @failed front queue k hqueue hwrites hdone hhandling hfailed hout =>
      -- the queue stays as it is, so `send` starts no write again
      obtain rfl : ec = true := by
        injection hhandling _ hsome
      refine ⟨popped, @WritePhase.failed _ _ front queue k hqueue hwrites hdone ?_ hfailed hout,
        h.replies, fun hs => ?_, h.completions, posted_concat h.posted rfl⟩
      · intro x hx
        cases hx
      · rw [h.later hs, ← hsends]
        show _ = (s.posted ++ [Handler.stop]).flatMap Handler.data
        rw [List.flatMap_append]
        exact (List.append_nil _).symm

/-- Posted handlers are seen only by their frames. -/
theorem sends_post (s : Session) (xs : List Handler) :
    ({ s with posted := s.posted ++ xs } : Session).sends = s.sends ++ xs.flatMap Handler.data := by
  rw [Session.sends, Session.sends, ← List.flatMap_append, List.append_assoc]

/-- A session that takes a handler without a frame and asks to be stopped. -/
theorem Replies.stops (h : Replies s popped later) {x : Handler}
    (hrunning : s.running = some x) (hx : x.isWritten = false) (hdata : x.data = []) :
    Replies ({ s with running := none } : Session).stop popped later := by
  refine h.quiet (writeSide_taken hrunning hx) rfl (fun hs => ⟨hs, ?_⟩) h.completions
    (posted_concat h.posted rfl)
  rw [Session.stop, sends_post, sends_taken hrunning, hdata]
  exact List.append_nil _

/-- A delivered packet owes its replies. -/
theorem Replies.deliver (h : Replies s popped later) {x : Handler}
    (hrunning : s.running = some x) (hx : x.isWritten = false) (hdata : x.data = [])
    (p : Packet) :
    Replies (({ s with running := none } : Session).deliver host p) popped
      (later ++ p.replies) where
  phase := by
    have hside := writeSide_taken hrunning hx
    have hphase : WritePhase popped ({ s with running := none } : Session).writeSide :=
      hside ▸ h.phase
    exact hphase
  replies := by
    show (s.processed ++ [p]).flatMap Packet.replies = popped ++ (s.writeQueue ++ _)
    rw [List.flatMap_append, List.flatMap_singleton, h.replies]
    simp only [List.append_assoc]
  later := fun hs => by
    have hsends : (({ s with running := none } : Session).deliver host p).sends
        = ({ s with running := none } : Session).sends ++ (p.posts host).flatMap Handler.data :=
      sends_post _ _
    rw [hsends, Packet.posts_data, h.later hs, sends_taken hrunning, hdata]
    rfl
  completions := h.completions
  posted := by
    intro y hy
    rcases List.mem_append.mp hy with hy | hy
    · exact h.posted y hy
    · exact Packet.posts_isPosted y hy

/-- The handler of a read delivers at most one packet. -/
theorem Replies.onRead (h : Replies s popped later) {x : Handler}
    (hrunning : s.running = some x) (hread : x.isRead = true) :
    ∃ later',
      Replies (({ s with running := none } : Session).execute host x) popped later' := by
  have hx : x.isWritten = false := by
    cases x <;> first | rfl | cases hread
  have hdata : x.data = [] := by
    cases x <;> first | rfl | cases hread
  have hcase := execute_read host ({ s with running := none } : Session) hread
  generalize ({ s with running := none } : Session).execute host x = t at hcase
  cases hcase with
  | failed => exact ⟨later, h.stops hrunning hx hdata⟩
  | malformed => exact ⟨later, h.stops hrunning hx hdata⟩
  | oversize => exact ⟨later, h.stops hrunning hx hdata⟩
  | announced =>
      refine ⟨later, h.quiet (writeSide_taken hrunning hx) rfl (fun hs => ⟨hs, ?_⟩)
        h.completions h.posted⟩
      rw [sends_taken hrunning, hdata]
      rfl
  | empty => exact ⟨_, h.deliver hrunning hx hdata _⟩
  | complete => exact ⟨_, h.deliver hrunning hx hdata _⟩

/-- Every handler keeps the replies whole and in order. -/
theorem Replies.resume (h : Replies s popped later) {x : Handler}
    (hrunning : s.running = some x) :
    ∃ popped' later',
      Replies (({ s with running := none } : Session).execute host x) popped' later' := by
  cases x with
  | headerRead ec k =>
      obtain ⟨later', h'⟩ := h.onRead hrunning rfl
      exact ⟨popped, later', h'⟩
  | payloadRead header ec =>
      obtain ⟨later', h'⟩ := h.onRead hrunning rfl
      exact ⟨popped, later', h'⟩
  | send data =>
      obtain ⟨later', h'⟩ := h.onSend hrunning
      exact ⟨popped, later', h'⟩
  | written ec =>
      obtain ⟨popped', h'⟩ := h.onWritten hrunning
      exact ⟨popped', later, h'⟩
  | stop =>
      have hside := writeSide_taken hrunning rfl
      refine ⟨popped, later, ?_⟩
      show Replies (({ s with running := none } : Session).onStop) popped later
      rw [Session.onStop]
      split
      · next hstopped =>
          refine h.quiet hside rfl (fun hs => ?_) h.completions h.posted
          cases hs.symm.trans hstopped
      · exact h.quiet hside rfl (fun hs => by cases hs) h.completions h.posted
  | removeSession =>
      exact ⟨popped, later, h.quiet (writeSide_taken hrunning rfl) rfl
        (fun hs => ⟨hs, (sends_taken hrunning).symm⟩) h.completions h.posted⟩

/-- **ONE STEP** keeps the replies whole and in order. -/
theorem Replies.step (h : Replies s popped later) {e : Event}
    (hstep : Session.Step host s e s') : ∃ popped' later', Replies s' popped' later' := by
  cases hstep with
  | readCompletes => exact ⟨popped, later, h.completeRead _ _ _ _⟩
  | readFails => exact ⟨popped, later, h.completeRead _ _ _ _⟩
  | transmit hop _ hfront => exact ⟨popped, later, h.transmit hop hfront⟩
  | writeCompletes hop hsent => exact ⟨popped, later, h.completeWrite hop fun _ => hsent⟩
  | writeFails hop => exact ⟨popped, later, h.completeWrite hop fun hec => by cases hec⟩
  | startPosted hidle hposted => exact ⟨popped, later, h.startPosted hidle hposted⟩
  | startCompletion hidle hdone => exact ⟨popped, later, h.startCompletion hidle hdone⟩
  | resume hrunning => exact h.resume hrunning
  | requestStop =>
      refine ⟨popped, later, h.quiet rfl rfl (fun hs => ⟨hs, ?_⟩) h.completions
        (posted_concat h.posted rfl)⟩
      rw [Session.stop, sends_post]
      exact List.append_nil _

theorem Replies.run {es : List Event} (hrun : Run (Session.Step host) s es s')
    (h : Replies s popped later) : ∃ popped' later', Replies s' popped' later' :=
  hrun.invariant (I := fun t => ∃ popped later, Replies t popped later)
    (fun _ _ _ hstep ⟨_, _, hs⟩ => hs.step hstep) ⟨popped, later, h⟩

/-! ## What is on the socket -/

/-- After a failed write nothing is written. -/
theorem WritePhase.of_failed (h : WritePhase popped s.writeSide) (hfailed : s.failedWrites ≠ 0) :
    s.writes = [] := by
  have hside : s.writeSide.failedWrites ≠ 0 := hfailed
  cases h with
  | idle _ hwrites => exact hwrites
  | writing _ _ _ _ hzero => exact absurd hzero hside
  | written _ hwrites => exact hwrites
  | failed _ hwrites => exact hwrites

/-- What is sent is the start of the replies. -/
theorem Replies.outgoing (h : Replies s popped later) :
    s.outgoing <+: (s.processed.flatMap Packet.replies).flatten := by
  have hfront : ∀ {front : Bytes} {queue : List Bytes} (n : Nat), s.writeQueue = front :: queue →
      popped.flatten ++ front.take n <+: (s.processed.flatMap Packet.replies).flatten := by
    intro front queue n hqueue
    rw [h.replies, hqueue, List.flatten_append, List.flatten_append, List.flatten_cons,
      List.append_assoc]
    refine List.prefix_append_right_inj _ |>.mpr ?_
    exact (List.take_prefix _ _).trans (List.prefix_append _ _)
  cases h.phase with
  | idle _ _ _ _ _ hout =>
      have hout' : s.outgoing = popped.flatten := hout
      rw [hout', h.replies, List.flatten_append]
      exact List.prefix_append _ _
  | @writing op front queue hqueue _ _ _ _ _ hout =>
      have hout' : s.outgoing = popped.flatten ++ front.take op.sent := hout
      rw [hout']
      exact hfront op.sent hqueue
  | @written front queue hqueue _ _ _ hout =>
      have hout' : s.outgoing = popped.flatten ++ front.take front.length := by
        rw [List.take_length]
        exact hout
      rw [hout']
      exact hfront front.length hqueue
  | @failed front queue k hqueue _ _ _ _ hout =>
      have hout' : s.outgoing = popped.flatten ++ front.take k := hout
      rw [hout']
      exact hfront k hqueue

/-- No handler puts bytes on the socket or completes a write, and only the handler of
    a write pops the queue. -/
theorem execute_kept (host : ByteOrder) (s : Session) (x : Handler) :
    (x.isWritten = false → s.writeQueue <+: (s.execute host x).writeQueue)
      ∧ (s.execute host x).outgoing = s.outgoing
      ∧ (s.execute host x).failedWrites = s.failedWrites := by
  cases hread : x.isRead with
  | true =>
      have hcase := execute_read host s hread
      generalize s.execute host x = t at hcase
      cases hcase <;> exact ⟨fun _ => List.prefix_rfl, rfl, rfl⟩
  | false =>
      have hcase := execute_other host s hread
      generalize s.execute host x = t at hcase
      cases hcase with
      | again => exact ⟨fun _ => List.prefix_rfl, rfl, rfl⟩
      | closes => exact ⟨fun _ => List.prefix_rfl, rfl, rfl⟩
      | removes => exact ⟨fun _ => List.prefix_rfl, rfl, rfl⟩
      | sends => exact ⟨fun _ => List.prefix_append _ _, rfl, rfl⟩
      | pops =>
          refine ⟨fun hx => ?_, rfl, rfl⟩
          cases hx
      | writeFailed => exact ⟨fun _ => List.prefix_rfl, rfl, rfl⟩

/-- The front of the queue stays while it is written. -/
theorem Replies.front_step (h : Replies s popped later) (hwrites : s.writes ≠ []) {e : Event}
    (hstep : Session.Step host s e s') : s'.writeQueue.head? = s.writeQueue.head? := by
  obtain ⟨op, rest, hop⟩ := List.exists_cons_of_ne_nil hwrites
  obtain ⟨front, queue, hqueue, -, -, hhandling, -⟩ := h.phase.of_writes hop
  cases hstep with
  | @readCompletes op => cases op <;> rfl
  | @readFails op => cases op <;> rfl
  | transmit => rfl
  | writeCompletes => rfl
  | writeFails => rfl
  | startPosted => rfl
  | startCompletion => rfl
  | requestStop => rfl
  | @resume x hrunning =>
      -- the handler is not that of a write, so it only appends to the queue
      have hx : x.isWritten = false := by
        rw [hrunning, Option.filter_some] at hhandling
        cases hx : x.isWritten with
        | false => rfl
        | true =>
            rw [if_pos hx] at hhandling
            cases hhandling
      obtain ⟨more, hmore⟩ := (execute_kept host ({ s with running := none } : Session) x).1 hx
      have hmore' : s.writeQueue ++ more
          = (({ s with running := none } : Session).execute host x).writeQueue := hmore
      rw [← hmore', hqueue]
      rfl

/-- After a failed write the socket gets no more bytes. -/
theorem Replies.failed_step (h : Replies s popped later) (hfailed : s.failedWrites ≠ 0)
    {e : Event} (hstep : Session.Step host s e s') :
    s'.failedWrites ≠ 0 ∧ s'.outgoing = s.outgoing := by
  have hnone := h.phase.of_failed hfailed
  cases hstep with
  | @readCompletes op => cases op <;> exact ⟨hfailed, rfl⟩
  | @readFails op => cases op <;> exact ⟨hfailed, rfl⟩
  | transmit hop => cases hnone.symm.trans hop
  | writeCompletes hop => cases hnone.symm.trans hop
  | writeFails hop => cases hnone.symm.trans hop
  | startPosted => exact ⟨hfailed, rfl⟩
  | startCompletion => exact ⟨hfailed, rfl⟩
  | requestStop => exact ⟨hfailed, rfl⟩
  | @resume x hrunning =>
      obtain ⟨-, hout, hcount⟩ := execute_kept host ({ s with running := none } : Session) x
      exact ⟨by rw [hcount]; exact hfailed, hout⟩

/-- What is on the socket of a session, and what can become of it. -/
structure Answered (host : ByteOrder) (s : Session) : Prop where
  /-- At most one write is outstanding. -/
  single : s.writes.length ≤ 1
  /-- It writes the front of the queue. -/
  front : ∀ op ∈ s.writes, ∃ data, s.writeQueue.head? = some data ∧ op.size = data.length
    ∧ data.take op.sent <:+ s.outgoing
  /-- The front stays as long as it is written, until the handler of the write runs. -/
  kept : s.writes ≠ [] → ∀ e s', Session.Step host s e s' →
    s'.writeQueue.head? = s.writeQueue.head?
  /-- The replies to the processed packets, in order and each one whole. -/
  ordered : s.outgoing <+: (s.processed.flatMap Packet.replies).flatten
  /-- A failed write is the last one. -/
  failed : s.failedWrites ≠ 0 → ∀ es t, Run (Session.Step host) s es t →
    t.outgoing = s.outgoing ∧ t.writes = []

theorem Replies.answered (h : Replies s popped later) : Answered host s where
  single := by
    cases hwrites : s.writes with
    | nil => exact Nat.zero_le 1
    | cons op rest =>
        obtain ⟨-, -, -, rfl, -⟩ := h.phase.of_writes hwrites
        exact Nat.le_refl 1
  front := by
    intro op hop
    cases hwrites : s.writes with
    | nil =>
        rw [hwrites] at hop
        cases hop
    | cons op' rest =>
        obtain ⟨data, queue, hqueue, rfl, -, -, -, hsize, hout⟩ := h.phase.of_writes hwrites
        rw [hwrites, List.mem_singleton] at hop
        obtain rfl := hop
        refine ⟨data, ?_, hsize, ?_⟩
        · rw [hqueue, List.head?_cons]
        · exact hout ▸ List.suffix_append _ _
  kept := fun hwrites _ _ hstep => h.front_step hwrites hstep
  ordered := h.outgoing
  failed := by
    intro hfailed es t hrun
    -- along the run the write stays failed and the socket the same
    obtain ⟨⟨popped', later', h'⟩, hfailed', hout⟩ :=
      hrun.invariant (I := fun u => (∃ popped later, Replies u popped later)
          ∧ u.failedWrites ≠ 0 ∧ u.outgoing = s.outgoing)
        (fun _ _ _ hstep ⟨⟨_, _, hu⟩, hcount, hsame⟩ =>
          ⟨hu.step hstep, (hu.failed_step hcount hstep).1,
            (hu.failed_step hcount hstep).2.trans hsame⟩)
        ⟨⟨popped, later, h⟩, hfailed, rfl⟩
    exact ⟨hout, h'.phase.of_failed hfailed'⟩

/-- **REPLIES**: in every order in which reads, writes, stops and handlers can happen,
    with any failures, a session writes one frame at a time, and what it has put on
    the socket is the start of the replies to the packets it processed. -/
theorem opened_answers (host : ByteOrder) (stream : Bytes) (es : List Event) (s : Session)
    (hrun : Run (Session.Step host) (Session.opened stream) es s) : Answered host s := by
  obtain ⟨popped, later, h⟩ := Replies.run hrun (Replies.opened stream)
  exact h.answered

/-- An ECHO_REQUEST with the payload "hi" and a PING: the payload has come back whole,
    and three bytes of the PONG. -/
theorem opened_answers_hi :
    Answered .little { Session.opened [] with
      headerBuffer := [0x41, 0x4E, 0, 1, 0, 0, 0, 0], payloadBuffer := [0x68, 0x69]
      processed := [⟨⟨magicHeader, .echoRequest, 2⟩, [0x68, 0x69]⟩, ⟨⟨magicHeader, .ping, 0⟩, []⟩]
      counted := 2, writeQueue := [[0x41, 0x4E, 0, 2, 0, 0, 0, 0]], writes := [⟨8, 3⟩]
      outgoing := [0x41, 0x4E, 0, 4, 0, 0, 0, 2, 0x68, 0x69, 0x41, 0x4E, 0] } :=
  opened_answers .little
    ([0x41, 0x4E, 0, 3, 0, 0, 0, 2, 0x68, 0x69] ++ [0x41, 0x4E, 0, 1, 0, 0, 0, 0])
    [.readCompletes, .startCompletion, .resume, .readCompletes, .startCompletion, .resume,
      .startPosted, .resume, .transmit, .writeCompletes, .readCompletes, .startCompletion, .resume,
      .startCompletion, .resume, .startPosted, .resume, .transmit] _ <|
    -- the request and its payload are read
    .cons (.readCompletes rfl rfl (by decide)) <|
    .cons (@Session.Step.startCompletion _ _ [] [] _ rfl rfl) <| .cons (.resume rfl) <|
    .cons (.readCompletes rfl rfl (by decide)) <|
    .cons (@Session.Step.startCompletion _ _ [] [] _ rfl rfl) <| .cons (.resume rfl) <|
    -- the response is written
    .cons (.startPosted rfl (by rfl)) <| .cons (.resume rfl) <|
    .cons (@Session.Step.transmit _ _ ⟨10, 0⟩ [] [0x41, 0x4E, 0, 4, 0, 0, 0, 2, 0x68, 0x69] 10
      (by rfl) (by rfl) (by rfl) (by decide)) <|
    .cons (@Session.Step.writeCompletes _ _ ⟨10, 10⟩ [] (by rfl) rfl) <|
    -- the PING is read, and the response popped before it is processed
    .cons (.readCompletes (by rfl) (by rfl) (by decide)) <|
    .cons (@Session.Step.startCompletion _ _ [] [.headerRead false 8] _ (by rfl) (by rfl)) <|
    .cons (.resume (by rfl)) <|
    .cons (@Session.Step.startCompletion _ _ [] [] _ (by rfl) (by rfl)) <|
    .cons (.resume (by rfl)) <|
    .cons (.startPosted (by rfl) (by rfl)) <| .cons (.resume (by rfl)) <|
    .cons (@Session.Step.transmit _ _ ⟨8, 0⟩ [] [0x41, 0x4E, 0, 2, 0, 0, 0, 0] 3 (by rfl) (by rfl)
      (by rfl) (by decide)) (by exact .nil)

end Replies

end AsyncNet
