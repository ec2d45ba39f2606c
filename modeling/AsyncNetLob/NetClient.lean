import AsyncNetLob.NetRestProofs

/-! # `runClientWorker`

    `BenchmarkClient.cpp`: a worker sends echo requests on one connection, waits for the
    response to each before the next, and says goodbye.  `Link` is the worker and the
    session that serves it: the bytes on their way to the session are its `incoming`,
    those on their way back its `outgoing` from `received` on.

    A step of the link is a step of the session or of the worker.  A blocking write
    puts its bytes on the socket in pieces; a blocking read returns when all of its bytes
    have come, and throws at the end of the stream.  The connection itself does not fail
    and nobody else stops the session (`Link.Allows`): a session sees the end of its
    stream only after the worker has closed its socket, and its writes fail only on a
    closed connection.  On a link that is disturbed all of this can happen at any time.

    `Benchmark` is `main` while its threads run.  The latencies and the texts are left
    out; `written`, `received` and `responses` are history. -/

namespace AsyncNet

open Protocol Transition

/-- Where a worker is. -/
inductive Worker where
  /-- In the `write` of a request, of which some bytes are on the socket. -/
  | writing (sent : ℕ)
  | readingHeader
  | readingPayload (respHeader : Header)
  /-- In the `write` of the DISCONNECT. -/
  | disconnecting (sent : ℕ)
  /-- The socket was shut down and closed. -/
  | closed
  /-- An exception was caught. -/
  | failed
  deriving DecidableEq, Repr

structure Client where
  worker     : Worker
  /-- The counter of the loop. -/
  i          : ℕ
  headerBuf  : Bytes
  payloadBuf : Bytes
  completed  : ℕ
  errors     : ℕ
  -- history
  written    : Bytes
  received   : ℕ
  responses  : List Packet
  deriving DecidableEq

/-- `testPayload`. -/
def testPayload : Bytes :=
  "AsyncNet High-Performance Benchmark Payload Engine 2026!".toList.map fun c =>
    UInt8.ofNat c.toNat

/-- `pkt`, for any payload. -/
def requestPacket (payload : Bytes) : Packet :=
  ⟨⟨magicHeader, .echoRequest, UInt32.ofNat payload.length⟩, payload⟩

/-- `discPkt`. -/
def disconnectPacket : Packet := ⟨⟨magicHeader, .disconnect, 0⟩, []⟩

namespace Client

variable (host : ByteOrder) (requestsPerClient : ℕ) (payload : Bytes) (c : Client)

/-- The head of the loop, and what follows it. -/
def loop : Client :=
  { c with worker := if c.i < requestsPerClient then .writing 0 else .disconnecting 0 }

/-- A worker that has connected. -/
def connected : Client :=
  loop requestsPerClient
    { worker := .closed, i := 0, headerBuf := List.replicate headerSize 0, payloadBuf := []
      completed := 0, errors := 0, written := [], received := 0, responses := [] }

/-- An iteration that read a response. -/
def complete (response : Packet) : Client :=
  loop requestsPerClient
    { c with completed := c.completed + 1, i := c.i + 1, responses := c.responses ++ [response] }

/-- The bytes that the worker is writing, and how many of them are on the socket. -/
def unsent : Bytes :=
  match c.worker with
  | .writing sent => (serializePacket host (requestPacket payload)).drop sent
  | .disconnecting sent => (serializePacket host disconnectPacket).drop sent
  | _ => []

/-- `k` bytes were put on the socket; `write` returns with the last one. -/
def write (k : ℕ) : Client :=
  let sent := (c.unsent host payload).take k
  let whole := decide ((c.unsent host payload).length ≤ k)
  let c' := { c with written := c.written ++ sent }
  match c.worker with
  | .writing sent => { c' with worker := if whole then .readingHeader else .writing (sent + k) }
  | .disconnecting sent => { c' with worker := if whole then .closed else .disconnecting (sent + k) }
  | _ => c'

/-- The number of bytes that the worker is waiting for. -/
def wanted : ℕ :=
  match c.worker with
  | .readingHeader => headerSize
  | .readingPayload respHeader => respHeader.length.toNat
  | _ => 0

/-- `read` returns with these bytes. -/
def read (bytes : Bytes) : Client :=
  let c' := { c with received := c.received + bytes.length }
  match c.worker with
  | .readingHeader =>
      let c' := { c' with headerBuf := bytes }
      let decoded := deserializeHeader host bytes headerSize {}
      let respHeader := decoded.2
      if !decoded.1 then loop requestsPerClient { c' with errors := c'.errors + 1, i := c'.i + 1 }
      else if respHeader.length > 0 then
        { c' with worker := .readingPayload respHeader
                  payloadBuf := Session.resize c'.payloadBuf respHeader.length.toNat }
      else complete requestsPerClient c' ⟨respHeader, []⟩
  | .readingPayload respHeader =>
      complete requestsPerClient { c' with payloadBuf := bytes } ⟨respHeader, bytes⟩
  | _ => c'

/-- An exception, which the worker catches. -/
def throw : Client := { c with worker := .failed, errors := c.errors + 1 }

/-- The worker's socket is closed. -/
def HungUp : Prop := c.worker = .closed ∨ c.worker = .failed

end Client

structure Link where
  client  : Client
  session : Session
  deriving DecidableEq

inductive LinkEvent where
  | session (e : Event)
  | write
  | read
  | throws
  deriving DecidableEq

namespace Link

/-- A worker that has connected to a session that was started. -/
def connected (requestsPerClient : ℕ) : Link where
  client := Client.connected requestsPerClient
  session := Session.opened []

/-- The bytes that have come for the worker. -/
def available (l : Link) : Bytes := l.session.outgoing.drop l.client.received

/-- What can happen to the session of a connection that does not fail. -/
def Allows (l : Link) (e : Event) : Prop :=
  match e with
  | .readFails => l.session.socketOpen = false
      ∨ l.client.HungUp ∧ ∀ op ∈ l.session.reads, l.session.incoming.length < op.size
  | .writeFails => l.session.socketOpen = false
      ∨ l.client.HungUp ∧ ∀ op ∈ l.session.writes, op.sent < op.size
  | .requestStop => False
  | _ => True

/-- A link whose two hosts have byte orders of their own. -/
inductive Step (clientHost serverHost : ByteOrder) (requestsPerClient : ℕ) (payload : Bytes) :
    Link → LinkEvent → Link → Prop where
  | session {l : Link} {e : Event} {s' : Session} (hstep : Session.Working serverHost l.session e s')
      (hallows : l.Allows e) :
      Step clientHost serverHost requestsPerClient payload l (.session e) { l with session := s' }
  | write {l : Link} {k : ℕ} (hk : 0 < k) (hsize : k ≤ (l.client.unsent clientHost payload).length) :
      Step clientHost serverHost requestsPerClient payload l .write
        { client := l.client.write clientHost payload k
          session := l.session.receive ((l.client.unsent clientHost payload).take k) }
  | read {l : Link} (hwanted : 0 < l.client.wanted) (hsize : l.client.wanted ≤ l.available.length) :
      Step clientHost serverHost requestsPerClient payload l .read
        { l with client := l.client.read clientHost requestsPerClient
                  (l.available.take l.client.wanted) }
  /-- The end of the stream in a read, or a closed connection in a write. -/
  | throws {l : Link} (hclosed : l.session.socketOpen = false)
      (hwaits : l.client.unsent clientHost payload ≠ [] ∨ l.available.length < l.client.wanted) :
      Step clientHost serverHost requestsPerClient payload l .throws
        { l with client := l.client.throw }

/-- A step of a link whose connection can break, and whose session others can stop. -/
inductive Disturbed (clientHost serverHost : ByteOrder) (requestsPerClient : ℕ)
    (payload : Bytes) : Link → LinkEvent → Link → Prop where
  | step {l l' : Link} {e : LinkEvent}
      (hstep : Step clientHost serverHost requestsPerClient payload l e l') :
      Disturbed clientHost serverHost requestsPerClient payload l e l'
  /-- Any step of the session: a read or a write fails, or somebody calls `stop`. -/
  | session {l : Link} {e : Event} {s' : Session}
      (hstep : Session.Working serverHost l.session e s') :
      Disturbed clientHost serverHost requestsPerClient payload l (.session e)
        { l with session := s' }
  /-- A read or a write of the worker fails. -/
  | throws {l : Link} (hopen : ¬ l.client.HungUp) :
      Disturbed clientHost serverHost requestsPerClient payload l .throws
        { l with client := l.client.throw }

end Link

/-- The threads of `main` and the counters that they share. -/
structure Benchmark where
  links             : List Link
  completedRequests : ℕ
  errorCount        : ℕ
  deriving DecidableEq

namespace Benchmark

/-- Each client has connected to a session of its own. -/
def started (numClients requestsPerClient : ℕ) : Benchmark where
  links := List.replicate numClients (Link.connected requestsPerClient)
  completedRequests := 0
  errorCount := 0

/-- A client steps, and increments the counters when it increments its own. -/
def advance (b : Benchmark) (k : ℕ) (l l' : Link) : Benchmark where
  links := b.links.set k l'
  completedRequests := b.completedRequests + (l'.client.completed - l.client.completed)
  errorCount := b.errorCount + (l'.client.errors - l.client.errors)

inductive Step (clientHost serverHost : ByteOrder) (requestsPerClient : ℕ) (payload : Bytes) :
    Benchmark → ℕ × LinkEvent → Benchmark → Prop where
  | client {b : Benchmark} {k : ℕ} {e : LinkEvent} {l l' : Link} (hlink : b.links[k]? = some l)
      (hstep : Link.Step clientHost serverHost requestsPerClient payload l e l') :
      Step clientHost serverHost requestsPerClient payload b (k, e) (b.advance k l l')

/-- The same on connections that can break. -/
inductive Disturbed (clientHost serverHost : ByteOrder) (requestsPerClient : ℕ)
    (payload : Bytes) : Benchmark → ℕ × LinkEvent → Benchmark → Prop where
  | client {b : Benchmark} {k : ℕ} {e : LinkEvent} {l l' : Link} (hlink : b.links[k]? = some l)
      (hstep : Link.Disturbed clientHost serverHost requestsPerClient payload l e l') :
      Disturbed clientHost serverHost requestsPerClient payload b (k, e) (b.advance k l l')

/-- Every thread can be joined. -/
def Joined (b : Benchmark) : Prop := ∀ l ∈ b.links, l.client.HungUp

end Benchmark

end AsyncNet
