import AsyncNetLob.NetProtocol
import AsyncNetLob.TransitionProofs

/-! # `Session`

    `Session.cpp` on one connection.  The members of the session are fields of the
    state; so is what the library holds for it: the outstanding reads and writes,
    the handlers of completed operations, the handlers posted to the strand and the
    one it is running.  `incoming` is what the peer sent and no read has taken,
    `outgoing` what was put on the socket.

    `Step` says what can happen next, in any order: an operation completes or fails,
    a write transmits some bytes, the strand starts or resumes a handler, somebody
    calls `stop`.  Posted handlers start in posting order, completed operations at
    any time; the strand runs one handler at a time.  Outstanding operations are
    served in the order in which they were started.

    `closings`, `removals`, `processed` and `failedWrites` are history; no code reads
    them.  The log texts, `remoteAddress_` and `isWriting_` (which nothing reads) are
    left out. -/

namespace AsyncNet

open Protocol Transition

/-- An outstanding `async_read`. -/
inductive ReadOp where
  | header
  | payload (header : Header)
  deriving DecidableEq, Repr

/-- The size of its buffer. -/
def ReadOp.size : ReadOp → Nat
  | .header => headerSize
  | .payload h => h.length.toNat

/-- An outstanding `async_write` of the front of the queue. -/
structure WriteOp where
  size : Nat
  sent : Nat
  deriving DecidableEq, Repr

/-- What the strand runs: a posted handler, the handler of a completed operation, or
    the rest of a handler. -/
inductive Handler where
  | stop
  | send (data : Bytes)
  | headerRead (ec : Bool) (length : Nat)
  | payloadRead (header : Header) (ec : Bool)
  | written (ec : Bool)
  /-- The end of a stop handler, which has closed the socket. -/
  | removeSession
  deriving DecidableEq, Repr

/-- The handler of a read that transferred some bytes. -/
def ReadOp.handler (ec : Bool) (length : Nat) : ReadOp → Handler
  | .header => .headerRead ec length
  | .payload h => .payloadRead h ec

structure Session where
  headerBuffer  : Bytes
  payloadBuffer : Bytes
  writeQueue    : List Bytes
  isStopped     : Bool
  -- the connection
  socketOpen    : Bool
  incoming      : Bytes
  outgoing      : Bytes
  -- the strand and the outstanding operations
  reads         : List ReadOp
  writes        : List WriteOp
  completions   : List Handler
  posted        : List Handler
  running       : Option Handler
  -- history
  processed     : List Packet
  counted       : Nat
  closings      : Nat
  removals      : Nat
  failedWrites  : Nat
  deriving DecidableEq

namespace Session

/-- `Session::Session`, on a connection whose peer sends the bytes `stream`. -/
def new (stream : Bytes) : Session where
  headerBuffer := List.replicate headerSize 0
  payloadBuffer := []
  writeQueue := []
  isStopped := false
  socketOpen := true
  incoming := stream
  outgoing := []
  reads := []
  writes := []
  completions := []
  posted := []
  running := none
  processed := []
  counted := 0
  closings := 0
  removals := 0
  failedWrites := 0

variable (host : ByteOrder) (s : Session)

/-! ## Member functions -/

/-- `Session::stop`: the handler is posted. -/
def stop : Session := { s with posted := s.posted ++ [.stop] }

/-- `Session::send`: the frame is built at once, the handler posted. -/
def send (packet : Packet) : Session :=
  { s with posted := s.posted ++ [.send (serializePacket host packet)] }

/-- `Session::doReadHeader`. -/
def doReadHeader : Session := { s with reads := s.reads ++ [.header] }

/-- `std::vector::resize`. -/
def resize (buffer : Bytes) (size : Nat) : Bytes :=
  buffer.take size ++ List.replicate (size - buffer.length) 0

/-- `Session::doReadPayload`. -/
def doReadPayload (header : Header) : Session :=
  { s with payloadBuffer := resize s.payloadBuffer header.length.toNat
           reads := s.reads ++ [.payload header] }

/-- `Session::start`. -/
def start : Session := s.doReadHeader

/-- `Session::processPacket`. -/
def processPacket (header : Header) (payload : Bytes) : Session :=
  let s := { s with processed := s.processed ++ [⟨header, payload⟩], counted := s.counted + 1 }
  if header.type = .ping then s.send host createPongPacket
  else if header.type = .echoRequest then s.send host (createEchoResponse payload)
  else if header.type = .disconnect then s.stop
  else s

/-- `Session::doWrite`, which is called only on a queue that is not empty. -/
def doWrite : Session :=
  match s.writeQueue with
  | [] => s
  | front :: _ => { s with writes := s.writes ++ [⟨front.length, 0⟩] }

/-! ## Handlers -/

/-- The handler that `stop` posts, up to the call of `removeSession`. -/
def onStop : Session :=
  if s.isStopped then s
  else { s with isStopped := true, socketOpen := false, closings := s.closings + 1
                running := some .removeSession }

/-- The handler that `send` posts. -/
def onSend (data : Bytes) : Session :=
  if s.isStopped then s
  else
    let writeInProgress := !s.writeQueue.isEmpty
    let s := { s with writeQueue := s.writeQueue ++ [data] }
    if writeInProgress then s else s.doWrite

/-- The handler of the read in `doReadHeader`. -/
def onHeader (ec : Bool) (length : Nat) : Session :=
  if ec then s.stop
  else
    let decoded := deserializeHeader host s.headerBuffer length {}
    let header := decoded.2
    if !decoded.1 then s.stop
    else if header.length.toNat > maxPayloadSize then s.stop
    else if header.length > 0 then s.doReadPayload header
    else (s.processPacket host header []).doReadHeader

/-- The handler of the read in `doReadPayload`. -/
def onPayload (header : Header) (ec : Bool) : Session :=
  if ec then s.stop else (s.processPacket host header s.payloadBuffer).doReadHeader

/-- The handler of the write in `doWrite`. -/
def onWritten (ec : Bool) : Session :=
  if ec then s.stop
  else
    let s := { s with writeQueue := s.writeQueue.tail }
    if s.writeQueue.isEmpty then s else s.doWrite

/-- Run a handler, or the rest of one, that the strand has taken. -/
def execute : Handler → Session
  | .stop => s.onStop
  | .send data => s.onSend data
  | .headerRead ec length => s.onHeader host ec length
  | .payloadRead header ec => s.onPayload host header ec
  | .written ec => s.onWritten ec
  | .removeSession => { s with removals := s.removals + 1 }

/-! ## The library -/

/-- Write bytes to the front of a buffer. -/
def fill (buffer bytes : Bytes) : Bytes := bytes ++ buffer.drop bytes.length

/-- A read takes `k` bytes from the connection into its buffer and completes. -/
def completeRead (op : ReadOp) (rest : List ReadOp) (ec : Bool) (k : Nat) : Session :=
  let bytes := s.incoming.take k
  let s := { s with incoming := s.incoming.drop k, reads := rest
                    completions := s.completions ++ [op.handler ec k] }
  match op with
  | .header => { s with headerBuffer := fill s.headerBuffer bytes }
  | .payload _ => { s with payloadBuffer := fill s.payloadBuffer bytes }

/-- A write puts the next `k` bytes of its buffer on the socket. -/
def transmit (op : WriteOp) (rest : List WriteOp) (front : Bytes) (k : Nat) : Session :=
  { s with outgoing := s.outgoing ++ (front.drop op.sent).take k
           writes := { op with sent := op.sent + k } :: rest }

def completeWrite (rest : List WriteOp) (ec : Bool) : Session :=
  { s with writes := rest, completions := s.completions ++ [.written ec]
           failedWrites := if ec then s.failedWrites + 1 else s.failedWrites }

end Session

/-- What can happen on a session. -/
inductive Event where
  | readCompletes
  | readFails
  | transmit
  | writeCompletes
  | writeFails
  | startPosted
  | startCompletion
  | resume
  | requestStop
  deriving DecidableEq

namespace Session

inductive Step (host : ByteOrder) : Session → Event → Session → Prop where
  /-- All bytes have arrived. -/
  | readCompletes {s : Session} {op : ReadOp} {rest : List ReadOp} (hop : s.reads = op :: rest)
      (hopen : s.socketOpen = true) (hsize : op.size ≤ s.incoming.length) :
      Step host s .readCompletes (s.completeRead op rest false op.size)
  /-- An error, after any part of the bytes. -/
  | readFails {s : Session} {op : ReadOp} {rest : List ReadOp} {k : Nat}
      (hop : s.reads = op :: rest) (hk : k ≤ op.size) (hsize : k ≤ s.incoming.length) :
      Step host s .readFails (s.completeRead op rest true k)
  | transmit {s : Session} {op : WriteOp} {rest : List WriteOp} {front : Bytes} {k : Nat}
      (hop : s.writes = op :: rest) (hopen : s.socketOpen = true)
      (hfront : s.writeQueue.head? = some front) (hk : op.sent + k ≤ op.size) :
      Step host s .transmit (s.transmit op rest front k)
  | writeCompletes {s : Session} {op : WriteOp} {rest : List WriteOp}
      (hop : s.writes = op :: rest) (hsent : op.sent = op.size) :
      Step host s .writeCompletes (s.completeWrite rest false)
  | writeFails {s : Session} {op : WriteOp} {rest : List WriteOp} (hop : s.writes = op :: rest) :
      Step host s .writeFails (s.completeWrite rest true)
  | startPosted {s : Session} {h : Handler} {rest : List Handler} (hidle : s.running = none)
      (hposted : s.posted = h :: rest) :
      Step host s .startPosted { s with posted := rest, running := some h }
  | startCompletion {s : Session} {before after : List Handler} {h : Handler}
      (hidle : s.running = none) (hdone : s.completions = before ++ h :: after) :
      Step host s .startCompletion { s with completions := before ++ after, running := some h }
  | resume {s : Session} {h : Handler} (hrunning : s.running = some h) :
      Step host s .resume (({ s with running := none } : Session).execute host h)
  | requestStop {s : Session} : Step host s .requestStop s.stop

/-- A session that was started on a connection whose peer sends `stream`. -/
def opened (stream : Bytes) : Session := (new stream).start

end Session

end AsyncNet
