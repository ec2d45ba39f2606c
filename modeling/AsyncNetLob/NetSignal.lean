import AsyncNetLob.NetServer

/-! # The signal handler

    The server as `main` runs it.  `Server::Server` hands a handler to
    `signals_.async_wait`, and as `main` only sleeps, this handler alone calls
    `Server::stop`: on one of the workers that `stop` joins.

    A worker is named by its place in `workerThreads_`.  A handler stays on the worker
    that started it; apart from that the server goes on as in `NetServer`, up to the
    loop over the threads, which goes from one thread to the next.  `std::thread::join`
    waits for another thread to end and throws on the own one; the worker catches the
    exception where it called `ioContext_.run()`, and ends.

    `isRunning` is tested where `stop` begins, and nobody posts a stop to a session but
    the session itself and `stopAll`.  Nobody cancels the wait, so its handler is left
    out with an error code; so is a worker that ends because nothing is left to wait
    for, as the wait or its handler is there until `ioContext_.stop()`. -/

namespace AsyncNet

open Transition

/-- Where a worker is. -/
inductive WorkerThread where
  /-- In `ioContext_.run()`, in no handler. -/
  | idle
  /-- In the handler of `doAccept`. -/
  | accepting
  /-- In a handler of session `i`. -/
  | serving (i : Nat)
  /-- In the signal handler. -/
  | signalled
  | ended
  deriving DecidableEq, Repr

/-- Where the signal handler is. -/
inductive Signal where
  | waiting
  /-- The signal has come, and the handler is queued. -/
  | raised
  /-- On worker `k`, in `Server::stop`, before its loop over the threads. -/
  | stopping (k : Nat)
  /-- On worker `k`, with thread `j` to be joined next. -/
  | joining (k j : Nat)
  /-- `join` has thrown on worker `k`. -/
  | threw (k : Nat)
  | returned
  deriving DecidableEq, Repr

/-- The worker that the signal handler holds. -/
def Signal.worker : Signal → Option Nat
  | .stopping k => some k
  | .joining k _ => some k
  | _ => none

structure Process where
  server        : Server
  workerThreads : List WorkerThread
  signal        : Signal
  deriving DecidableEq

/-- The handler of this worker is still running. -/
def Server.Handles (sv : Server) : WorkerThread → Prop
  | .accepting => sv.accept.running = true
  | .serving i => ∃ s, sv.sessions[i]? = some s ∧ s.running.isSome = true
  | _ => False

instance (sv : Server) (task : WorkerThread) : Decidable (sv.Handles task) :=
  match task with
  | .accepting => inferInstanceAs (Decidable (_ = true))
  | .serving i =>
      match h : sv.sessions[i]? with
      | none => .isFalse fun ⟨_, hs, _⟩ => by cases h.symm.trans hs
      | some s => decidable_of_iff (s.running.isSome = true)
          ⟨fun hr => ⟨s, h, hr⟩, fun ⟨_, hu, hr⟩ => Option.some.inj (h.symm.trans hu) ▸ hr⟩
  | .idle => .isFalse id
  | .signalled => .isFalse id
  | .ended => .isFalse id

/-- The worker goes on with its handler, or is done with it. -/
def WorkerThread.next (sv : Server) (task : WorkerThread) : WorkerThread :=
  if sv.Handles task then task else .idle

/-! ## Who takes a step of the server -/

/-- The peer and the operations that are outstanding. -/
def Event.ofLibrary : Event → Bool
  | .readCompletes => true
  | .readFails => true
  | .transmit => true
  | .writeCompletes => true
  | .writeFails => true
  | _ => false

def ServerEvent.ofLibrary : ServerEvent → Bool
  | .accepted _ => true
  | .acceptFails => true
  | .session _ e => e.ofLibrary
  | _ => false

/-- A worker that was idle takes a handler. -/
def ServerEvent.begun : ServerEvent → Option WorkerThread
  | .startAccept => some .accepting
  | .session i e => if e.starts then some (.serving i) else none
  | _ => none

/-- A worker goes on with its handler. -/
def ServerEvent.resumed : ServerEvent → Option WorkerThread
  | .acceptStep => some .accepting
  | .session i e => if e = .resume then some (.serving i) else none
  | _ => none

def ServerEvent.ofStop : ServerEvent → Bool
  | .stopStep => true
  | .stopSession _ => true
  | _ => false

inductive ProcessEvent where
  | library (e : ServerEvent)
  | begin (w : Nat) (e : ServerEvent)
  | resume (w : Nat) (e : ServerEvent)
  /-- SIGINT or SIGTERM. -/
  | raise
  | beginStop (w : Nat)
  | stop (e : ServerEvent)
  | alreadyStopped
  | join
  | deadlock
  | finish
  | leave (w : Nat)
  deriving DecidableEq

namespace Process

/-- `main`, after `server.start()`. -/
def launched (threadPoolSize : Nat) : Process where
  server := Server.started threadPoolSize
  workerThreads := List.replicate threadPoolSize .idle
  signal := .waiting

inductive Step (host : ByteOrder) : Process → ProcessEvent → Process → Prop where
  | library {p : Process} {e : ServerEvent} {sv : Server} (he : e.ofLibrary = true)
      (hstep : Server.Step host p.server e sv) : Step host p (.library e) { p with server := sv }
  | begin {p : Process} {w : Nat} {e : ServerEvent} {task : WorkerThread} {sv : Server}
      (he : e.begun = some task) (hw : p.workerThreads[w]? = some .idle)
      (hstep : Server.Step host p.server e sv) :
      Step host p (.begin w e) { p with
        server := sv, workerThreads := p.workerThreads.set w task }
  | resume {p : Process} {w : Nat} {e : ServerEvent} {task : WorkerThread} {sv : Server}
      (he : e.resumed = some task) (hw : p.workerThreads[w]? = some task)
      (hstep : Server.Step host p.server e sv) :
      Step host p (.resume w e) { p with
        server := sv, workerThreads := p.workerThreads.set w (task.next sv) }
  | raise {p : Process} (hsignal : p.signal = .waiting) :
      Step host p .raise { p with signal := .raised }
  | beginStop {p : Process} {w : Nat} (hsignal : p.signal = .raised)
      (hw : p.workerThreads[w]? = some .idle) (hio : p.server.ioStopped = false) :
      Step host p (.beginStop w) { p with
        workerThreads := p.workerThreads.set w .signalled, signal := .stopping w }
  /-- A statement of `Server::stop` before the loop. -/
  | stop {p : Process} {k : Nat} {e : ServerEvent} {sv : Server} (hsignal : p.signal = .stopping k)
      (he : e.ofStop = true) (hrunning : p.server.stopper = .notCalled → p.server.isRunning = true)
      (hbefore : p.server.stopper ≠ .joining) (hstep : Server.Step host p.server e sv) :
      Step host p (.stop e) { p with
        server := sv, signal := if sv.stopper = .joining then .joining k 0 else .stopping k }
  | alreadyStopped {p : Process} {k : Nat} (hsignal : p.signal = .stopping k)
      (hcalled : p.server.stopper = .notCalled) (hnot : p.server.isRunning = false) :
      Step host p .alreadyStopped { p with
        workerThreads := p.workerThreads.set k .idle, signal := .returned }
  | join {p : Process} {k j : Nat} (hsignal : p.signal = .joining k j)
      (hended : p.workerThreads[j]? = some .ended) :
      Step host p .join { p with signal := .joining k (j + 1) }
  /-- `join` throws `resource_deadlock_would_occur`. -/
  | deadlock {p : Process} {k : Nat} (hsignal : p.signal = .joining k k) :
      Step host p .deadlock { p with
        workerThreads := p.workerThreads.set k .ended, signal := .threw k }
  /-- Past the loop, `workerThreads_` is cleared. -/
  | finish {p : Process} {k j : Nat} (hsignal : p.signal = .joining k j)
      (hall : j = p.workerThreads.length) :
      Step host p .finish { p with
        server := p.server.stopStep .joining, workerThreads := [], signal := .returned }
  | leave {p : Process} {w : Nat} (hw : p.workerThreads[w]? = some .idle)
      (hio : p.server.ioStopped = true) :
      Step host p (.leave w) { p with workerThreads := p.workerThreads.set w .ended }

end Process

end AsyncNet
