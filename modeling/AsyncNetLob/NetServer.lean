import Mathlib.Data.Finset.Card
import AsyncNetLob.NetSession

/-! # `Server` and `SessionManager`

    `Server.cpp` and `SessionManager.cpp`, over the sessions of `NetSession`.  A
    session is named by its place in `sessions`, where it stays; `registry` is
    `sessions_`.  The accept handler, `Server::stop` and the strands of the sessions
    each go on in steps of their own, in any order.

    A handler starts only on a worker that is free, and on none once
    `ioContext_.stop()` was called; a handler that was started runs to its end.
    `addSession` and `removeSession` are one step each, under the mutex;
    `stopAll` holds the mutex over several steps, in which it goes through the
    registry in any order.

    One thread that is no worker calls `Server::stop` once; the signal handler, which
    calls it on a worker, is in `NetSignal`.  `additions` and `starts` are history.  The
    log texts and the thrown errors of the workers are left out. -/

namespace AsyncNet

open Transition

/-- Where the accept loop is: in the library, or in the handler of `doAccept`. -/
inductive Accept where
  /-- No `async_accept` is outstanding. -/
  | ended
  | outstanding
  | queued (ec : Bool) (stream : Bytes)
  /-- At the test of the error code. -/
  | checking (ec : Bool) (stream : Bytes)
  /-- The session is made. -/
  | adding (i : Nat)
  | starting (i : Nat)
  /-- At the test of `isRunning_`. -/
  | rearming
  deriving DecidableEq, Repr

/-- A worker is in the accept handler. -/
def Accept.running : Accept → Bool
  | .checking _ _ => true
  | .adding _ => true
  | .starting _ => true
  | .rearming => true
  | _ => false

/-- Where `Server::stop` is. -/
inductive Stopper where
  | notCalled
  /-- `isRunning_` is false. -/
  | flagged
  /-- In `stopAll`, under the mutex, with these sessions still to be stopped. -/
  | stopping (remaining : Finset Nat)
  | cleared
  | acceptorClosed
  | joining
  | returned
  deriving DecidableEq

structure Server where
  threadPoolSize : Nat
  isRunning      : Bool
  acceptorOpen   : Bool
  ioStopped      : Bool
  sessions       : List Session
  registry       : Finset Nat
  accept         : Accept
  stopper        : Stopper
  -- history
  additions      : List Nat
  starts         : List Nat
  deriving DecidableEq

namespace Server

/-- A server that was started. -/
def started (threadPoolSize : Nat) : Server where
  threadPoolSize := threadPoolSize
  isRunning := true
  acceptorOpen := true
  ioStopped := false
  sessions := []
  registry := ∅
  accept := .outstanding
  stopper := .notCalled
  additions := []
  starts := []

variable (sv : Server)

/-- The number of workers in a handler. -/
def busy : Nat :=
  (sv.sessions.filter fun s => s.running.isSome).length + if sv.accept.running then 1 else 0

/-- A worker can start a handler. -/
def HasWorker : Prop := sv.ioStopped = false ∧ sv.busy < sv.threadPoolSize

/-- `stopAll` holds the mutex. -/
def Locked : Prop := ∃ remaining, sv.stopper = .stopping remaining

/-- `SessionManager::addSession`. -/
def addSession (i : Nat) : Server :=
  { sv with registry := insert i sv.registry, additions := sv.additions ++ [i] }

/-- `SessionManager::removeSession`. -/
def removeSession (i : Nat) : Server := { sv with registry := sv.registry.erase i }

/-- `SessionManager::getActiveConnectionsCount`. -/
def getActiveConnectionsCount : Nat := sv.registry.card

/-- The accept handler takes its next step. -/
def acceptStep : Accept → Server
  | .checking ec stream =>
      if ec then { sv with accept := .rearming }
      else { sv with sessions := sv.sessions ++ [Session.new stream]
                     accept := .adding sv.sessions.length }
  | .adding i => { sv.addSession i with accept := .starting i }
  | .starting i =>
      { sv with sessions := sv.sessions.modify i Session.start, starts := sv.starts ++ [i]
                accept := .rearming }
  | .rearming => { sv with accept := if sv.isRunning then .outstanding else .ended }
  | _ => sv

/-- The strand of a session ends a stop handler. -/
def Removing (s : Session) (e : Event) : Prop := e = .resume ∧ s.running = some .removeSession

instance (s : Session) (e : Event) : Decidable (Removing s e) :=
  inferInstanceAs (Decidable (_ ∧ _))

/-- Session `i` goes from `s` to `s'`. -/
def sessionStep (i : Nat) (s : Session) (e : Event) (s' : Session) : Server :=
  let sv' := { sv with sessions := sv.sessions.set i s' }
  if Removing s e then sv'.removeSession i else sv'

/-- The rest of `Server::stop`, one statement after the other; `stopAll` has gone
    through the registry when nothing remains. -/
def stopStep : Stopper → Server
  | .notCalled => { sv with isRunning := false, stopper := .flagged }
  | .flagged => { sv with stopper := .stopping sv.registry }
  | .stopping _ => { sv with registry := ∅, stopper := .cleared }
  | .cleared => { sv with acceptorOpen := false, stopper := .acceptorClosed }
  | .acceptorClosed => { sv with ioStopped := true, stopper := .joining }
  | .joining => { sv with stopper := .returned }
  | .returned => sv

/-- `stopAll` stops a session. -/
def stopSession (i : Nat) (remaining : Finset Nat) : Server :=
  { sv with sessions := sv.sessions.modify i Session.stop
            stopper := .stopping (remaining.erase i) }

end Server

inductive ServerEvent where
  | accepted (stream : Bytes)
  | acceptFails
  | startAccept
  | acceptStep
  | session (i : Nat) (e : Event)
  | stopStep
  | stopSession (i : Nat)
  deriving DecidableEq

/-- The events in which the strand starts a handler. -/
def Event.starts : Event → Bool
  | .startPosted => true
  | .startCompletion => true
  | _ => false

namespace Server

inductive Step (host : ByteOrder) : Server → ServerEvent → Server → Prop where
  /-- A peer connects, who will send `stream`. -/
  | accepted {sv : Server} {stream : Bytes} (hout : sv.accept = .outstanding)
      (hopen : sv.acceptorOpen = true) :
      Step host sv (.accepted stream) { sv with accept := .queued false stream }
  | acceptFails {sv : Server} (hout : sv.accept = .outstanding) :
      Step host sv .acceptFails { sv with accept := .queued true [] }
  | startAccept {sv : Server} {ec : Bool} {stream : Bytes} (hqueued : sv.accept = .queued ec stream)
      (hworker : sv.HasWorker) :
      Step host sv .startAccept { sv with accept := .checking ec stream }
  | acceptStep {sv : Server} {pc : Accept} (hpc : sv.accept = pc) (hrunning : pc.running = true)
      (hlock : (∃ i, pc = .adding i) → ¬ sv.Locked) : Step host sv .acceptStep (sv.acceptStep pc)
  /-- Who calls `Session::stop` has the session from the registry, or is its handler. -/
  | session {sv : Server} {i : Nat} {s s' : Session} {e : Event} (hs : sv.sessions[i]? = some s)
      (hstep : Session.Step host s e s') (hworker : e.starts = true → sv.HasWorker)
      (hlock : Removing s e → ¬ sv.Locked) (hadded : e = .requestStop → i ∈ sv.additions) :
      Step host sv (.session i e) (sv.sessionStep i s e s')
  | stopStep {sv : Server} {pc : Stopper} (hpc : sv.stopper = pc)
      (hmore : pc ≠ .returned) (hall : ∀ remaining, pc = .stopping remaining → remaining = ∅)
      (hjoin : pc = .joining → sv.busy = 0) : Step host sv .stopStep (sv.stopStep pc)
  | stopSession {sv : Server} {i : Nat} {remaining : Finset Nat}
      (hpc : sv.stopper = .stopping remaining) (hi : i ∈ remaining) :
      Step host sv (.stopSession i) (sv.stopSession i remaining)

end Server

end AsyncNet
