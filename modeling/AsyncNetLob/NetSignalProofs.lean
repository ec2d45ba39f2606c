import AsyncNetLob.NetShutdownProofs
import AsyncNetLob.NetSignal

/-! # `Server::stop` on one of its own workers

    The signal handler joins the workers in their order, its own thread among them.
    `Crewed` is the invariant of the process: every handler that is running is on one
    worker, and the loop has joined only threads that are over, so it has not passed its
    own place.  There `join` throws: `workerThreads_.clear()` and what follows in
    `Server::stop` is never reached (`reached_signal`).

    To the server it is as if `stop` had been called from outside, and waited
    (`Crewed.refines`): with the workers counted instead of named (`Crewed.busy`), a run
    of the process is one of `NetServer`. -/

namespace AsyncNet

open Transition

/-! ## What a step of the server does to the handlers -/

/-- The handler that the strand of session `i` runs. -/
def Server.handler (sv : Server) (i : Nat) : Option Handler :=
  sv.sessions[i]?.bind Session.running

section Handlers

variable {host : ByteOrder} {sv sv' : Server} {e : ServerEvent} {task : WorkerThread}

theorem handler_eq {i : Nat} {s : Session} (hs : sv.sessions[i]? = some s) :
    sv.handler i = s.running := by
  rw [Server.handler, hs, Option.bind_some]

theorem handles_serving (sv : Server) (i : Nat) :
    sv.Handles (.serving i) ↔ (sv.handler i).isSome = true := by
  constructor
  · rintro ⟨s, hs, hrunning⟩
    rw [handler_eq hs]
    exact hrunning
  · intro hsome
    cases hs : sv.sessions[i]? with
    | none =>
        rw [Server.handler, hs] at hsome
        cases hsome
    | some s =>
        rw [handler_eq hs] at hsome
        exact ⟨s, hs, hsome⟩

/-- One session was written. -/
theorem handler_set {i j : Nat} {s s' : Session} (hs : sv.sessions[i]? = some s)
    (hsessions : sv'.sessions = sv.sessions.set i s') :
    sv'.handler j = if j = i then s'.running else sv.handler j := by
  rw [Server.handler, hsessions]
  by_cases hji : j = i
  · obtain rfl := hji
    rw [if_pos rfl, List.getElem?_set_self (List.getElem?_eq_some_iff.mp hs).1, Option.bind_some]
  · rw [if_neg hji, List.getElem?_set_ne fun hij => hji hij.symm, Server.handler]

/-- A session changed, and its strand runs what it ran. -/
theorem handler_modify (f : Session → Session) (hf : ∀ s, (f s).running = s.running) (i j : Nat)
    (hsessions : sv'.sessions = sv.sessions.modify i f) : sv'.handler j = sv.handler j := by
  rw [Server.handler, hsessions, List.getElem?_modify, Server.handler]
  cases sv.sessions[j]? with
  | none => rfl
  | some s =>
      show ((if i = j then f s else s) : Session).running = s.running
      split
      · exact hf s
      · rfl

/-- A session was made, and its strand runs nothing. -/
theorem handler_concat {stream : Bytes} (j : Nat)
    (hsessions : sv'.sessions = sv.sessions ++ [Session.new stream]) :
    sv'.handler j = sv.handler j := by
  rw [Server.handler, hsessions, Server.handler]
  rcases Nat.lt_trichotomy j sv.sessions.length with hlt | heq | hgt
  · rw [List.getElem?_append_left hlt]
  · rw [heq, List.getElem?_concat_length, List.getElem?_eq_none (Nat.le_refl _)]
    rfl
  · rw [List.getElem?_eq_none (by rw [List.length_append, List.length_singleton]; omega),
      List.getElem?_eq_none (by omega)]

/-- The operations of the library do not touch what the strand runs. -/
theorem running_library {s s' : Session} {e : Event} (he : e.ofLibrary = true)
    (hstep : Session.Step host s e s') : s'.running = s.running := by
  cases hstep with
  | @readCompletes op => cases op <;> rfl
  | @readFails op => cases op <;> rfl
  | transmit => rfl
  | writeCompletes => rfl
  | writeFails => rfl
  | startPosted => cases he
  | startCompletion => cases he
  | resume => cases he
  | requestStop => cases he

/-- **ONE HANDLER A STEP**: a step of the server begins and ends no handler but the one it
    names. -/
theorem Server.Step.handles (hstep : Server.Step host sv e sv') (hbegun : e.begun ≠ some task)
    (hresumed : e.resumed ≠ some task) : sv'.Handles task ↔ sv.Handles task := by
  cases task with
  | idle => exact Iff.rfl
  | signalled => exact Iff.rfl
  | ended => exact Iff.rfl
  | accepting =>
      cases hstep with
      | accepted hout =>
          show Accept.running _ = true ↔ sv.accept.running = true
          rw [hout]
          exact Iff.rfl
      | acceptFails hout =>
          show Accept.running _ = true ↔ sv.accept.running = true
          rw [hout]
          exact Iff.rfl
      | startAccept => exact absurd rfl hbegun
      | acceptStep => exact absurd rfl hresumed
      | session =>
          rw [sessionStep_eq]
          exact Iff.rfl
      | @stopStep pc => cases pc <;> exact Iff.rfl
      | stopSession => exact Iff.rfl
  | serving i =>
      rw [handles_serving, handles_serving]
      have hsame : sv'.handler i = sv.handler i := by
        cases hstep with
        | accepted => rfl
        | acceptFails => rfl
        | startAccept => rfl
        | @acceptStep pc =>
            cases pc with
            | checking ec stream =>
                cases ec with
                | true => rfl
                | false => exact handler_concat i rfl
            | starting k => exact handler_modify Session.start (fun _ => rfl) k i rfl
            | ended => rfl
            | outstanding => rfl
            | queued => rfl
            | adding => rfl
            | rearming => rfl
        | @session k s s' e hs hsession =>
            rw [sessionStep_eq, handler_set hs rfl]
            by_cases hik : i = k
            · obtain rfl := hik
              rw [if_pos rfl, handler_eq hs]
              cases e with
              | readCompletes => exact running_library rfl hsession
              | readFails => exact running_library rfl hsession
              | transmit => exact running_library rfl hsession
              | writeCompletes => exact running_library rfl hsession
              | writeFails => exact running_library rfl hsession
              | startPosted => exact absurd rfl hbegun
              | startCompletion => exact absurd rfl hbegun
              | resume => exact absurd rfl hresumed
              | requestStop =>
                  cases hsession
                  rfl
            · rw [if_neg hik]
        | @stopStep pc => cases pc <;> rfl
        | @stopSession k => exact handler_modify Session.stop (fun _ => rfl) k i rfl
      rw [hsame]

/-- A handler that begins was not running. -/
theorem Server.Step.begun (hstep : Server.Step host sv e sv') (he : e.begun = some task) :
    ¬ sv.Handles task ∧ sv'.Handles task ∧ sv.ioStopped = false := by
  cases hstep with
  | startAccept hqueued hworker =>
      obtain rfl := Option.some.inj he
      refine ⟨?_, rfl, hworker.1⟩
      show ¬ sv.accept.running = true
      rw [hqueued]
      exact Bool.false_ne_true
  | @session i s s' e hs hsession hworker =>
      have hstarts : e.starts = true := by
        by_contra hno
        rw [ServerEvent.begun, if_neg hno] at he
        cases he
      rw [ServerEvent.begun, if_pos hstarts] at he
      obtain rfl := Option.some.inj he
      have hboth : s.running = none ∧ s'.running.isSome = true := by
        cases hsession with
        | startPosted hidle => exact ⟨hidle, rfl⟩
        | startCompletion hidle => exact ⟨hidle, rfl⟩
        | readCompletes => cases hstarts
        | readFails => cases hstarts
        | transmit => cases hstarts
        | writeCompletes => cases hstarts
        | writeFails => cases hstarts
        | resume => cases hstarts
        | requestStop => cases hstarts
      refine ⟨?_, ?_, (hworker hstarts).1⟩
      · rw [handles_serving, handler_eq hs, hboth.1]
        exact Bool.false_ne_true
      · rw [handles_serving, sessionStep_eq, handler_set hs rfl, if_pos rfl]
        exact hboth.2
  | accepted => cases he
  | acceptFails => cases he
  | acceptStep => cases he
  | stopStep => cases he
  | stopSession => cases he

/-- A handler that goes on was running. -/
theorem Server.Step.resumed (hstep : Server.Step host sv e sv') (he : e.resumed = some task) :
    sv.Handles task := by
  cases hstep with
  | acceptStep hpc hrunning =>
      obtain rfl := Option.some.inj he
      show sv.accept.running = true
      rw [hpc]
      exact hrunning
  | @session i s s' e hs hsession =>
      have hresume : e = .resume := by
        by_contra hno
        rw [ServerEvent.resumed, if_neg hno] at he
        cases he
      rw [ServerEvent.resumed, if_pos hresume] at he
      obtain rfl := Option.some.inj he
      obtain rfl := hresume
      cases hsession with
      | resume hrunning => exact ⟨s, hs, by rw [hrunning]; rfl⟩
  | accepted => cases he
  | acceptFails => cases he
  | startAccept => cases he
  | stopStep => cases he
  | stopSession => cases he

/-- What the worker of a step leaves alone. -/
theorem Server.Step.control (hstep : Server.Step host sv e sv') (he : e.ofStop = false) :
    sv'.stopper = sv.stopper ∧ sv'.isRunning = sv.isRunning ∧ sv'.acceptorOpen = sv.acceptorOpen
      ∧ sv'.ioStopped = sv.ioStopped := by
  cases hstep with
  | accepted => exact ⟨rfl, rfl, rfl, rfl⟩
  | acceptFails => exact ⟨rfl, rfl, rfl, rfl⟩
  | startAccept => exact ⟨rfl, rfl, rfl, rfl⟩
  | @acceptStep pc =>
      cases pc with
      | checking ec stream => cases ec <;> exact ⟨rfl, rfl, rfl, rfl⟩
      | ended => exact ⟨rfl, rfl, rfl, rfl⟩
      | outstanding => exact ⟨rfl, rfl, rfl, rfl⟩
      | queued => exact ⟨rfl, rfl, rfl, rfl⟩
      | adding => exact ⟨rfl, rfl, rfl, rfl⟩
      | starting => exact ⟨rfl, rfl, rfl, rfl⟩
      | rearming => exact ⟨rfl, rfl, rfl, rfl⟩
  | session =>
      rw [sessionStep_eq]
      exact ⟨rfl, rfl, rfl, rfl⟩
  | stopStep => cases he
  | stopSession => cases he

theorem Server.Step.threadPoolSize (hstep : Server.Step host sv e sv') :
    sv'.threadPoolSize = sv.threadPoolSize := by
  cases hstep with
  | accepted => rfl
  | acceptFails => rfl
  | startAccept => rfl
  | @acceptStep pc =>
      cases pc with
      | checking ec stream => cases ec <;> rfl
      | ended => rfl
      | outstanding => rfl
      | queued => rfl
      | adding => rfl
      | starting => rfl
      | rearming => rfl
  | session =>
      rw [sessionStep_eq]
  | @stopStep pc => cases pc <;> rfl
  | stopSession => rfl

/-- How far `Server::stop` is shows in what it writes. -/
structure Server.Commanded (sv : Server) : Prop where
  running : sv.isRunning = true ↔ sv.stopper = .notCalled
  closed  : sv.stopper = .acceptorClosed ∨ sv.stopper = .joining ∨ sv.stopper = .returned →
    sv.acceptorOpen = false
  stopped : sv.ioStopped = true ↔ sv.stopper = .joining ∨ sv.stopper = .returned

theorem Server.Commanded.step (h : sv.Commanded) (hstep : Server.Step host sv e sv') :
    sv'.Commanded := by
  cases hstop : e.ofStop with
  | false =>
      obtain ⟨hstopper, hrunning, hopen, hio⟩ := hstep.control hstop
      constructor
      case running => rw [hrunning, hstopper]; exact h.running
      case closed => rw [hstopper, hopen]; exact h.closed
      case stopped => rw [hio, hstopper]; exact h.stopped
  | true =>
      cases hstep with
      | accepted => cases hstop
      | acceptFails => cases hstop
      | startAccept => cases hstop
      | acceptStep => cases hstop
      | session => cases hstop
      | @stopStep pc hpc hmore =>
          obtain ⟨hrunning, hclosed, hstopped⟩ := h
          rw [hpc] at hrunning hclosed hstopped
          cases pc with
          | notCalled =>
              refine ⟨by simp [Server.stopStep], by simp [Server.stopStep], ?_⟩
              show sv.ioStopped = true ↔ _
              simpa [Server.stopStep] using hstopped
          | flagged =>
              constructor
              case running => simpa [Server.stopStep] using hrunning
              case closed => simp [Server.stopStep]
              case stopped => simpa [Server.stopStep] using hstopped
          | stopping remaining =>
              constructor
              case running => simpa [Server.stopStep] using hrunning
              case closed => simp [Server.stopStep]
              case stopped => simpa [Server.stopStep] using hstopped
          | cleared =>
              constructor
              case running => simpa [Server.stopStep] using hrunning
              case closed => simp [Server.stopStep]
              case stopped => simpa [Server.stopStep] using hstopped
          | acceptorClosed =>
              constructor
              case running => simpa [Server.stopStep] using hrunning
              case closed => simpa [Server.stopStep] using hclosed
              case stopped => simp [Server.stopStep]
          | joining =>
              constructor
              case running => simpa [Server.stopStep] using hrunning
              case closed => simpa [Server.stopStep] using hclosed
              case stopped => simpa [Server.stopStep] using hstopped
          | returned => exact absurd rfl hmore
      | stopSession hpc =>
          obtain ⟨hrunning, hclosed, hstopped⟩ := h
          rw [hpc] at hrunning hclosed hstopped
          constructor
          case running => simpa [Server.stopSession] using hrunning
          case closed => simp [Server.stopSession]
          case stopped => simpa [Server.stopSession] using hstopped

end Handlers

/-! ## The crew -/

/-- A worker in a handler of the server. -/
def WorkerThread.OfServer : WorkerThread → Prop
  | .accepting => True
  | .serving _ => True
  | _ => False

/-- What the signal handler has behind it. -/
def Signal.Course (p : Process) : Signal → Prop
  | .waiting => p.server.stopper = .notCalled
  | .raised => p.server.stopper = .notCalled
  | .stopping _ => p.server.stopper ≠ .joining ∧ p.server.stopper ≠ .returned
  | .joining k j => p.server.stopper = .joining ∧ j ≤ k
      ∧ ∀ i < j, p.workerThreads[i]? = some .ended
  | .threw k => p.server.stopper = .joining ∧ ∀ i ≤ k, p.workerThreads[i]? = some .ended
  | .returned => False

/-- The invariant of the process. -/
structure Crewed (p : Process) : Prop where
  size      : p.workerThreads.length = p.server.threadPoolSize
  /-- A handler that is running is on one worker. -/
  crew      : ∀ task : WorkerThread, task.OfServer →
    p.workerThreads.count task = if p.server.Handles task then 1 else 0
  signalled : ∀ w, p.workerThreads[w]? = some .signalled ↔ p.signal.worker = some w
  hale      : p.server.ioStopped = false → .ended ∉ p.workerThreads
  commanded : p.server.Commanded
  course    : p.signal.Course p

section Crew

variable {host : ByteOrder} {p q : Process} {w : Nat} {x y task : WorkerThread}

theorem Crewed.launched (threadPoolSize : Nat) : Crewed (Process.launched threadPoolSize) where
  size := List.length_replicate
  crew := by
    intro task htask
    have hno : ¬ (Server.started threadPoolSize).Handles task := by
      cases task with
      | accepting => exact Bool.false_ne_true
      | serving i =>
          rintro ⟨s, hs, -⟩
          cases hs
      | idle => exact id
      | signalled => exact id
      | ended => exact id
    show (List.replicate threadPoolSize .idle).count task
      = if (Server.started threadPoolSize).Handles task then 1 else 0
    rw [List.count_replicate, if_neg, if_neg hno]
    rintro hidle
    obtain rfl := eq_of_beq hidle
    exact htask
  signalled := by
    intro w
    constructor
    · intro hw
      cases List.eq_of_mem_replicate (List.mem_of_getElem? hw)
    · intro hw
      cases hw
  hale := fun _ hmem => by cases List.eq_of_mem_replicate hmem
  commanded := by
    refine ⟨iff_of_true rfl rfl, ?_, ?_⟩
    · rintro (h | h | h)
      · cases h
      · cases h
      · cases h
    · refine iff_of_false Bool.false_ne_true ?_
      rintro (h | h)
      · cases h
      · cases h
  course := rfl

/-- The number of workers at one place, after one worker went on. -/
theorem count_set_worker {l : List WorkerThread} (hw : l[w]? = some x) (y task : WorkerThread) :
    (l.set w y).count task + (if x = task then 1 else 0)
      = l.count task + if y = task then 1 else 0 := by
  obtain ⟨hlt, hx⟩ := List.getElem?_eq_some_iff.mp hw
  rw [List.count_set hlt, hx]
  have hpos : x = task → 0 < l.count task := by
    rintro rfl
    exact List.count_pos_iff.mpr (List.mem_of_getElem? hw)
  by_cases hxt : x = task
  · have := hpos hxt
    simp only [hxt, beq_self_eq_true, if_true, beq_iff_eq]
    omega
  · simp only [hxt, beq_iff_eq, if_false]
    omega

theorem count_set_other {l : List WorkerThread} (hw : l[w]? = some x) (hx : x ≠ task)
    (hy : y ≠ task) : (l.set w y).count task = l.count task := by
  have hcount := count_set_worker hw y task
  rw [if_neg hx, if_neg hy] at hcount
  exact hcount

/-- A worker at a place that no other worker went to or left. -/
theorem getElem?_set_worker {l : List WorkerThread} (hw : l[w]? = some x) (hx : x ≠ task)
    (hy : y ≠ task) (v : Nat) : (l.set w y)[v]? = some task ↔ l[v]? = some task := by
  by_cases hvw : v = w
  · obtain rfl := hvw
    rw [List.getElem?_set_self (List.getElem?_eq_some_iff.mp hw).1, hw]
    exact iff_of_false (fun h => hy (Option.some.inj h)) fun h => hx (Option.some.inj h)
  · rw [List.getElem?_set_ne fun hwv => hvw hwv.symm]

theorem next_cases (sv : Server) (task : WorkerThread) :
    task.next sv = task ∧ sv.Handles task ∨ task.next sv = .idle ∧ ¬ sv.Handles task := by
  rw [WorkerThread.next]
  split
  · exact Or.inl ⟨rfl, ‹_›⟩
  · exact Or.inr ⟨rfl, ‹_›⟩

/-- The course of the signal handler depends on `Server::stop` and on who has ended. -/
theorem Signal.Course.mono {signal : Signal} (h : signal.Course p)
    (hstopper : q.server.stopper = p.server.stopper)
    (hended : ∀ v : Nat, p.workerThreads[v]? = some .ended → q.workerThreads[v]? = some .ended) :
    signal.Course q := by
  cases signal with
  | waiting => exact hstopper.trans h
  | raised => exact hstopper.trans h
  | stopping k =>
      show _ ≠ _ ∧ _ ≠ _
      rw [hstopper]
      exact h
  | joining k j => exact ⟨hstopper.trans h.1, h.2.1, fun i hi => hended i (h.2.2 i hi)⟩
  | threw k => exact ⟨hstopper.trans h.1, fun i hi => hended i (h.2 i hi)⟩
  | returned => exact h

theorem ServerEvent.ofStop_of_begun {e : ServerEvent} (he : e.begun = some task) :
    e.ofStop = false ∧ task.OfServer := by
  cases e with
  | startAccept =>
      obtain rfl := Option.some.inj he
      exact ⟨rfl, trivial⟩
  | session i e =>
      rw [ServerEvent.begun] at he
      split at he
      · obtain rfl := Option.some.inj he
        exact ⟨rfl, trivial⟩
      · cases he
  | accepted => cases he
  | acceptFails => cases he
  | acceptStep => cases he
  | stopStep => cases he
  | stopSession => cases he

theorem ServerEvent.ofStop_of_resumed {e : ServerEvent} (he : e.resumed = some task) :
    e.ofStop = false ∧ e.begun = none ∧ task.OfServer := by
  cases e with
  | acceptStep =>
      obtain rfl := Option.some.inj he
      exact ⟨rfl, rfl, trivial⟩
  | session i e =>
      rw [ServerEvent.resumed] at he
      split at he
      · obtain rfl := Option.some.inj he
        obtain rfl := ‹e = .resume›
        exact ⟨rfl, rfl, trivial⟩
      · cases he
  | accepted => cases he
  | acceptFails => cases he
  | startAccept => cases he
  | stopStep => cases he
  | stopSession => cases he

theorem ServerEvent.of_ofLibrary {e : ServerEvent} (he : e.ofLibrary = true) :
    e.ofStop = false ∧ e.begun = none ∧ e.resumed = none := by
  cases e with
  | accepted => exact ⟨rfl, rfl, rfl⟩
  | acceptFails => exact ⟨rfl, rfl, rfl⟩
  | session i e =>
      cases e with
      | readCompletes => exact ⟨rfl, rfl, rfl⟩
      | readFails => exact ⟨rfl, rfl, rfl⟩
      | transmit => exact ⟨rfl, rfl, rfl⟩
      | writeCompletes => exact ⟨rfl, rfl, rfl⟩
      | writeFails => exact ⟨rfl, rfl, rfl⟩
      | startPosted => cases he
      | startCompletion => cases he
      | resume => cases he
      | requestStop => cases he
  | startAccept => cases he
  | acceptStep => cases he
  | stopStep => cases he
  | stopSession => cases he

theorem ServerEvent.of_ofStop {e : ServerEvent} (he : e.ofStop = true) :
    e.begun = none ∧ e.resumed = none := by
  cases e with
  | stopStep => exact ⟨rfl, rfl⟩
  | stopSession => exact ⟨rfl, rfl⟩
  | accepted => cases he
  | acceptFails => cases he
  | startAccept => cases he
  | acceptStep => cases he
  | session => cases he

/-- What is neither the signal handler's nor over. -/
theorem WorkerThread.OfServer.ne (h : task.OfServer) :
    task ≠ .idle ∧ task ≠ .signalled ∧ task ≠ .ended := by
  refine ⟨?_, ?_, ?_⟩
  · rintro rfl
    exact h
  · rintro rfl
    exact h
  · rintro rfl
    exact h

/-- A worker goes on in the server. -/
theorem Crewed.moved (h : Crewed p) {e : ServerEvent} {sv : Server}
    (hw : p.workerThreads[w]? = some x) (hx : x = .idle ∨ x.OfServer) (hy : y = .idle ∨ y.OfServer)
    (hstep : Server.Step host p.server e sv) (hstop : e.ofStop = false)
    (hcrew : ∀ task : WorkerThread, task.OfServer →
      (p.workerThreads.set w y).count task = if sv.Handles task then 1 else 0) :
    Crewed { p with server := sv, workerThreads := p.workerThreads.set w y } := by
  have hno : ∀ z : WorkerThread, z = .idle ∨ z.OfServer → z ≠ .signalled ∧ z ≠ .ended := by
    rintro z (rfl | hz)
    · exact ⟨WorkerThread.noConfusion, WorkerThread.noConfusion⟩
    · exact hz.ne.2
  obtain ⟨hstopper, -, -, hio⟩ := hstep.control hstop
  have hended := getElem?_set_worker hw (hno x hx).2 (hno y hy).2
  refine ⟨?_, hcrew, ?_, ?_, h.commanded.step hstep, ?_⟩
  · show (p.workerThreads.set w y).length = sv.threadPoolSize
    rw [List.length_set, hstep.threadPoolSize]
    exact h.size
  · intro v
    rw [← h.signalled v]
    exact getElem?_set_worker hw (hno x hx).1 (hno y hy).1 v
  · intro hrunning hmem
    obtain ⟨v, hv⟩ := List.mem_iff_getElem?.mp hmem
    exact h.hale (hio.symm.trans hrunning) (List.mem_of_getElem? ((hended v).mp hv))
  · exact h.course.mono hstopper fun v hv => (hended v).mpr hv

/-- A worker takes a handler. -/
theorem Crewed.begin (h : Crewed p) {e : ServerEvent} {sv : Server} (he : e.begun = some task)
    (hw : p.workerThreads[w]? = some .idle) (hstep : Server.Step host p.server e sv) :
    Crewed { p with server := sv, workerThreads := p.workerThreads.set w task } := by
  obtain ⟨hstop, htask⟩ := ServerEvent.ofStop_of_begun he
  obtain ⟨hbefore, hafter, -⟩ := hstep.begun he
  refine h.moved hw (Or.inl rfl) (Or.inr htask) hstep hstop fun other hother => ?_
  have hwas := h.crew other hother
  by_cases hsame : task = other
  · obtain rfl := hsame
    have hcount := count_set_worker hw task task
    rw [if_neg hother.ne.1.symm, if_pos rfl, hwas, if_neg hbefore] at hcount
    rw [if_pos hafter]
    exact hcount
  · have hresumed : e.resumed ≠ some other := by
      intro hresumed
      cases (ServerEvent.ofStop_of_resumed hresumed).2.1.symm.trans he
    rw [count_set_other hw hother.ne.1.symm hsame, hwas]
    simp only [hstep.handles (fun hb => hsame (Option.some.inj (he.symm.trans hb))) hresumed]

/-- A worker goes on with its handler, or is done with it. -/
theorem Crewed.resume (h : Crewed p) {e : ServerEvent} {sv : Server} (he : e.resumed = some task)
    (hw : p.workerThreads[w]? = some task) (hstep : Server.Step host p.server e sv) :
    Crewed { p with server := sv, workerThreads := p.workerThreads.set w (task.next sv) } := by
  obtain ⟨hstop, hbegun, htask⟩ := ServerEvent.ofStop_of_resumed he
  have hrunning := hstep.resumed he
  have hnext : task.next sv = .idle ∨ (task.next sv).OfServer := by
    rcases next_cases sv task with ⟨hnext, -⟩ | ⟨hnext, -⟩
    · exact Or.inr (by rw [hnext]; exact htask)
    · exact Or.inl hnext
  refine h.moved hw (Or.inr htask) hnext hstep hstop fun other hother => ?_
  have hwas := h.crew other hother
  by_cases hsame : task = other
  · obtain rfl := hsame
    have hcount := count_set_worker hw (task.next sv) task
    rw [if_pos rfl, hwas, if_pos hrunning] at hcount
    rcases next_cases sv task with ⟨hnext, hhandles⟩ | ⟨hnext, hhandles⟩
    · rw [if_pos hnext] at hcount
      rw [if_pos hhandles]
      omega
    · rw [if_neg (by rw [hnext]; exact htask.ne.1.symm)] at hcount
      rw [if_neg hhandles]
      omega
  · have hother' : task.next sv ≠ other := by
      rcases next_cases sv task with ⟨hnext, -⟩ | ⟨hnext, -⟩
      · rw [hnext]
        exact hsame
      · rw [hnext]
        exact hother.ne.1.symm
    rw [count_set_other hw hsame hother', hwas]
    have hresumed : e.resumed ≠ some other := fun hr => hsame (Option.some.inj (he.symm.trans hr))
    simp only [hstep.handles (by rw [hbegun]; exact (Option.some_ne_none _).symm) hresumed]

/-- A step of the server that no worker of it takes. -/
theorem Crewed.crew_other (h : Crewed p) {e : ServerEvent} {sv : Server}
    (hstep : Server.Step host p.server e sv) (hbegun : e.begun = none) (hresumed : e.resumed = none)
    (task : WorkerThread) (htask : task.OfServer) :
    p.workerThreads.count task = if sv.Handles task then 1 else 0 := by
  have hsame : sv.Handles task ↔ p.server.Handles task := by
    refine hstep.handles ?_ ?_
    · rw [hbegun]
      exact (Option.some_ne_none task).symm
    · rw [hresumed]
      exact (Option.some_ne_none task).symm
  rw [h.crew task htask]
  simp only [hsame]

/-- A worker takes the signal handler, or is over: no handler of the server is touched. -/
theorem Crewed.crew_set (h : Crewed p) (hw : p.workerThreads[w]? = some x) (hx : ¬ x.OfServer)
    (hy : ¬ y.OfServer) (task : WorkerThread) (htask : task.OfServer) :
    (p.workerThreads.set w y).count task = if p.server.Handles task then 1 else 0 := by
  rw [count_set_other hw ?_ ?_]
  · exact h.crew task htask
  · rintro rfl
    exact hx htask
  · rintro rfl
    exact hy htask

/-- Before `ioContext_.stop()` nobody has joined. -/
theorem Crewed.running (h : Crewed p) {k : Nat} (hsignal : p.signal = .stopping k) :
    p.server.ioStopped = false := by
  have hcourse := h.course
  rw [hsignal] at hcourse
  cases hio : p.server.ioStopped with
  | false => rfl
  | true => exact absurd (h.commanded.stopped.mp hio) (not_or.mpr hcourse)

theorem Crewed.beginStop (h : Crewed p) (hsignal : p.signal = .raised)
    (hw : p.workerThreads[w]? = some .idle) (hio : p.server.ioStopped = false) :
    Crewed { p with workerThreads := p.workerThreads.set w .signalled, signal := .stopping w } := by
  have hcourse := h.course
  rw [hsignal] at hcourse
  have hended : ∀ v : Nat, (p.workerThreads.set w .signalled)[v]? = some .ended
      ↔ p.workerThreads[v]? = some .ended :=
    getElem?_set_worker hw WorkerThread.noConfusion WorkerThread.noConfusion
  refine ⟨List.length_set.trans h.size, h.crew_set hw id id, ?_, ?_, h.commanded, ?_⟩
  · intro v
    show (p.workerThreads.set w .signalled)[v]? = some .signalled ↔ some w = some v
    rw [Option.some_inj, List.getElem?_set]
    by_cases hwv : w = v
    · obtain rfl := hwv
      rw [if_pos rfl, if_pos (List.getElem?_eq_some_iff.mp hw).1]
      exact iff_of_true rfl rfl
    · -- no other worker is in the signal handler
      rw [if_neg hwv, h.signalled v, hsignal]
      exact iff_of_false (Option.some_ne_none _).symm hwv
  · intro _ hmem
    obtain ⟨v, hv⟩ := List.mem_iff_getElem?.mp hmem
    exact h.hale hio (List.mem_of_getElem? ((hended v).mp hv))
  · show p.server.stopper ≠ .joining ∧ p.server.stopper ≠ .returned
    have hcalled : p.server.stopper = .notCalled := hcourse
    rw [hcalled]
    exact ⟨Stopper.noConfusion, Stopper.noConfusion⟩

/-- `Server::stop` goes on, and comes to its loop. -/
theorem Crewed.stop (h : Crewed p) {k : Nat} {e : ServerEvent} {sv : Server}
    (hsignal : p.signal = .stopping k) (he : e.ofStop = true)
    (hstep : Server.Step host p.server e sv) :
    Crewed { p with
      server := sv, signal := if sv.stopper = .joining then .joining k 0 else .stopping k } := by
  have hcourse := h.course
  rw [hsignal] at hcourse
  obtain ⟨hbegun, hresumed⟩ := ServerEvent.of_ofStop he
  refine ⟨h.size.trans hstep.threadPoolSize.symm, h.crew_other hstep hbegun hresumed, ?_, ?_,
    h.commanded.step hstep, ?_⟩
  · intro v
    have hworker : (if sv.stopper = .joining then Signal.joining k 0 else .stopping k).worker
        = some k := by
      split
      · rfl
      · rfl
    have hwas := h.signalled v
    rw [hsignal] at hwas
    show _ ↔ Signal.worker _ = some v
    rw [hworker]
    exact hwas
  · exact fun _ => h.hale (h.running hsignal)
  · show Signal.Course _ (if sv.stopper = .joining then .joining k 0 else .stopping k)
    split
    · exact ⟨‹_›, Nat.zero_le k, fun i hi => absurd hi (Nat.not_lt_zero i)⟩
    · refine ⟨‹_›, ?_⟩
      show sv.stopper ≠ .returned
      -- `stop` returns behind the loop only
      cases hstep with
      | accepted => cases he
      | acceptFails => cases he
      | startAccept => cases he
      | acceptStep => cases he
      | session => cases he
      | @stopStep pc hpc =>
          cases pc with
          | joining => exact absurd hpc hcourse.1
          | returned => exact absurd hpc hcourse.2
          | notCalled => exact Stopper.noConfusion
          | flagged => exact Stopper.noConfusion
          | stopping => exact Stopper.noConfusion
          | cleared => exact Stopper.noConfusion
          | acceptorClosed => exact Stopper.noConfusion
      | stopSession => exact Stopper.noConfusion

/-- The loop does not pass its own thread. -/
theorem Crewed.join (h : Crewed p) {k j : Nat} (hsignal : p.signal = .joining k j)
    (hended : p.workerThreads[j]? = some .ended) :
    Crewed { p with signal := .joining k (j + 1) } := by
  have hcourse := h.course
  rw [hsignal] at hcourse
  obtain ⟨hjoining, hle, hall⟩ := hcourse
  have hself : p.workerThreads[k]? = some .signalled := (h.signalled k).mpr (by rw [hsignal]; rfl)
  have hne : j ≠ k := by
    rintro rfl
    cases hself.symm.trans hended
  refine ⟨h.size, h.crew, ?_, h.hale, h.commanded, hjoining, by omega, ?_⟩
  · intro v
    have hwas := h.signalled v
    rw [hsignal] at hwas
    exact hwas
  · intro i hi
    rcases Nat.lt_succ_iff_lt_or_eq.mp hi with hlt | rfl
    · exact hall i hlt
    · exact hended

/-- The exception ends the worker. -/
theorem Crewed.deadlock (h : Crewed p) {k : Nat} (hsignal : p.signal = .joining k k) :
    Crewed { p with workerThreads := p.workerThreads.set k .ended, signal := .threw k } := by
  have hcourse := h.course
  rw [hsignal] at hcourse
  obtain ⟨hjoining, -, hall⟩ := hcourse
  have hself : p.workerThreads[k]? = some .signalled := (h.signalled k).mpr (by rw [hsignal]; rfl)
  have hlt := (List.getElem?_eq_some_iff.mp hself).1
  refine ⟨List.length_set.trans h.size, h.crew_set hself id id, ?_, ?_, h.commanded, hjoining, ?_⟩
  · intro v
    refine iff_of_false ?_ (Option.some_ne_none _).symm
    show ¬ (p.workerThreads.set k .ended)[v]? = some .signalled
    intro hv
    rcases getElem?_set_cases hv with ⟨-, hv⟩ | ⟨hvk, hv⟩
    · cases hv
    · have hworker := (h.signalled v).mp hv
      rw [hsignal] at hworker
      exact hvk (Option.some.inj hworker).symm
  · intro hrunning
    have hstopped := h.commanded.stopped.mpr (Or.inl hjoining)
    cases hstopped.symm.trans hrunning
  · intro i hi
    show (p.workerThreads.set k .ended)[i]? = some .ended
    rcases Nat.lt_or_eq_of_le hi with hik | rfl
    · rw [List.getElem?_set_ne (Nat.ne_of_gt hik)]
      exact hall i hik
    · exact List.getElem?_set_self hlt

/-- A worker that finds `ioContext_` stopped is over. -/
theorem Crewed.leave (h : Crewed p) (hw : p.workerThreads[w]? = some .idle)
    (hio : p.server.ioStopped = true) :
    Crewed { p with workerThreads := p.workerThreads.set w .ended } := by
  refine ⟨List.length_set.trans h.size, h.crew_set hw id id, ?_, ?_, h.commanded, ?_⟩
  · intro v
    rw [← h.signalled v]
    exact getElem?_set_worker hw WorkerThread.noConfusion WorkerThread.noConfusion v
  · intro hrunning
    cases hio.symm.trans hrunning
  · refine h.course.mono rfl fun v hv => ?_
    show (p.workerThreads.set w .ended)[v]? = some .ended
    have hwv : w ≠ v := by
      rintro rfl
      cases hw.symm.trans hv
    rw [List.getElem?_set_ne hwv]
    exact hv

/-- **ONE STEP** of the process. -/
theorem Crewed.step (h : Crewed p) {e : ProcessEvent} (hstep : Process.Step host p e q) :
    Crewed q := by
  have hcourse := h.course
  cases hstep with
  | library he hserver =>
      obtain ⟨hstop, hbegun, hresumed⟩ := ServerEvent.of_ofLibrary he
      obtain ⟨hstopper, -, -, hio⟩ := hserver.control hstop
      refine ⟨h.size.trans hserver.threadPoolSize.symm, h.crew_other hserver hbegun hresumed,
        h.signalled, ?_, h.commanded.step hserver, h.course.mono hstopper fun _ hv => hv⟩
      exact fun hrunning => h.hale (hio.symm.trans hrunning)
  | begin he hw hserver => exact h.begin he hw hserver
  | resume he hw hserver => exact h.resume he hw hserver
  | raise hsignal =>
      rw [hsignal] at hcourse
      refine ⟨h.size, h.crew, ?_, h.hale, h.commanded, hcourse⟩
      intro v
      have hwas := h.signalled v
      rw [hsignal] at hwas
      exact hwas
  | beginStop hsignal hw hio => exact h.beginStop hsignal hw hio
  | stop hsignal he _ _ hserver => exact h.stop hsignal he hserver
  | alreadyStopped _ hcalled hnot =>
      cases hnot.symm.trans (h.commanded.running.mpr hcalled)
  | join hsignal hended => exact h.join hsignal hended
  | deadlock hsignal => exact h.deadlock hsignal
  | finish hsignal hall =>
      -- its own place lies before the end of the list
      rw [hsignal] at hcourse
      have hself := (h.signalled _).mpr (by rw [hsignal]; rfl)
      have hlt := (List.getElem?_eq_some_iff.mp hself).1
      have hle := hcourse.2.1
      omega
  | leave hw hio => exact h.leave hw hio

/-- No worker is lost. -/
theorem Crewed.length_step (h : Crewed p) {e : ProcessEvent} (hstep : Process.Step host p e q) :
    q.workerThreads.length = p.workerThreads.length := by
  have hcourse := (h.step hstep).course
  cases hstep with
  | library => rfl
  | begin => exact List.length_set
  | resume => exact List.length_set
  | raise => rfl
  | beginStop => exact List.length_set
  | stop => rfl
  | alreadyStopped => exact absurd hcourse id
  | join => rfl
  | deadlock => exact List.length_set
  | finish => exact absurd hcourse id
  | leave => exact List.length_set

theorem Crewed.run (h : Crewed p) {es : List ProcessEvent}
    (hrun : Run (Process.Step host) p es q) : Crewed q :=
  hrun.invariant (fun _ _ _ hstep hp => Crewed.step hp hstep) h

theorem Crewed.run_length (h : Crewed p) {es : List ProcessEvent}
    (hrun : Run (Process.Step host) p es q) :
    q.workerThreads.length = p.workerThreads.length := by
  have hguarded := hrun.guarded (I := Crewed) (fun _ _ _ hstep hp => Crewed.step hp hstep) h
  refine hguarded.invariant (I := fun q => q.workerThreads.length = p.workerThreads.length) ?_ rfl
  rintro s e s' ⟨hstep, hs⟩ hlength
  exact (hs.length_step hstep).trans hlength

/-! ## The counted workers of the server -/

instance (task : WorkerThread) : Decidable task.OfServer :=
  match task with
  | .accepting => .isTrue trivial
  | .serving _ => .isTrue trivial
  | .idle => .isFalse id
  | .signalled => .isFalse id
  | .ended => .isFalse id

/-- The handlers that are running. -/
def Server.tasks (sv : Server) : List WorkerThread :=
  (if sv.accept.running then [.accepting] else [])
    ++ ((List.range sv.sessions.length).filter fun i => (sv.handler i).isSome).map .serving

/-- Choosing places and choosing elements. -/
theorem length_filter_range {α β : Type} (f : α → Option β) (l : List α) :
    ((List.range l.length).filter fun i => (l[i]?.bind f).isSome).length
      = (l.filter fun a => (f a).isSome).length := by
  induction l using List.reverseRecOn with
  | nil => rfl
  | append_singleton l a ih =>
      have hold : (List.range l.length).filter (fun i => ((l ++ [a])[i]?.bind f).isSome)
          = (List.range l.length).filter fun i => (l[i]?.bind f).isSome := by
        apply List.filter_congr
        intro i hi
        rw [List.getElem?_append_left (List.mem_range.mp hi)]
      rw [List.length_append, List.length_singleton, List.range_succ, List.filter_append,
        List.filter_append, List.length_append, List.length_append, hold, ih,
        List.filter_singleton, List.filter_singleton, List.getElem?_concat_length,
        Option.bind_some]
      cases (f a).isSome with
      | true => rfl
      | false => rfl

theorem length_tasks (sv : Server) : sv.tasks.length = sv.busy := by
  have hplaces := length_filter_range Session.running sv.sessions
  rw [Server.tasks, List.length_append, List.length_map, Server.busy]
  show _ + ((List.range sv.sessions.length).filter
    fun i => (sv.sessions[i]?.bind Session.running).isSome).length = _
  rw [hplaces, Nat.add_comm]
  split
  · rfl
  · rfl

theorem mem_tasks (sv : Server) (task : WorkerThread) :
    task ∈ sv.tasks ↔ task.OfServer ∧ sv.Handles task := by
  rw [Server.tasks, List.mem_append, List.mem_map]
  cases task with
  | accepting =>
      constructor
      · rintro (h | ⟨i, -, hi⟩)
        · split at h
          · exact ⟨trivial, ‹_›⟩
          · cases h
        · cases hi
      · rintro ⟨-, hrunning⟩
        have hrunning' : sv.accept.running = true := hrunning
        rw [if_pos hrunning']
        exact Or.inl (List.mem_singleton_self _)
  | serving i =>
      rw [handles_serving]
      constructor
      · rintro (h | ⟨j, hj, hji⟩)
        · split at h
          · cases List.mem_singleton.mp h
          · cases h
        · obtain rfl := WorkerThread.serving.inj hji
          exact ⟨trivial, (List.mem_filter.mp hj).2⟩
      · rintro ⟨-, hrunning⟩
        refine Or.inr ⟨i, List.mem_filter.mpr ⟨List.mem_range.mpr ?_, hrunning⟩, rfl⟩
        by_contra hge
        rw [Server.handler, List.getElem?_eq_none (Nat.not_lt.mp hge)] at hrunning
        cases hrunning
  | idle => exact iff_of_false (by split <;> simp) fun h => h.1
  | signalled => exact iff_of_false (by split <;> simp) fun h => h.1
  | ended => exact iff_of_false (by split <;> simp) fun h => h.1

theorem nodup_tasks (sv : Server) : sv.tasks.Nodup := by
  rw [Server.tasks]
  refine List.Nodup.append ?_ ?_ ?_
  · split
    · exact List.nodup_singleton _
    · exact List.nodup_nil
  · refine (List.nodup_range.filter _).map ?_
    intro i j hij
    exact WorkerThread.serving.inj hij
  · intro task hone hother
    obtain ⟨i, -, rfl⟩ := List.mem_map.mp hother
    split at hone
    · cases List.mem_singleton.mp hone
    · cases hone

/-- **AS MANY WORKERS** are in handlers as the server counts. -/
theorem Crewed.busy (h : Crewed p) :
    p.server.busy = (p.workerThreads.filter fun task => task.OfServer).length := by
  rw [← length_tasks]
  refine List.Perm.length_eq ((List.perm_ext_iff_of_nodup (nodup_tasks p.server) ?_).mpr ?_)
  · rw [List.nodup_iff_count_le_one]
    intro task
    by_cases htask : task.OfServer
    · rw [List.count_filter (by simpa using htask), h.crew task htask]
      split
      · exact Nat.le_refl 1
      · exact Nat.zero_le 1
    · rw [List.count_eq_zero_of_not_mem fun hmem => htask (by simpa using (List.mem_filter.mp hmem).2)]
      exact Nat.zero_le 1
  · intro task
    rw [mem_tasks, List.mem_filter, decide_eq_true_eq, and_comm]
    refine and_congr_left fun htask => ?_
    rw [← List.count_pos_iff, h.crew task htask]
    split
    · exact iff_of_true ‹_› Nat.one_pos
    · exact iff_of_false ‹_› (Nat.lt_irrefl 0)

/-! ## `Server::stop` does not return -/

/-- The step of the server that a step of the process is. -/
def ProcessEvent.server : ProcessEvent → Option ServerEvent
  | .library e => some e
  | .begin _ e => some e
  | .resume _ e => some e
  | .stop e => some e
  | _ => none

/-- A run of the process is one of the server. -/
theorem Crewed.refines (h : Crewed p) {es : List ProcessEvent}
    (hrun : Run (Process.Step host) p es q) :
    Run (Server.Step host) p.server (es.filterMap ProcessEvent.server) q.server := by
  have hguarded := hrun.guarded (I := Crewed) (fun _ _ _ hstep hp => Crewed.step hp hstep) h
  refine hguarded.refines Process.server ProcessEvent.server ?_
  rintro s e s' ⟨hstep, hs⟩
  constructor
  · intro d hd
    cases hstep with
    | library _ hserver => exact Option.some.inj hd ▸ hserver
    | begin _ _ hserver => exact Option.some.inj hd ▸ hserver
    | resume _ _ hserver => exact Option.some.inj hd ▸ hserver
    | stop _ _ _ _ hserver => exact Option.some.inj hd ▸ hserver
    | raise => cases hd
    | beginStop => cases hd
    | alreadyStopped => cases hd
    | join => cases hd
    | deadlock => cases hd
    | finish => cases hd
    | leave => cases hd
  · intro hnone
    have hs' := hs.step hstep
    cases hstep with
    | library => cases hnone
    | begin => cases hnone
    | resume => cases hnone
    | stop => cases hnone
    | finish => exact absurd hs'.course id
    | raise => rfl
    | beginStop => rfl
    | alreadyStopped => rfl
    | join => rfl
    | deadlock => rfl
    | leave => rfl

/-- `Server::stop`, called by the signal handler, in a run `es`. -/
structure SelfJoined (host : ByteOrder) (threadPoolSize : Nat) (es : List ProcessEvent)
    (p : Process) : Prop where
  /-- The server runs as if `stop` were called from outside and waited for the workers. -/
  server  : Run (Server.Step host) (Server.started threadPoolSize)
    (es.filterMap ProcessEvent.server) p.server
  manned  : p.workerThreads.length = threadPoolSize
    ∧ p.server.busy = (p.workerThreads.filter fun task => task.OfServer).length
  never   : p.signal ≠ .returned ∧ p.server.stopper ≠ .returned
  /-- The threads before `j` have been joined. -/
  joining : ∀ k j, p.signal = .joining k j → j ≤ k ∧ k < threadPoolSize
    ∧ p.workerThreads[k]? = some .signalled ∧ ∀ i < j, p.workerThreads[i]? = some .ended
  threw   : ∀ k, p.signal = .threw k → k < threadPoolSize ∧ p.server.isRunning = false
    ∧ p.server.acceptorOpen = false ∧ p.server.ioStopped = true
    ∧ ∀ i ≤ k, p.workerThreads[i]? = some .ended

theorem Crewed.stopper_ne (h : Crewed p) : p.server.stopper ≠ .returned := by
  have hcourse := h.course
  cases hsignal : p.signal with
  | waiting =>
      rw [hsignal] at hcourse
      rw [show p.server.stopper = .notCalled from hcourse]
      exact Stopper.noConfusion
  | raised =>
      rw [hsignal] at hcourse
      rw [show p.server.stopper = .notCalled from hcourse]
      exact Stopper.noConfusion
  | stopping k =>
      rw [hsignal] at hcourse
      exact hcourse.2
  | joining k j =>
      rw [hsignal] at hcourse
      rw [hcourse.1]
      exact Stopper.noConfusion
  | threw k =>
      rw [hsignal] at hcourse
      rw [hcourse.1]
      exact Stopper.noConfusion
  | returned =>
      rw [hsignal] at hcourse
      exact absurd hcourse id

/-- **SELF JOIN**: when the signal handler calls `Server::stop`, on whichever worker and
    in whatever order everything happens, it joins at most the threads before its own
    and never returns. -/
theorem reached_signal (host : ByteOrder) (threadPoolSize : Nat) (es : List ProcessEvent)
    (p : Process) (hrun : Run (Process.Step host) (Process.launched threadPoolSize) es p) :
    SelfJoined host threadPoolSize es p := by
  have hlaunched := Crewed.launched threadPoolSize
  have hcrewed := hlaunched.run hrun
  have hmanned := (hlaunched.run_length hrun).trans List.length_replicate
  refine ⟨hlaunched.refines hrun, ⟨hmanned, hcrewed.busy⟩, ⟨?_, hcrewed.stopper_ne⟩, ?_, ?_⟩
  · intro hreturned
    have hcourse := hcrewed.course
    rw [hreturned] at hcourse
    exact hcourse
  · intro k j hsignal
    have hself := (hcrewed.signalled k).mpr (by rw [hsignal]; rfl)
    have hcourse := hcrewed.course
    rw [hsignal] at hcourse
    have hlt := (List.getElem?_eq_some_iff.mp hself).1
    exact ⟨hcourse.2.1, by omega, hself, hcourse.2.2⟩
  · intro k hsignal
    have hcourse := hcrewed.course
    rw [hsignal] at hcourse
    obtain ⟨hjoining, hall⟩ := hcourse
    have hlt := (List.getElem?_eq_some_iff.mp (hall k (Nat.le_refl k))).1
    have hcommanded := hcrewed.commanded
    refine ⟨by omega, ?_, hcommanded.closed (Or.inr (Or.inl hjoining)),
      hcommanded.stopped.mpr (Or.inl hjoining), hall⟩
    cases hrunning : p.server.isRunning with
    | false => rfl
    | true => cases hjoining.symm.trans (hcommanded.running.mp hrunning)

/-- The second of two workers takes the signal, and joins the first. -/
theorem reached_signal_two :
    SelfJoined .little 2
      [.raise, .beginStop 1, .stop .stopStep, .stop .stopStep, .stop .stopStep, .stop .stopStep,
        .stop .stopStep, .leave 0, .join, .deadlock]
      { server := { Server.started 2 with
          isRunning := false, acceptorOpen := false, ioStopped := true, stopper := .joining }
        workerThreads := [.ended, .ended], signal := .threw 1 } :=
  reached_signal .little 2 _ _ <|
  .cons (.raise rfl) <|
  .cons (.beginStop rfl rfl rfl) <|
  .cons (.stop rfl rfl (fun _ => rfl) (by decide) (.statement rfl (by decide))) <|
  .cons (.stop rfl rfl (fun hc => by cases hc) (by decide) (.statement rfl (by decide))) <|
  .cons (.stop rfl rfl (fun hc => by cases hc) (by decide) (.statement rfl (by decide))) <|
  .cons (.stop rfl rfl (fun hc => by cases hc) (by decide) (.statement rfl (by decide))) <|
  .cons (.stop rfl rfl (fun hc => by cases hc) (by decide) (.statement rfl (by decide))) <|
  .cons (.leave rfl rfl) <|
  .cons (.join rfl rfl) <|
  .cons (.deadlock rfl) .nil

end Crew

end AsyncNet
