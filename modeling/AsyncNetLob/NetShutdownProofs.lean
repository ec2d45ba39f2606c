import AsyncNetLob.NetRegistryProofs

/-! # What is left when `Server::stop` returns

    `stopAll` posts a stop handler to every session and clears the registry, and
    `ioContext_.stop()` comes right behind the posts.  What is still queued then is
    never run, so a session whose stop handler no worker has started stays open
    (`returned_open`).

    When the handlers do get started in time and no session is added behind the back
    of `stopAll` (`Orderly`), nothing is left: a session that was added is demanded
    to be stopped, more urgently from one statement of `Server::stop` to the next
    (`Stopper.Demands`). -/

namespace AsyncNet

open Transition

/-- The session is stopped, or its stop handler is queued or running. -/
def Session.StopComing (s : Session) : Prop :=
  s.isStopped = true ∨ .stop ∈ s.posted ∨ s.running = some .stop

/-- The session is stopped, or its stop handler is running. -/
def Session.StopUnderway (s : Session) : Prop := s.isStopped = true ∨ s.running = some .stop

section Session

variable {host : ByteOrder} {s s' : Session}

/-- A stop that is coming stays coming until it has come. -/
theorem Session.StopComing.step (h : s.StopComing) {e : Event}
    (hstep : Session.Step host s e s') : s'.StopComing := by
  cases hstep with
  | @readCompletes op => cases op <;> exact h
  | @readFails op => cases op <;> exact h
  | transmit => exact h
  | writeCompletes => exact h
  | writeFails => exact h
  | startPosted hidle hposted =>
      rcases h with h | h | h
      · exact Or.inl h
      · rw [hposted] at h
        rcases List.mem_cons.mp h with rfl | h
        · exact Or.inr (Or.inr rfl)
        · exact Or.inr (Or.inl h)
      · cases hidle.symm.trans h
  | startCompletion hidle =>
      rcases h with h | h | h
      · exact Or.inl h
      · exact Or.inr (Or.inl h)
      · cases hidle.symm.trans h
  | @resume x hrunning =>
      rcases h with h | h | h
      · exact Or.inl (execute_stopped host _ (Or.inl h))
      · exact Or.inr (Or.inl ((execute_posted host _ x).subset h))
      · exact Or.inl (execute_stopped host _ (Or.inr (Option.some.inj (hrunning.symm.trans h))))
  | requestStop => exact Or.imp_right (Or.imp_left (List.mem_append_left _)) h

/-- A stop handler that is running gets to stop the session. -/
theorem Session.StopUnderway.step (h : s.StopUnderway) {e : Event}
    (hstep : Session.Step host s e s') : s'.StopUnderway := by
  cases hstep with
  | @readCompletes op => cases op <;> exact h
  | @readFails op => cases op <;> exact h
  | transmit => exact h
  | writeCompletes => exact h
  | writeFails => exact h
  | startPosted hidle =>
      refine h.imp_right fun h => ?_
      cases hidle.symm.trans h
  | startCompletion hidle =>
      refine h.imp_right fun h => ?_
      cases hidle.symm.trans h
  | resume hrunning =>
      refine Or.inl (execute_stopped host _ (h.imp_right fun h => ?_))
      exact Option.some.inj (hrunning.symm.trans h)
  | requestStop => exact h

end Session

/-- What `Server::stop` demands of a session that was added. -/
def Stopper.Demands : Stopper → Nat → Session → Prop
  | .notCalled, _, _ => True
  | .flagged, _, _ => True
  | .stopping remaining, i, s => i ∈ remaining ∨ s.StopComing
  | .cleared, _, s => s.StopComing
  | .acceptorClosed, _, s => s.StopComing
  | .joining, _, s => s.StopUnderway
  | .returned, _, s => s.isStopped = true

theorem Stopper.Demands.step {pc : Stopper} {i : Nat} {host : ByteOrder} {s s' : Session}
    (h : pc.Demands i s) {e : Event} (hstep : Session.Step host s e s') : pc.Demands i s' := by
  cases pc with
  | notCalled => trivial
  | flagged => trivial
  | stopping remaining => exact Or.imp_right (fun hc : s.StopComing => hc.step hstep) h
  | cleared => exact Session.StopComing.step h hstep
  | acceptorClosed => exact Session.StopComing.step h hstep
  | joining => exact Session.StopUnderway.step h hstep
  | returned => exact isStopped_step h hstep

/-- No session is added once `stopAll` has the mutex, and when `ioContext_.stop()` is
    called no session that is not stopped has its stop handler still queued. -/
def Orderly (e : ServerEvent) (sv : Server) : Prop :=
  match e with
  | .acceptStep => (∃ i, sv.accept = .adding i) → sv.stopper = .notCalled ∨ sv.stopper = .flagged
  | .stopStep => sv.stopper = .acceptorClosed →
      ∀ s ∈ sv.sessions, s.isStopped = false → .stop ∉ s.posted
  | _ => True

structure ShuttingDown (sv : Server) : Prop where
  served  : Served sv
  empty   : sv.stopper.hasCleared = true → sv.registry = ∅
  demands : ∀ (i : Nat) (s : Session), sv.sessions[i]? = some s → i ∈ sv.additions →
    sv.stopper.Demands i s

section Shutdown

variable {host : ByteOrder} {sv sv' : Server}

theorem ShuttingDown.opened (threadPoolSize : Nat) :
    ShuttingDown (Server.started threadPoolSize) where
  served := .opened threadPoolSize
  empty := fun hc => by cases hc
  demands := fun _ _ hs => by cases hs

/-- A step of one session. -/
theorem ShuttingDown.session (h : ShuttingDown sv) {i : Nat} {s s' : Session} {e : Event}
    (hs : sv.sessions[i]? = some s) (hstep : Session.Step host s e s')
    (hadded : e = .requestStop → i ∈ sv.additions) : ShuttingDown (sv.sessionStep i s e s') := by
  refine ⟨h.served.session hs hstep hadded, ?_, ?_⟩
  · rw [sessionStep_eq]
    intro hc
    dsimp only at hc ⊢
    rw [h.empty hc, Finset.erase_empty, ite_self]
  · rw [sessionStep_eq]
    intro j u hu hj
    rcases getElem?_set_cases hu with ⟨rfl, rfl⟩ | ⟨-, hu⟩
    · exact (h.demands j s hs hj).step hstep
    · exact h.demands j u hu hj

/-- A step of the accept handler, which adds no session too late. -/
theorem ShuttingDown.acceptStep (h : ShuttingDown sv) {pc : Accept} (hpc : sv.accept = pc)
    (horderly : (∃ i, pc = .adding i) → sv.stopper = .notCalled ∨ sv.stopper = .flagged) :
    ShuttingDown (sv.acceptStep pc) := by
  have hserved := h.served.acceptStep hpc
  cases pc with
  | ended => exact h
  | outstanding => exact h
  | queued ec stream => exact h
  | rearming => exact ⟨hserved, h.empty, h.demands⟩
  | checking ec stream =>
      cases ec with
      | true => exact ⟨hserved, h.empty, h.demands⟩
      | false =>
          refine ⟨hserved, h.empty, ?_⟩
          intro j u hu hj
          rcases getElem?_concat_cases hu with hu | ⟨rfl, -⟩
          · exact h.demands j u hu hj
          · -- the new session is not added yet
            exact absurd (h.served.added _ hj) (Nat.lt_irrefl _)
  | adding i =>
      -- `stopAll` has not begun, so nothing is demanded of the new session
      have hearly := horderly ⟨i, rfl⟩
      refine ⟨hserved, ?_, ?_⟩
      · intro hc
        have hc' : sv.stopper.hasCleared = true := hc
        rcases hearly with hpc | hpc
        · rw [hpc] at hc'
          cases hc'
        · rw [hpc] at hc'
          cases hc'
      · intro j u _ _
        show sv.stopper.Demands j u
        rcases hearly with hpc | hpc
        · rw [hpc]
          trivial
        · rw [hpc]
          trivial
  | starting i =>
      refine ⟨hserved, h.empty, ?_⟩
      intro j u hu hj
      have hknows := h.served.accept
      rw [hpc] at hknows
      obtain ⟨s, hs⟩ := h.served.exists_session hknows
      have hu' : (sv.sessions.modify i Session.start)[j]? = some u := hu
      rw [modify_eq_set hs] at hu'
      rcases getElem?_set_cases hu' with ⟨rfl, rfl⟩ | ⟨-, hu⟩
      · -- starting a session does not take a stop back
        have hdemands := h.demands j s hs hj
        show sv.stopper.Demands j s.start
        generalize sv.stopper = pc at hdemands ⊢
        cases pc <;> exact hdemands
      · exact h.demands j u hu hj

/-- `stopAll` posts the stop handler of a session. -/
theorem ShuttingDown.stopSession (h : ShuttingDown sv) {i : Nat} {remaining : Finset Nat}
    (hpc : sv.stopper = .stopping remaining) (hi : i ∈ remaining) :
    ShuttingDown (sv.stopSession i remaining) := by
  refine ⟨h.served.stopSession hpc hi, fun hc => (by cases hc), ?_⟩
  intro j u hu hj
  have hmem := h.served.remaining remaining hpc i hi
  obtain ⟨s, hs⟩ := h.served.exists_session hmem
  have hu' : (sv.sessions.modify i Session.stop)[j]? = some u := hu
  rw [modify_eq_set hs] at hu'
  show j ∈ remaining.erase i ∨ u.StopComing
  rcases getElem?_set_cases hu' with ⟨rfl, rfl⟩ | ⟨hij, hu⟩
  · exact Or.inr (Or.inr (Or.inl (List.mem_append_right _ (List.mem_singleton_self _))))
  · have hdemands := h.demands j u hu hj
    rw [hpc] at hdemands
    exact Or.imp_left (fun hj => Finset.mem_erase.mpr ⟨hij, hj⟩) hdemands

/-- When no worker is in a handler no stop handler is running. -/
theorem idle_of_busy (hidle : sv.busy = 0) {i : Nat} {s : Session}
    (hs : sv.sessions[i]? = some s) : s.running = none := by
  have hnone : (sv.sessions.filter fun s => s.running.isSome).length = 0 :=
    (Nat.add_eq_zero_iff.mp hidle).1
  cases hrunning : s.running with
  | none => rfl
  | some x =>
      have hmem : s ∈ sv.sessions.filter fun s => s.running.isSome :=
        List.mem_filter.mpr ⟨List.mem_of_getElem? hs, by rw [hrunning]; rfl⟩
      rw [List.length_eq_zero_iff.mp hnone] at hmem
      cases hmem

/-- One statement of `Server::stop` demands what the next one needs. -/
theorem ShuttingDown.stopStep (h : ShuttingDown sv) {pc : Stopper} (hpc : sv.stopper = pc)
    (hall : ∀ remaining, pc = .stopping remaining → remaining = ∅)
    (hjoin : pc = .joining → sv.busy = 0)
    (horderly : pc = .acceptorClosed → ∀ s ∈ sv.sessions, s.isStopped = false → .stop ∉ s.posted) :
    ShuttingDown (sv.stopStep pc) := by
  have hserved := h.served.stopStep hpc
  have hdemands := h.demands
  rw [hpc] at hdemands
  cases pc with
  | notCalled => exact ⟨hserved, fun hc => (by cases hc), fun _ _ _ _ => trivial⟩
  | flagged =>
      refine ⟨hserved, fun hc => (by cases hc), ?_⟩
      intro i s hs hi
      have hs' : sv.sessions[i]? = some s := hs
      show i ∈ sv.registry ∨ s.StopComing
      cases hstopped : s.isStopped with
      | true => exact Or.inr (Or.inl hstopped)
      | false =>
          -- a live session was not removed, so it is in the registry
          refine Or.inl ((h.served.registry (by rw [hpc]; rfl) i).mpr ⟨hi, ?_⟩)
          intro u hu
          obtain rfl := Option.some.inj (hs'.symm.trans hu)
          cases (h.served.lifecycle i s hs').stage with
          | live _ _ _ hremovals => exact hremovals
          | closing htrue => cases hstopped.symm.trans htrue
          | removed htrue => cases hstopped.symm.trans htrue
  | stopping remaining =>
      refine ⟨hserved, fun _ => rfl, ?_⟩
      intro i s hs hi
      -- no session is left to post a stop handler to
      have hcoming := hdemands i s hs hi
      rw [hall remaining rfl] at hcoming
      exact hcoming.resolve_left (Finset.notMem_empty i)
  | cleared => exact ⟨hserved, fun _ => h.empty (by rw [hpc]; rfl), hdemands⟩
  | acceptorClosed =>
      refine ⟨hserved, fun _ => h.empty (by rw [hpc]; rfl), ?_⟩
      intro i s hs hi
      show s.StopUnderway
      cases hstopped : s.isStopped with
      | true => exact Or.inl hstopped
      | false =>
          refine Or.inr ?_
          -- a stop handler that no worker has taken yet would be lost here
          rcases hdemands i s hs hi with hc | hc | hc
          · cases hstopped.symm.trans hc
          · exact absurd hc (horderly rfl s (List.mem_of_getElem? hs) hstopped)
          · exact hc
  | joining =>
      refine ⟨hserved, fun _ => h.empty (by rw [hpc]; rfl), ?_⟩
      intro i s hs hi
      -- the workers have returned, so no stop handler runs any more
      refine (hdemands i s hs hi).resolve_right fun hc => ?_
      cases (idle_of_busy (hjoin rfl) hs).symm.trans hc
  | returned => exact h

/-- **ONE STEP** of an orderly shutdown. -/
theorem ShuttingDown.step (h : ShuttingDown sv) {e : ServerEvent}
    (hstep : Guarded (Server.Step host) Orderly sv e sv') : ShuttingDown sv' := by
  obtain ⟨hstep, horderly⟩ := hstep
  cases hstep with
  | accepted hout hopen =>
      exact ⟨h.served.step (@Server.Step.accepted host _ _ hout hopen), h.empty, h.demands⟩
  | acceptFails hout =>
      exact ⟨h.served.step (@Server.Step.acceptFails host _ hout), h.empty, h.demands⟩
  | startAccept hqueued hworker =>
      exact ⟨h.served.step (@Server.Step.startAccept host _ _ _ hqueued hworker), h.empty,
        h.demands⟩
  | acceptStep hpc =>
      refine h.acceptStep hpc fun hadding => horderly ?_
      rw [hpc]
      exact hadding
  | session hs hstep _ _ hadded => exact h.session hs hstep hadded
  | stopStep hpc _ hall hjoin =>
      exact h.stopStep hpc hall hjoin fun hclosed => horderly (hpc.trans hclosed)
  | stopSession hpc hi => exact h.stopSession hpc hi

/-- Nothing is left of the sessions. -/
structure ShutDown (sv : Server) : Prop where
  empty  : sv.registry = ∅ ∧ sv.getActiveConnectionsCount = 0
  closed : ∀ i ∈ sv.additions, ∀ s, sv.sessions[i]? = some s →
    s.isStopped = true ∧ s.socketOpen = false ∧ s.closings = 1

theorem ShuttingDown.shutDown (h : ShuttingDown sv) (hreturned : sv.stopper = .returned) :
    ShutDown sv := by
  have hempty := h.empty (by rw [hreturned]; rfl)
  refine ⟨⟨hempty, by rw [Server.getActiveConnectionsCount, hempty, Finset.card_empty]⟩, ?_⟩
  intro i hi s hs
  have hstopped := h.demands i s hs hi
  rw [hreturned] at hstopped
  have honce := (h.served.lifecycle i s hs).once
  exact ⟨hstopped, honce.2.2.2.mp hstopped, honce.2.2.1.mp hstopped⟩

/-- **SHUTDOWN**: when no session is added behind the back of `stopAll` and every stop
    handler is started before `ioContext_.stop()`, nothing is left when `Server::stop`
    returns. -/
theorem orderly_shutDown (host : ByteOrder) (threadPoolSize : Nat) (es : List ServerEvent)
    (sv : Server)
    (hrun : Run (Guarded (Server.Step host) Orderly) (Server.started threadPoolSize) es sv)
    (hreturned : sv.stopper = .returned) : ShutDown sv :=
  (hrun.invariant (fun _ _ _ hstep h => ShuttingDown.step h hstep)
    (.opened threadPoolSize)).shutDown hreturned

/-! ## One session at shutdown -/

/-- A statement of `Server::stop` that waits for nothing. -/
theorem Server.Step.statement {pc : Stopper} (hpc : sv.stopper = pc)
    (hplain : pc = .notCalled ∨ pc = .flagged ∨ pc = .stopping ∅ ∨ pc = .cleared
      ∨ pc = .acceptorClosed) : Server.Step host sv .stopStep (sv.stopStep pc) := by
  refine .stopStep hpc ?_ ?_ ?_
  · rintro rfl
    simp at hplain
  · rintro remaining rfl
    simpa using hplain
  · rintro rfl
    simp at hplain

/-- One connection is accepted, and `stopAll` posts the stop handler of its session. -/
theorem run_stopAll (host : ByteOrder) :
    Run (Guarded (Server.Step host) Orderly) (Server.started 1)
      [.accepted [], .startAccept, .acceptStep, .acceptStep, .acceptStep, .acceptStep,
        .stopStep, .stopStep, .stopSession 0]
      { Server.started 1 with
        sessions := [(Session.opened []).stop], registry := {0}, additions := [0], starts := [0]
        isRunning := false, stopper := .stopping ∅ } :=
  .cons ⟨@Server.Step.accepted _ _ [] rfl rfl, trivial⟩ <|
  .cons ⟨.startAccept rfl ⟨rfl, by decide⟩, trivial⟩ <|
  .cons ⟨.acceptStep rfl rfl (by rintro ⟨i, hi⟩; cases hi), fun _ => Or.inl rfl⟩ <|
  .cons ⟨.acceptStep rfl rfl (by rintro - ⟨r, hr⟩; cases hr), fun _ => Or.inl rfl⟩ <|
  .cons ⟨.acceptStep rfl rfl (by rintro ⟨i, hi⟩; cases hi), fun _ => Or.inl rfl⟩ <|
  .cons ⟨.acceptStep rfl rfl (by rintro ⟨i, hi⟩; cases hi), fun _ => Or.inl rfl⟩ <|
  .cons ⟨.statement rfl (Or.inl rfl), fun hc => by cases hc⟩ <|
  .cons ⟨.statement rfl (Or.inr (Or.inl rfl)), fun hc => by cases hc⟩ <|
  .cons ⟨@Server.Step.stopSession _ _ 0 {0} rfl (by decide), trivial⟩ .nil

/-- The stop handler of the only session is started in time. -/
theorem orderly_shutDown_one :
    ShutDown { Server.started 1 with
      sessions := [{ Session.opened [] with
        isStopped := true, socketOpen := false, closings := 1, removals := 1 }]
      additions := [0], starts := [0]
      isRunning := false, acceptorOpen := false, ioStopped := true, stopper := .returned } :=
  orderly_shutDown .little 1 _ _ ((run_stopAll .little).append
    (.cons ⟨@Server.Step.session _ _ 0 _ _ .startPosted rfl (.startPosted rfl rfl)
        (fun _ => ⟨rfl, by decide⟩) (by rintro ⟨he, -⟩; cases he) (fun he => by cases he), trivial⟩ <|
      .cons ⟨.statement rfl (by decide), fun hc => by cases hc⟩ <|
      .cons ⟨.statement rfl (by decide), fun hc => by cases hc⟩ <|
      .cons ⟨.statement rfl (by decide), fun _ => by decide⟩ <|
      .cons ⟨@Server.Step.session _ _ 0 _ _ .resume rfl (.resume rfl) (fun he => by cases he)
        (by rintro ⟨-, hr⟩; cases hr) (fun he => by cases he), trivial⟩ <|
      .cons ⟨@Server.Step.session _ _ 0 _ _ .resume rfl (.resume rfl) (fun he => by cases he)
        (by rintro - ⟨r, hr⟩; cases hr) (fun he => by cases he), trivial⟩ <|
      .cons ⟨.stopStep rfl (by decide) (fun r hr => by cases hr) (fun _ => by decide),
        fun hc => by cases hc⟩ .nil)) rfl

/-- **NOT SHUT DOWN**: with one worker and one connection `Server::stop` can return
    before the stop handler of the session was started, with its socket open; and it
    can return with the session in the registry, if the accept handler was past its
    test of the error code. -/
theorem returned_open :
    (∃ es sv, Run (Server.Step .little) (Server.started 1) es sv ∧ sv.stopper = .returned
      ∧ sv.additions = [0] ∧ sv.sessions = [(Session.opened []).stop]
      ∧ (Session.opened []).stop.socketOpen = true ∧ ¬ ShutDown sv)
    ∧ ∃ es sv, Run (Server.Step .little) (Server.started 1) es sv ∧ sv.stopper = .returned
      ∧ sv.getActiveConnectionsCount = 1 ∧ ¬ ShutDown sv := by
  constructor
  · refine ⟨_, _, (run_stopAll .little).unguarded.append
      (.cons (.statement rfl (by decide)) <| .cons (.statement rfl (by decide)) <|
        .cons (.statement rfl (by decide)) <|
        .cons (.stopStep rfl (by decide) (fun r hr => by cases hr) (fun _ => by decide)) .nil),
      rfl, rfl, rfl, rfl, ?_⟩
    intro hshut
    obtain ⟨hstopped, -⟩ := hshut.closed 0 (by decide) _ rfl
    cases hstopped
  · refine ⟨_, _, .cons (@Server.Step.accepted _ _ [] rfl rfl) <|
        .cons (.startAccept rfl ⟨rfl, by decide⟩) <|
        .cons (.acceptStep rfl rfl (by rintro ⟨i, hi⟩; cases hi)) <|
        .cons (.statement rfl (by decide)) <| .cons (.statement rfl (by decide)) <|
        .cons (.statement rfl (by decide)) <| .cons (.statement rfl (by decide)) <|
        .cons (.acceptStep rfl rfl (by rintro - ⟨r, hr⟩; cases hr)) <|
        .cons (.acceptStep rfl rfl (by rintro ⟨i, hi⟩; cases hi)) <|
        .cons (.acceptStep rfl rfl (by rintro ⟨i, hi⟩; cases hi)) <|
        .cons (.statement rfl (by decide)) <|
        .cons (.stopStep rfl (by decide) (fun r hr => by cases hr) (fun _ => by decide)) .nil,
      rfl, rfl, ?_⟩
    intro hshut
    cases hshut.empty.2

end Shutdown

end AsyncNet
