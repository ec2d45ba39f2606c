import AsyncNetLob.NetLifecycleProofs
import AsyncNetLob.NetServer

/-! # The registry holds the sessions that are not removed

    `Served` is the invariant of the server.  Every step on a session is a step of
    `NetSession`, so what the life of one session says holds of each of them; a
    session is touched only after it was added; until `stopAll` clears it, the
    registry holds the added sessions that have not called `removeSession`. -/

namespace AsyncNet

open Transition

/-- `stopAll` has cleared the registry. -/
def Stopper.hasCleared : Stopper → Bool
  | .notCalled => false
  | .flagged => false
  | .stopping _ => false
  | _ => true

/-- What the accept handler knows of its session. -/
def Accept.Knows (sv : Server) : Accept → Prop
  | .adding i => i ∉ sv.additions ∧ i < sv.sessions.length
  | .starting i => i ∈ sv.additions
  | _ => True

structure Served (sv : Server) : Prop where
  lifecycle : ∀ (i : Nat) (s : Session), sv.sessions[i]? = some s → Lifecycle s
  added     : ∀ i ∈ sv.additions, i < sv.sessions.length
  untouched : ∀ (i : Nat) (s : Session), sv.sessions[i]? = some s → i ∉ sv.additions →
    ∃ stream, s = Session.new stream
  accept    : sv.accept.Knows sv
  started   : ∀ i ∈ sv.starts, i ∈ sv.additions
  attended  : ∀ (i : Nat) (s : Session), sv.sessions[i]? = some s → i ∈ sv.starts →
    s.isStopped = false → s.Attended
  registry  : sv.stopper.hasCleared = false → ∀ i, i ∈ sv.registry ↔
    i ∈ sv.additions ∧ ∀ s, sv.sessions[i]? = some s → s.removals = 0
  remaining : ∀ remaining, sv.stopper = .stopping remaining → ∀ i ∈ remaining, i ∈ sv.additions

section Served

variable {host : ByteOrder} {sv sv' : Server}

theorem Served.opened (threadPoolSize : Nat) : Served (Server.started threadPoolSize) where
  lifecycle := fun _ _ hs => by cases hs
  added := fun _ hi => absurd hi List.not_mem_nil
  untouched := fun _ _ hs => by cases hs
  accept := trivial
  started := fun _ hi => absurd hi List.not_mem_nil
  attended := fun _ _ hs => by cases hs
  registry := by
    intro _ i
    constructor
    · intro hi
      cases Finset.notMem_empty i hi
    · intro hi
      exact absurd hi.1 List.not_mem_nil
  remaining := fun _ hr => by cases hr

/-- A session that was added is there. -/
theorem Served.exists_session (h : Served sv) {i : Nat} (hi : i ∈ sv.additions) :
    ∃ s, sv.sessions[i]? = some s :=
  ⟨_, List.getElem?_eq_getElem (h.added i hi)⟩

/-- Nothing happens to a session that nobody knows. -/
theorem new_step {stream : Bytes} {e : Event} {s : Session}
    (hstep : Session.Step host (Session.new stream) e s) : e = .requestStop := by
  cases hstep with
  | readCompletes hop => cases hop
  | readFails hop => cases hop
  | transmit hop => cases hop
  | writeCompletes hop => cases hop
  | writeFails hop => cases hop
  | startPosted _ hposted => cases hposted
  | startCompletion _ hdone =>
      cases (List.append_eq_nil_iff.mp (Eq.symm hdone)).2
  | resume hrunning => cases hrunning
  | requestStop => rfl

/-- A look into a list after one place was written. -/
theorem getElem?_set_cases {α : Type} {l : List α} {i j : Nat} {x y : α}
    (h : (l.set i x)[j]? = some y) : j = i ∧ y = x ∨ j ≠ i ∧ l[j]? = some y := by
  rw [List.getElem?_set] at h
  by_cases hij : i = j
  · rw [if_pos hij] at h
    split at h
    · exact Or.inl ⟨hij.symm, (Option.some.inj h).symm⟩
    · cases h
  · rw [if_neg hij] at h
    exact Or.inr ⟨fun hji => hij hji.symm, h⟩

theorem modify_eq_set {α : Type} {l : List α} {i : Nat} {x : α} (h : l[i]? = some x) (f : α → α) :
    l.modify i f = l.set i (f x) := by
  apply List.ext_getElem?
  intro j
  rw [List.getElem?_modify, List.getElem?_set]
  by_cases hij : i = j
  · obtain rfl := hij
    rw [if_pos rfl, if_pos (List.getElem?_eq_some_iff.mp h).1, h]
    simp
  · rw [if_neg hij]
    simp [hij]

/-- A session leaves the registry where its stop handler calls `removeSession`. -/
theorem Served.registry_session (h : Served sv) {i : Nat} {s s' : Session} {e : Event}
    (hs : sv.sessions[i]? = some s) (hstep : Session.Step host s e s') (hmem : i ∈ sv.additions)
    (hcleared : sv.stopper.hasCleared = false) (j : Nat) :
    (j ∈ if Server.Removing s e then sv.registry.erase i else sv.registry)
      ↔ j ∈ sv.additions ∧ ∀ u, (sv.sessions.set i s')[j]? = some u → u.removals = 0 := by
  have hremovals : s'.removals = if Server.Removing s e then 1 else s.removals :=
    (h.lifecycle i s hs).removals_step hstep
  have hwas := h.registry hcleared j
  by_cases hij : j = i
  · obtain rfl := hij
    have hset : ∀ u : Session, (sv.sessions.set j s')[j]? = some u ↔ u = s' := by
      intro u
      rw [List.getElem?_set_self (h.added j hmem), Option.some_inj, eq_comm]
    have hget : ∀ u : Session, sv.sessions[j]? = some u ↔ u = s := by
      intro u
      rw [hs, Option.some_inj, eq_comm]
    simp only [hset, hget, forall_eq] at hwas ⊢
    rw [hremovals]
    by_cases hremoving : Server.Removing s e
    · rw [if_pos hremoving, if_pos hremoving]
      simp
    · rw [if_neg hremoving, if_neg hremoving]
      exact hwas
  · rw [List.getElem?_set_ne fun hji => hij hji.symm, ← hwas]
    split
    · rw [Finset.mem_erase]
      exact and_iff_right hij
    · rfl

/-- What the accept handler knows stays true. -/
theorem Accept.Knows.mono {pc : Accept} (h : pc.Knows sv)
    (hadditions : sv'.additions = sv.additions)
    (hsessions : sv'.sessions.length = sv.sessions.length) : pc.Knows sv' := by
  cases pc with
  | adding i => exact ⟨by rw [hadditions]; exact h.1, by rw [hsessions]; exact h.2⟩
  | starting i =>
      show i ∈ sv'.additions
      rw [hadditions]
      exact h
  | ended => trivial
  | outstanding => trivial
  | queued ec stream => trivial
  | checking ec stream => trivial
  | rearming => trivial

/-- What a step of a session changes on the server. -/
theorem sessionStep_eq (sv : Server) (i : Nat) (s : Session) (e : Event) (s' : Session) :
    sv.sessionStep i s e s' = { sv with
      sessions := sv.sessions.set i s'
      registry := if Server.Removing s e then sv.registry.erase i else sv.registry } := by
  rw [Server.sessionStep]
  split <;> rfl

/-- A step of a session that is not its end, and that it takes by itself. -/
theorem Server.Step.unhindered {i : Nat} {s s' : Session} {e : Event}
    (hs : sv.sessions[i]? = some s) (hstep : Session.Step host s e s')
    (hworker : e.starts = true → sv.HasWorker)
    (hplain : ¬ Server.Removing s e ∧ e ≠ .requestStop) :
    Server.Step host sv (.session i e) (sv.sessionStep i s e s') :=
  .session hs hstep hworker (fun hr => absurd hr hplain.1) (fun he => absurd he hplain.2)

/-- **ONE SESSION** goes on. -/
theorem Served.session (h : Served sv) {i : Nat} {s s' : Session} {e : Event}
    (hs : sv.sessions[i]? = some s) (hstep : Session.Step host s e s')
    (hadded : e = .requestStop → i ∈ sv.additions) : Served (sv.sessionStep i s e s') := by
  -- what nobody knows does not go on
  have hmem : i ∈ sv.additions := by
    by_contra hnot
    obtain ⟨stream, rfl⟩ := h.untouched i s hs hnot
    exact hnot (hadded (new_step hstep))
  rw [sessionStep_eq]
  constructor
  case lifecycle =>
    intro j u hu
    rcases getElem?_set_cases hu with ⟨-, rfl⟩ | ⟨-, hu⟩
    · exact (h.lifecycle i s hs).step hstep
    · exact h.lifecycle j u hu
  case added =>
    intro j hj
    rw [List.length_set]
    exact h.added j hj
  case untouched =>
    intro j u hu hj
    rcases getElem?_set_cases hu with ⟨rfl, -⟩ | ⟨-, hu⟩
    · exact absurd hmem hj
    · exact h.untouched j u hu hj
  case accept => exact h.accept.mono rfl List.length_set
  case started => exact h.started
  case attended =>
    intro j u hu hj hlive
    rcases getElem?_set_cases hu with ⟨rfl, rfl⟩ | ⟨-, hu⟩
    · exact Session.Attended.step (fun hlive => h.attended j s hs hj hlive) hstep hlive
    · exact h.attended j u hu hj hlive
  case registry => exact fun hc => h.registry_session hs hstep hmem hc
  case remaining => exact h.remaining

/-- `stopAll` stops a session like anybody else. -/
theorem Served.stopSession (h : Served sv) {i : Nat} {remaining : Finset Nat}
    (hpc : sv.stopper = .stopping remaining) (hi : i ∈ remaining) :
    Served (sv.stopSession i remaining) := by
  have hmem := h.remaining remaining hpc i hi
  obtain ⟨s, hs⟩ := h.exists_session hmem
  have hstep := h.session hs (@Session.Step.requestStop .little s) fun _ => hmem
  have hstate : sv.sessionStep i s .requestStop s.stop
      = { sv with sessions := sv.sessions.modify i Session.stop } := by
    rw [Server.sessionStep, if_neg (by rintro ⟨he, -⟩; cases he), modify_eq_set hs]
  rw [hstate] at hstep
  exact { hstep with
    registry := fun _ => hstep.registry (by rw [hpc]; rfl)
    remaining := by
      intro remaining' hr j hj
      obtain rfl := Stopper.stopping.inj hr
      exact h.remaining remaining hpc j (Finset.mem_of_mem_erase hj) }

/-- A look into a list that grew by one. -/
theorem getElem?_concat_cases {α : Type} {l : List α} {j : Nat} {x y : α}
    (h : (l ++ [x])[j]? = some y) : l[j]? = some y ∨ j = l.length ∧ y = x := by
  rw [List.getElem?_append] at h
  by_cases hlt : j < l.length
  · rw [if_pos hlt] at h
    exact Or.inl h
  · rw [if_neg hlt] at h
    obtain ⟨hzero, hx⟩ := List.getElem?_eq_some_iff.mp h
    rw [List.length_singleton] at hzero
    refine Or.inr ⟨by omega, ?_⟩
    rw [← hx, List.getElem_singleton]

/-- The accept handler makes a session. -/
theorem Served.make (h : Served sv) (stream : Bytes) :
    Served { sv with sessions := sv.sessions ++ [Session.new stream]
                     accept := .adding sv.sessions.length } where
  lifecycle := by
    intro j u hu
    rcases getElem?_concat_cases hu with hu | ⟨-, rfl⟩
    · exact h.lifecycle j u hu
    · exact .new stream
  added := by
    intro j hj
    rw [List.length_append]
    exact Nat.lt_succ_of_lt (h.added j hj)
  untouched := by
    intro j u hu hj
    rcases getElem?_concat_cases hu with hu | ⟨-, rfl⟩
    · exact h.untouched j u hu hj
    · exact ⟨stream, rfl⟩
  accept := by
    constructor
    · intro hadded
      exact Nat.lt_irrefl _ (h.added _ hadded)
    · show _ < (sv.sessions ++ [Session.new stream]).length
      rw [List.length_append]
      exact Nat.lt_succ_self _
  started := h.started
  attended := by
    intro j u hu hj hlive
    rcases getElem?_concat_cases hu with hu | ⟨rfl, -⟩
    · exact h.attended j u hu hj hlive
    · exact absurd (h.added _ (h.started _ hj)) (Nat.lt_irrefl _)
  registry := by
    intro hcleared j
    rw [h.registry hcleared j]
    refine and_congr_right fun hj => ?_
    rw [List.getElem?_append_left (h.added j hj)]
  remaining := h.remaining

/-- The accept handler adds its session. -/
theorem Served.add (h : Served sv) {i : Nat} (hi : i ∉ sv.additions)
    (hlt : i < sv.sessions.length) :
    Served { sv.addSession i with accept := .starting i } where
  lifecycle := h.lifecycle
  added := by
    intro j hj
    rcases List.mem_append.mp hj with hj | hj
    · exact h.added j hj
    · rw [List.mem_singleton.mp hj]
      exact hlt
  untouched := fun j u hu hj => h.untouched j u hu fun hj' => hj (List.mem_append_left _ hj')
  accept := List.mem_append_right _ (List.mem_singleton_self _)
  started := fun j hj => List.mem_append_left _ (h.started j hj)
  attended := h.attended
  registry := by
    intro hcleared j
    show j ∈ insert i sv.registry ↔ j ∈ sv.additions ++ [i] ∧ _
    rw [Finset.mem_insert, List.mem_append, List.mem_singleton, h.registry hcleared j]
    by_cases hij : j = i
    · -- it was not touched before, so it is not removed
      have hnew : ∀ s, sv.sessions[j]? = some s → s.removals = 0 := by
        intro s hs
        obtain ⟨stream, rfl⟩ := h.untouched j s hs (hij ▸ hi)
        rfl
      exact iff_of_true (Or.inl hij) ⟨Or.inr hij, hnew⟩
    · rw [or_iff_right hij, or_iff_left hij]
      rfl
  remaining := fun remaining hr j hj => List.mem_append_left _ (h.remaining remaining hr j hj)

/-- The accept handler starts its session. -/
theorem Served.startSession (h : Served sv) {i : Nat} (hi : i ∈ sv.additions) :
    Served { sv with sessions := sv.sessions.modify i Session.start, starts := sv.starts ++ [i]
                     accept := .rearming } := by
  obtain ⟨s, hs⟩ := h.exists_session hi
  have hlife := h.lifecycle i s hs
  -- of the sessions only this one has changed
  rw [modify_eq_set hs]
  constructor
  case lifecycle =>
    intro j u hu
    rcases getElem?_set_cases hu with ⟨-, rfl⟩ | ⟨-, hu⟩
    · exact ⟨hlife.stage.of_same rfl rfl rfl rfl Iff.rfl, hlife.posted, hlife.completions⟩
    · exact h.lifecycle j u hu
  case added =>
    intro j hj
    rw [List.length_set]
    exact h.added j hj
  case untouched =>
    intro j u hu hj
    rcases getElem?_set_cases hu with ⟨rfl, -⟩ | ⟨-, hu⟩
    · exact absurd hi hj
    · exact h.untouched j u hu hj
  case accept => exact trivial
  case started =>
    intro j hj
    rcases List.mem_append.mp hj with hj | hj
    · exact h.started j hj
    · rw [List.mem_singleton.mp hj]
      exact hi
  case attended =>
    intro j u hu hj hlive
    rcases getElem?_set_cases hu with ⟨-, rfl⟩ | ⟨hij, hu⟩
    · exact s.attended_start
    · rcases List.mem_append.mp hj with hj | hj
      · exact h.attended j u hu hj hlive
      · exact absurd (List.mem_singleton.mp hj) hij
  case registry =>
    intro hcleared j
    rw [h.registry hcleared j]
    refine and_congr_right fun _ => ?_
    constructor
    · intro hall u hu
      rcases getElem?_set_cases hu with ⟨rfl, rfl⟩ | ⟨-, hu⟩
      · exact hall s hs
      · exact hall u hu
    · intro hall u hu
      by_cases hij : j = i
      · obtain rfl := hij
        obtain rfl := Option.some.inj (hs.symm.trans hu)
        exact hall s.start (List.getElem?_set_self (h.added j hi))
      · exact hall u ((List.getElem?_set_ne fun hji => hij hji.symm).trans hu)
  case remaining => exact h.remaining

theorem Served.acceptStep (h : Served sv) {pc : Accept} (hpc : sv.accept = pc) :
    Served (sv.acceptStep pc) := by
  have hknows := h.accept
  rw [hpc] at hknows
  cases pc with
  | ended => exact h
  | outstanding => exact h
  | queued ec stream => exact h
  | checking ec stream =>
      cases ec with
      | true => exact { h with accept := trivial }
      | false => exact h.make stream
  | adding i => exact h.add hknows.1 hknows.2
  | starting i => exact h.startSession hknows
  | rearming =>
      refine { h with accept := ?_ }
      show Accept.Knows _ (if sv.isRunning then .outstanding else .ended)
      split <;> trivial

/-- `Server::stop` does not touch the sessions but through `stopSession`. -/
theorem Served.stopStep (h : Served sv) {pc : Stopper} (hpc : sv.stopper = pc) :
    Served (sv.stopStep pc) := by
  cases pc with
  | notCalled =>
      exact { h with registry := fun _ => h.registry (by rw [hpc]; rfl)
                     remaining := fun _ hr => by cases hr }
  | flagged =>
      refine { h with registry := fun _ => h.registry (by rw [hpc]; rfl), remaining := ?_ }
      intro remaining hr j hj
      obtain rfl := Stopper.stopping.inj hr
      exact ((h.registry (by rw [hpc]; rfl) j).mp hj).1
  | stopping remaining =>
      exact { h with registry := fun hc => (by cases hc), remaining := fun _ hr => (by cases hr) }
  | cleared =>
      exact { h with registry := fun hc => (by cases hc), remaining := fun _ hr => (by cases hr) }
  | acceptorClosed =>
      exact { h with registry := fun hc => (by cases hc), remaining := fun _ hr => (by cases hr) }
  | joining =>
      exact { h with registry := fun hc => (by cases hc), remaining := fun _ hr => (by cases hr) }
  | returned => exact h

/-- **ONE STEP** of the server. -/
theorem Served.step (h : Served sv) {e : ServerEvent} (hstep : Server.Step host sv e sv') :
    Served sv' := by
  cases hstep with
  | accepted => exact { h with accept := trivial }
  | acceptFails => exact { h with accept := trivial }
  | startAccept => exact { h with accept := trivial }
  | acceptStep hpc => exact h.acceptStep hpc
  | session hs hstep _ _ hadded => exact h.session hs hstep hadded
  | stopStep hpc => exact h.stopStep hpc
  | stopSession hpc hi => exact h.stopSession hpc hi

theorem Served.run (h : Served sv) {es : List ServerEvent}
    (hrun : Run (Server.Step host) sv es sv') : Served sv' :=
  hrun.invariant (fun _ _ _ hstep hs => hs.step hstep) h

/-! ## While the server is serving -/

/-- What the registry holds, and what becomes of the sessions in it. -/
structure Registered (sv : Server) : Prop where
  /-- The added sessions whose first stop handler has not called `removeSession`. -/
  exact : ∀ i, i ∈ sv.registry ↔
    i ∈ sv.additions ∧ ∃ s, sv.sessions[i]? = some s ∧ s.removals = 0
  /-- A session is closed at most once and removed at most once, in this order. -/
  once : ∀ (i : Nat) (s : Session), sv.sessions[i]? = some s →
    s.closings ≤ 1 ∧ s.removals ≤ s.closings
  /-- It is closed and removed only after it was added. -/
  order : ∀ (i : Nat) (s : Session), sv.sessions[i]? = some s → s.closings ≠ 0 → i ∈ sv.additions
  /-- No session is left with nothing that could process or remove it. -/
  attended : ∀ i ∈ sv.registry, ∀ s, sv.sessions[i]? = some s → s.isStopped = false →
    i ∈ sv.starts → s.Attended

/-- **NO ZOMBIES**: until `Server::stop` is called the registry is exact, and all
    started sessions in it are stopped or attended to. -/
theorem serving_registered (host : ByteOrder) (threadPoolSize : Nat) (es : List ServerEvent)
    (sv : Server) (hrun : Run (Server.Step host) (Server.started threadPoolSize) es sv)
    (hserving : sv.stopper = .notCalled) : Registered sv := by
  have h := (Served.opened threadPoolSize).run hrun
  constructor
  case exact =>
    intro i
    rw [h.registry (by rw [hserving]; rfl) i]
    refine and_congr_right fun hi => ?_
    obtain ⟨s, hs⟩ := h.exists_session hi
    rw [hs]
    simp
  case once =>
    intro i s hs
    have honce := (h.lifecycle i s hs).once
    exact ⟨honce.1, honce.2.1⟩
  case order =>
    intro i s hs hclosed
    by_contra hi
    obtain ⟨stream, rfl⟩ := h.untouched i s hs hi
    exact hclosed rfl
  case attended =>
    intro i _ s hs hlive hi
    exact h.attended i s hs hi hlive

/-- One connection was accepted, and its session waits for a header. -/
theorem serving_registered_one :
    Registered { Server.started 1 with
      sessions := [Session.opened [0x41]], registry := {0}, additions := [0], starts := [0] } :=
  serving_registered .little 1
    [.accepted [0x41], .startAccept, .acceptStep, .acceptStep, .acceptStep, .acceptStep] _
    (.cons (@Server.Step.accepted _ _ [0x41] rfl rfl) <|
      .cons (.startAccept rfl ⟨rfl, by decide⟩) <|
      .cons (.acceptStep rfl rfl (by rintro ⟨i, hi⟩; cases hi)) <|
      .cons (.acceptStep rfl rfl (by rintro - ⟨r, hr⟩; cases hr)) <|
      .cons (.acceptStep rfl rfl (by rintro ⟨i, hi⟩; cases hi)) <|
      .cons (.acceptStep rfl rfl (by rintro ⟨i, hi⟩; cases hi)) .nil) rfl

end Served

end AsyncNet
