import AsyncNetLob.NetSessionProofs

/-! # The life of a session

    A session is live, then closing (its first stop handler has closed the socket and
    is about to call `removeSession`), then removed; it never goes back (`Stage`).
    Later stop handlers find `isStopped_` and do nothing.

    A live session that was started is attended to: a read is outstanding, or a read
    handler or a stop handler is queued or running, because every exit of the read
    handlers starts a read or posts a stop (`Attended`). -/

namespace AsyncNet

open Transition

/-- Where a session is in its life. -/
inductive Stage (s : Session) : Prop where
  | live (hlive : s.isStopped = false) (hopen : s.socketOpen = true) (hclosings : s.closings = 0)
      (hremovals : s.removals = 0) (hrunning : s.running ≠ some .removeSession)
  | closing (hstopped : s.isStopped = true) (hclosed : s.socketOpen = false)
      (hclosings : s.closings = 1) (hremovals : s.removals = 0)
      (hrunning : s.running = some .removeSession)
  | removed (hstopped : s.isStopped = true) (hclosed : s.socketOpen = false)
      (hclosings : s.closings = 1) (hremovals : s.removals = 1)
      (hrunning : s.running ≠ some .removeSession)

structure Lifecycle (s : Session) : Prop where
  stage       : Stage s
  posted      : ∀ h ∈ s.posted, h.isPosted = true
  completions : ∀ h ∈ s.completions, h ≠ .removeSession

section Lifecycle

variable {host : ByteOrder} {s s' : Session}

theorem Lifecycle.new (stream : Bytes) : Lifecycle (Session.new stream) where
  stage := .live rfl rfl rfl rfl (Option.some_ne_none _).symm
  posted := fun _ hx => absurd hx List.not_mem_nil
  completions := fun _ hx => absurd hx List.not_mem_nil

/-- A change that keeps the stage, while the strand does not end a stop handler. -/
theorem Stage.of_same (h : Stage s) (hstopped : s'.isStopped = s.isStopped)
    (hsocket : s'.socketOpen = s.socketOpen) (hclosings : s'.closings = s.closings)
    (hremovals : s'.removals = s.removals)
    (hrunning : s'.running = some .removeSession ↔ s.running = some .removeSession) : Stage s' := by
  cases h with
  | live h₁ h₂ h₃ h₄ h₅ =>
      exact .live (hstopped.trans h₁) (hsocket.trans h₂) (hclosings.trans h₃) (hremovals.trans h₄)
        fun h => h₅ (hrunning.mp h)
  | closing h₁ h₂ h₃ h₄ h₅ =>
      exact .closing (hstopped.trans h₁) (hsocket.trans h₂) (hclosings.trans h₃)
        (hremovals.trans h₄) (hrunning.mpr h₅)
  | removed h₁ h₂ h₃ h₄ h₅ =>
      exact .removed (hstopped.trans h₁) (hsocket.trans h₂) (hclosings.trans h₃)
        (hremovals.trans h₄) fun h => h₅ (hrunning.mp h)

/-- The strand starts a handler that is queued. -/
theorem Lifecycle.start (h : Lifecycle s) {x : Handler} {posted completions : List Handler}
    (hidle : s.running = none) (hx : x ≠ .removeSession) (hposted : ∀ y ∈ posted, y ∈ s.posted)
    (hdone : ∀ y ∈ completions, y ∈ s.completions) :
    Lifecycle { s with posted := posted, completions := completions, running := some x } where
  stage := by
    refine h.stage.of_same rfl rfl rfl rfl ?_
    rw [hidle, Option.some_inj]
    constructor
    · intro hr
      exact absurd hr hx
    · intro hr
      cases hr
  posted := fun y hy => h.posted y (hposted y hy)
  completions := fun y hy => h.completions y (hdone y hy)

/-- An operation completes. -/
theorem Lifecycle.complete (h : Lifecycle s) {x : Handler} (hx : x ≠ .removeSession)
    (hlife : Stage s') (hposted : s'.posted = s.posted)
    (hdone : s'.completions = s.completions ++ [x]) : Lifecycle s' where
  stage := hlife
  posted := by
    rw [hposted]
    exact h.posted
  completions := by
    intro y hy
    rw [hdone] at hy
    rcases List.mem_append.mp hy with hy | hy
    · exact h.completions y hy
    · rw [List.mem_singleton.mp hy]
      exact hx

theorem Lifecycle.completeRead (h : Lifecycle s) (op : ReadOp) (rest : List ReadOp) (ec : Bool)
    (k : Nat) : Lifecycle (s.completeRead op rest ec k) := by
  cases op with
  | header =>
      exact h.complete (x := .headerRead ec k) Handler.noConfusion
        (h.stage.of_same rfl rfl rfl rfl Iff.rfl) rfl rfl
  | payload header =>
      exact h.complete (x := .payloadRead header ec) Handler.noConfusion
        (h.stage.of_same rfl rfl rfl rfl Iff.rfl) rfl rfl

/-- The strand has taken a handler other than the end of a stop handler. -/
theorem Lifecycle.taken (h : Lifecycle s) {x : Handler} (hrunning : s.running = some x)
    (hx : x ≠ .removeSession) : Lifecycle ({ s with running := none } : Session) where
  stage := by
    refine h.stage.of_same rfl rfl rfl rfl ?_
    rw [hrunning, Option.some_inj]
    constructor
    · intro hr
      cases hr
    · intro hr
      exact absurd hr hx
  posted := h.posted
  completions := h.completions

/-- A handler that only posts. -/
theorem Lifecycle.post (h : Lifecycle s) {xs : List Handler} (hxs : ∀ x ∈ xs, x.isPosted = true)
    (hlife : Stage s') (hposted : s'.posted = s.posted ++ xs)
    (hdone : s'.completions = s.completions) : Lifecycle s' where
  stage := hlife
  posted := by
    intro y hy
    rw [hposted] at hy
    rcases List.mem_append.mp hy with hy | hy
    · exact h.posted y hy
    · exact hxs y hy
  completions := by
    rw [hdone]
    exact h.completions

theorem Lifecycle.stop (h : Lifecycle s) : Lifecycle s.stop where
  stage := h.stage.of_same rfl rfl rfl rfl Iff.rfl
  posted := posted_concat h.posted rfl
  completions := h.completions

/-- A handler goes through at most one stage. -/
theorem Lifecycle.resume (h : Lifecycle s) {x : Handler} (hrunning : s.running = some x) :
    Lifecycle (({ s with running := none } : Session).execute host x) := by
  cases hread : x.isRead with
  | true =>
      -- a read handler closes nothing, it asks for a stop at most
      have hx : x ≠ .removeSession := by
        rintro rfl
        cases hread
      have htaken := h.taken hrunning hx
      have hcase := execute_read host ({ s with running := none } : Session) hread
      generalize ({ s with running := none } : Session).execute host x = t at hcase
      cases hcase with
      | failed => exact htaken.stop
      | malformed => exact htaken.stop
      | oversize => exact htaken.stop
      | announced =>
          exact ⟨htaken.stage.of_same rfl rfl rfl rfl Iff.rfl, h.posted, h.completions⟩
      | empty =>
          refine htaken.post Packet.posts_isPosted ?_ rfl rfl
          exact htaken.stage.of_same rfl rfl rfl rfl Iff.rfl
      | complete =>
          refine htaken.post Packet.posts_isPosted ?_ rfl rfl
          exact htaken.stage.of_same rfl rfl rfl rfl Iff.rfl
  | false =>
      have hcase := execute_other host ({ s with running := none } : Session) hread
      generalize ({ s with running := none } : Session).execute host x = t at hcase
      have htaken := h.taken hrunning
      cases hcase with
      | again => exact htaken Handler.noConfusion
      | closes hlive =>
          refine ⟨?_, h.posted, h.completions⟩
          cases h.stage with
          | live _ _ hclosings hremovals =>
              exact .closing rfl rfl (congrArg (· + 1) hclosings) hremovals rfl
          | closing hstopped => cases hlive.symm.trans hstopped
          | removed hstopped => cases hlive.symm.trans hstopped
      | removes =>
          refine ⟨?_, h.posted, h.completions⟩
          cases h.stage with
          | live _ _ _ _ hno => exact absurd hrunning hno
          | closing hstopped hclosed hclosings hremovals =>
              exact .removed hstopped hclosed hclosings (congrArg (· + 1) hremovals)
                (Option.some_ne_none _).symm
          | removed _ _ _ _ hno => exact absurd hrunning hno
      | sends =>
          have hkept := htaken Handler.noConfusion
          exact ⟨hkept.stage.of_same rfl rfl rfl rfl Iff.rfl, h.posted, h.completions⟩
      | pops =>
          have hkept := htaken Handler.noConfusion
          exact ⟨hkept.stage.of_same rfl rfl rfl rfl Iff.rfl, h.posted, h.completions⟩
      | writeFailed => exact (htaken Handler.noConfusion).stop

/-- **ONE STEP** of a session goes through at most one stage of its life. -/
theorem Lifecycle.step (h : Lifecycle s) {e : Event} (hstep : Session.Step host s e s') :
    Lifecycle s' := by
  cases hstep with
  | readCompletes => exact h.completeRead _ _ _ _
  | readFails => exact h.completeRead _ _ _ _
  | transmit =>
      exact ⟨h.stage.of_same rfl rfl rfl rfl Iff.rfl, h.posted, h.completions⟩
  | writeCompletes =>
      exact h.complete Handler.noConfusion (h.stage.of_same rfl rfl rfl rfl Iff.rfl) rfl rfl
  | writeFails =>
      exact h.complete Handler.noConfusion (h.stage.of_same rfl rfl rfl rfl Iff.rfl) rfl rfl
  | @startPosted x rest hidle hposted =>
      have hmem : ∀ y ∈ x :: rest, y ∈ s.posted := by
        intro y hy
        rw [hposted]
        exact hy
      have hx : x ≠ .removeSession := by
        rintro rfl
        cases h.posted _ (hmem _ List.mem_cons_self)
      exact h.start hidle hx (fun y hy => hmem y (List.mem_cons_of_mem _ hy)) fun y hy => hy
  | @startCompletion before after x hidle hdone =>
      have hmem : ∀ y, y ∈ before ++ x :: after → y ∈ s.completions := by
        intro y hy
        rw [hdone]
        exact hy
      refine h.start hidle (h.completions x (hmem x ?_)) (fun y hy => hy) fun y hy => hmem y ?_
      · exact List.mem_append_right _ List.mem_cons_self
      · rcases List.mem_append.mp hy with hy | hy
        · exact List.mem_append_left _ hy
        · exact List.mem_append_right _ (List.mem_cons_of_mem _ hy)
  | resume hrunning => exact h.resume hrunning
  | requestStop => exact h.stop

/-- `removeSession` is called where a stop handler ends, and nowhere else. -/
theorem Lifecycle.removals_step (h : Lifecycle s) {e : Event} (hstep : Session.Step host s e s') :
    s'.removals = if e = .resume ∧ s.running = some .removeSession then 1 else s.removals := by
  cases hstep with
  | @readCompletes op => cases op <;> rfl
  | @readFails op => cases op <;> rfl
  | transmit => rfl
  | writeCompletes => rfl
  | writeFails => rfl
  | startPosted => rfl
  | startCompletion => rfl
  | requestStop => rfl
  | @resume x hrunning =>
      rw [hrunning]
      cases hread : x.isRead with
      | true =>
          have hx : x ≠ .removeSession := by
            rintro rfl
            cases hread
          rw [if_neg fun hr => hx (Option.some.inj hr.2)]
          have hcase := execute_read host ({ s with running := none } : Session) hread
          generalize ({ s with running := none } : Session).execute host x = t at hcase
          cases hcase <;> rfl
      | false =>
          have hcase := execute_other host ({ s with running := none } : Session) hread
          generalize ({ s with running := none } : Session).execute host x = t at hcase
          cases hcase with
          | removes =>
              rw [if_pos ⟨rfl, rfl⟩]
              cases h.stage with
              | live _ _ _ _ hno => exact absurd hrunning hno
              | closing _ _ _ hremovals => exact congrArg (· + 1) hremovals
              | removed _ _ _ _ hno => exact absurd hrunning hno
          | again => rfl
          | closes => rfl
          | sends => rfl
          | pops => rfl
          | writeFailed => rfl

/-- A session that was removed had closed its socket. -/
theorem Lifecycle.once (h : Lifecycle s) :
    s.closings ≤ 1 ∧ s.removals ≤ s.closings ∧ (s.isStopped = true ↔ s.closings = 1)
      ∧ (s.isStopped = true ↔ s.socketOpen = false) := by
  cases h.stage with
  | live h₁ h₂ h₃ h₄ =>
      rw [h₁, h₂, h₃, h₄]
      decide
  | closing h₁ h₂ h₃ h₄ =>
      rw [h₁, h₂, h₃, h₄]
      decide
  | removed h₁ h₂ h₃ h₄ =>
      rw [h₁, h₂, h₃, h₄]
      decide

/-- A handler leaves the session stopped if it was or if it is a stop handler; what is
    posted stays. -/
theorem execute_stopped (host : ByteOrder) (s : Session) {x : Handler}
    (hx : s.isStopped = true ∨ x = .stop) : (s.execute host x).isStopped = true := by
  cases hread : x.isRead with
  | true =>
      have hstopped : s.isStopped = true := by
        refine hx.resolve_right ?_
        rintro rfl
        cases hread
      have hcase := execute_read host s hread
      generalize s.execute host x = t at hcase
      cases hcase <;> exact hstopped
  | false =>
      have hcase := execute_other host s hread
      generalize s.execute host x = t at hcase
      cases hcase with
      | again hstopped => exact hstopped
      | closes => rfl
      | removes => exact hx.resolve_right Handler.noConfusion
      | sends => exact hx.resolve_right Handler.noConfusion
      | pops => exact hx.resolve_right Handler.noConfusion
      | writeFailed => exact hx.resolve_right Handler.noConfusion

theorem execute_posted (host : ByteOrder) (s : Session) (x : Handler) :
    s.posted <+: (s.execute host x).posted := by
  cases hread : x.isRead with
  | true =>
      have hcase := execute_read host s hread
      generalize s.execute host x = t at hcase
      cases hcase with
      | failed => exact List.prefix_append _ _
      | malformed => exact List.prefix_append _ _
      | oversize => exact List.prefix_append _ _
      | announced => exact List.prefix_rfl
      | empty => exact List.prefix_append _ _
      | complete => exact List.prefix_append _ _
  | false =>
      have hcase := execute_other host s hread
      generalize s.execute host x = t at hcase
      cases hcase with
      | again => exact List.prefix_rfl
      | closes => exact List.prefix_rfl
      | removes => exact List.prefix_rfl
      | sends => exact List.prefix_rfl
      | pops => exact List.prefix_rfl
      | writeFailed => exact List.prefix_append _ _

/-- A session stays stopped. -/
theorem isStopped_step (h : s.isStopped = true) {e : Event} (hstep : Session.Step host s e s') :
    s'.isStopped = true := by
  cases hstep with
  | @readCompletes op => cases op <;> exact h
  | @readFails op => cases op <;> exact h
  | transmit => exact h
  | writeCompletes => exact h
  | writeFails => exact h
  | startPosted => exact h
  | startCompletion => exact h
  | resume => exact execute_stopped host _ (Or.inl h)
  | requestStop => exact h

/-! ## A live session is attended to -/

/-- A read is outstanding, or something is queued or running that will read, or stop
    the session. -/
def Session.Attended (s : Session) : Prop :=
  s.reads ≠ [] ∨ (∃ h : Handler, h.isRead = true ∧ s.Pending h) ∨ s.Pending .stop

theorem Session.attended_start (s : Session) : s.start.Attended := by
  refine Or.inl fun hnil => ?_
  cases (List.append_eq_nil_iff.mp hnil).2

/-- A completing read leaves its handler. -/
theorem attended_completeRead (s : Session) (op : ReadOp) (rest : List ReadOp) (ec : Bool)
    (k : Nat) : (s.completeRead op rest ec k).Attended := by
  refine Or.inr (Or.inl ⟨op.handler ec k, op.handler_isRead ec k, Or.inr (Or.inl ?_)⟩)
  cases op <;> exact List.mem_append_right _ (List.mem_singleton_self _)

/-- A step that keeps what is pending. -/
theorem Session.Attended.mono (h : s.Attended) (hreads : s'.reads = s.reads)
    (hpending : ∀ x : Handler, x.isRead = true ∨ x = .stop → s.Pending x → s'.Pending x) :
    s'.Attended := by
  rcases h with h | ⟨x, hx, hp⟩ | h
  · exact Or.inl (hreads ▸ h)
  · exact Or.inr (Or.inl ⟨x, hx, hpending x (Or.inl hx) hp⟩)
  · exact Or.inr (Or.inr (hpending .stop (Or.inr rfl) h))

/-- Every exit of a read handler starts a read or posts a stop. -/
theorem attended_read {x : Handler} (hread : x.isRead = true) : (s.execute host x).Attended := by
  have hcase := execute_read host s hread
  generalize s.execute host x = t at hcase
  have hstop : s.stop.Attended := Or.inr (Or.inr (Or.inl
    (List.mem_append_right _ (List.mem_singleton_self _))))
  have hreads : ∀ {t : Session} {op : ReadOp}, t.reads = s.reads ++ [op] → t.Attended := by
    intro t op ht
    refine Or.inl fun hnil => ?_
    rw [ht] at hnil
    cases (List.append_eq_nil_iff.mp hnil).2
  cases hcase with
  | failed => exact hstop
  | malformed => exact hstop
  | oversize => exact hstop
  | announced => exact hreads rfl
  | empty => exact hreads rfl
  | complete => exact hreads rfl

/-- **ATTENDED**: a live session stays attended to. -/
theorem Session.Attended.step (h : s.isStopped = false → s.Attended) {e : Event}
    (hstep : Session.Step host s e s') (hlive : s'.isStopped = false) : s'.Attended := by
  cases hstep with
  | readCompletes => exact attended_completeRead _ _ _ _ _
  | readFails => exact attended_completeRead _ _ _ _ _
  | transmit => exact (h hlive).mono rfl fun x _ hp => hp
  | writeCompletes =>
      exact (h hlive).mono rfl fun x _ hp =>
        Or.imp_right (Or.imp_left (List.mem_append_left _)) hp
  | writeFails =>
      exact (h hlive).mono rfl fun x _ hp =>
        Or.imp_right (Or.imp_left (List.mem_append_left _)) hp
  | startPosted hidle hposted =>
      exact (h hlive).mono rfl fun x _ hp => (Session.pending_startPosted hidle hposted).mpr hp
  | startCompletion hidle hdone =>
      exact (h hlive).mono rfl fun x _ hp => (Session.pending_startCompletion hidle hdone).mpr hp
  | requestStop =>
      exact Or.inr (Or.inr (Or.inl (List.mem_append_right _ (List.mem_singleton_self _))))
  | @resume x hrunning =>
      cases hread : x.isRead with
      | true => exact attended_read hread
      | false =>
          have hcase := execute_other host ({ s with running := none } : Session) hread
          generalize ({ s with running := none } : Session).execute host x = t at hcase hlive ⊢
          -- the handler is neither a read handler nor, the session being live, a stop handler
          have hother : x ≠ .stop → ∀ y : Handler, y.isRead = true ∨ y = .stop → s.Pending y →
              y ∈ s.posted ∨ y ∈ s.completions := by
            intro hx y hy hp
            rcases hp with hp | hp | hp
            · exact Or.inl hp
            · exact Or.inr hp
            · obtain rfl := Option.some.inj (hrunning.symm.trans hp)
              rcases hy with hy | hy
              · cases hread.symm.trans hy
              · exact absurd hy hx
          cases hcase with
          | again hstopped => cases hlive.symm.trans hstopped
          | closes => cases hlive
          | removes =>
              exact (h hlive).mono rfl fun y hy hp =>
                Or.imp_right Or.inl (hother Handler.noConfusion y hy hp)
          | sends =>
              exact (h hlive).mono rfl fun y hy hp =>
                Or.imp_right Or.inl (hother Handler.noConfusion y hy hp)
          | pops =>
              exact (h hlive).mono rfl fun y hy hp =>
                Or.imp_right Or.inl (hother Handler.noConfusion y hy hp)
          | writeFailed =>
              exact Or.inr (Or.inr (Or.inl (List.mem_append_right _ (List.mem_singleton_self _))))

end Lifecycle

end AsyncNet
