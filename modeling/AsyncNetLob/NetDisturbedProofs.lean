import AsyncNetLob.NetBenchmarkProofs

/-! # The benchmark on connections that break

    Reads and writes may now fail at any time on either side, and others may stop the
    sessions.  A session still sends nothing but the beginning of its replies, so a worker
    still reads nothing but its responses; what it has counted it has read in full, and
    an exception is counted once (`Surviving`).

    No worker is left waiting: where nothing can happen any more, an open session has
    answered (`Resting.settled_of_open`), and a closed one makes `read` throw. -/

namespace AsyncNet

open Protocol Transition

/-- The invariant of a disturbed link. -/
structure Surviving (host : ByteOrder) (n : ℕ) (payload : Bytes) (l : Link) : Prop where
  inLoop    : l.client.worker ≠ .failed → l.client.InLoop host n payload
  responses : l.client.responses = List.replicate l.client.completed (response payload)
  completed : l.client.completed ≤ n
  errors    : l.client.errors = if l.client.worker = .failed then 1 else 0
  begins    : l.client.written
    <+: (requests payload n ++ [disconnectPacket]).flatMap (serializePacket host)
  received  : l.client.received ≤ l.session.outgoing.length
  run       : ∃ es, Run (Session.Step host) (Session.opened l.client.written) es l.session

section Disturbed

variable {clientHost host : ByteOrder} {n : ℕ} {payload : Bytes} {l l' : Link} {c : Client}

theorem ClientPhase.not_failed (h : ClientPhase host n payload c) : c.worker ≠ .failed := by
  intro hfailed
  cases h with
  | writing hworker => cases hworker.symm.trans hfailed
  | readingHeader hworker => cases hworker.symm.trans hfailed
  | readingPayload hworker => cases hworker.symm.trans hfailed
  | disconnecting hworker => cases hworker.symm.trans hfailed
  | closed hworker => cases hworker.symm.trans hfailed

/-- A link whose worker is in its loop. -/
theorem Surviving.of_inLoop (h : l.client.InLoop host n payload) (herrors : l.client.errors = 0)
    (hreceived : l.client.received ≤ l.session.outgoing.length)
    (hrun : ∃ es, Run (Session.Step host) (Session.opened l.client.written) es l.session) :
    Surviving host n payload l where
  inLoop := fun _ => h
  responses := by
    rw [h.completed]
    exact h.responses
  completed := by
    rw [h.completed]
    exact h.phase.i_le
  errors := herrors.trans (if_neg h.phase.not_failed).symm
  begins := h.phase.written_begins
  received := hreceived
  run := hrun

theorem Surviving.connected (host : ByteOrder) (n : ℕ) (payload : Bytes) :
    Surviving host n payload (Link.connected n) :=
  .of_inLoop ⟨ClientPhase.loop (Nat.zero_le _) rfl (Nat.zero_mul _).symm, rfl, rfl⟩ rfl
    (Nat.zero_le _) ⟨[], .nil⟩

/-- The session steps, whatever the step is. -/
theorem Surviving.session (h : Surviving host n payload l) {e : Event} {s' : Session}
    (hstep : Session.Step host l.session e s') :
    Surviving host n payload { l with session := s' } where
  inLoop := h.inLoop
  responses := h.responses
  completed := h.completed
  errors := h.errors
  begins := h.begins
  received := Nat.le_trans h.received (outgoing_grows hstep).length_le
  run := by
    obtain ⟨es, hrun⟩ := h.run
    exact ⟨es ++ [e], hrun.append (.single hstep)⟩

/-- An open worker has counted no error. -/
theorem Surviving.open_inLoop (h : Surviving host n payload l) (hopen : ¬ l.client.HungUp) :
    l.client.InLoop host n payload ∧ l.client.errors = 0 := by
  have hlive : l.client.worker ≠ .failed := fun hfailed => hopen (Or.inr hfailed)
  exact ⟨h.inLoop hlive, h.errors.trans (if_neg hlive)⟩

theorem Surviving.write (h : Surviving host n payload l) {k : ℕ} (hk : 0 < k)
    (hsize : k ≤ (l.client.unsent clientHost payload).length) :
    Surviving host n payload
      { client := l.client.write clientHost payload k
        session := l.session.receive ((l.client.unsent clientHost payload).take k) } := by
  rw [l.client.unsent_host clientHost host] at hsize ⊢
  rw [l.client.write_host clientHost host]
  have hopen : ¬ l.client.HungUp := by
    intro hhung
    rw [(hhung.done host payload).1, List.length_nil] at hsize
    omega
  obtain ⟨hloop, hnone⟩ := h.open_inLoop hopen
  obtain ⟨hwritten, -, herrors, -, hreceived, -⟩ := l.client.write_kept host payload k
  refine .of_inLoop (hloop.write hk hsize) (herrors.trans hnone) (hreceived ▸ h.received) ?_
  obtain ⟨es, hrun⟩ := h.run
  have hlate := hrun.map (·.receive ((l.client.unsent host payload).take k))
    fun _ _ _ hstep => hstep.receive _
  rw [opened_receive, ← hwritten] at hlate
  exact ⟨es, hlate⟩

theorem Surviving.read (h : Surviving host n payload l) (hlimit : payload.length ≤ maxPayloadSize)
    (clientHost : ByteOrder) (hwanted : 0 < l.client.wanted)
    (hsize : l.client.wanted ≤ l.available.length) :
    Surviving host n payload
      { l with client := l.client.read clientHost n (l.available.take l.client.wanted) } := by
  have htake : (l.available.take l.client.wanted).length = l.client.wanted := by
    rw [List.length_take]
    omega
  have hopen : ¬ l.client.HungUp := by
    intro hhung
    rw [(hhung.done host payload).2] at hwanted
    exact Nat.lt_irrefl 0 hwanted
  obtain ⟨hloop, hnone⟩ := h.open_inLoop hopen
  obtain ⟨es, hrun⟩ := h.run
  have hbegins := hloop.phase.available_begins hlimit hwanted hrun
  obtain ⟨hloop', herrors⟩ := hloop.read hlimit clientHost hwanted htake
    ((List.take_prefix _ _).trans hbegins)
  obtain ⟨hwritten, hreceived⟩ :=
    l.client.read_kept clientHost n (l.available.take l.client.wanted)
  rw [← hwritten] at hrun
  refine .of_inLoop hloop' (herrors.trans hnone) ?_ ⟨es, hrun⟩
  have hread := h.received
  rw [Link.available, List.length_drop] at hsize
  rw [hreceived, htake]
  show _ ≤ l.session.outgoing.length
  omega

/-- An exception is counted once. -/
theorem Surviving.throws (h : Surviving host n payload l) (hopen : ¬ l.client.HungUp) :
    Surviving host n payload { l with client := l.client.throw } where
  inLoop := fun hlive => absurd rfl hlive
  responses := h.responses
  completed := h.completed
  errors := congrArg (· + 1) (h.open_inLoop hopen).2
  begins := h.begins
  received := h.received
  run := h.run

/-- **ONE STEP** of a disturbed link. -/
theorem Surviving.step (h : Surviving host n payload l) (hlimit : payload.length ≤ maxPayloadSize)
    {e : LinkEvent} (hstep : Link.Disturbed clientHost host n payload l e l') :
    Surviving host n payload l' := by
  cases hstep with
  | session hstep => exact h.session hstep.1
  | throws hopen => exact h.throws hopen
  | step hstep =>
      have hopen := fun he : e = .throws => Link.Step.throws_open (he ▸ hstep)
      cases hstep with
      | session hstep _ => exact h.session hstep.1
      | write hk hsize => exact h.write hk hsize
      | read hwanted hsize => exact h.read hlimit clientHost hwanted hsize
      | throws => exact h.throws (hopen rfl)

/-! ## No worker waits for ever -/

/-- A call of `stop` is paid for by the caller. -/
def LinkEvent.credit : LinkEvent → ℕ
  | .session e => e.credit
  | _ => 0

/-- A worker in its loop has something to do. -/
theorem Client.InLoop.work_pos (h : c.InLoop host n payload) (hopen : ¬ c.HungUp) :
    0 < c.work n payload := by
  rw [Client.work]
  cases h.phase with
  | writing hworker =>
      rw [hworker]
      dsimp only
      omega
  | readingHeader hworker =>
      rw [hworker]
      dsimp only
      omega
  | readingPayload hworker =>
      rw [hworker]
      dsimp only
      omega
  | disconnecting hworker _ hsent =>
      rw [disconnectBytes_length] at hsent
      rw [hworker]
      dsimp only
      omega
  | closed hworker => exact absurd (Or.inl hworker) hopen

/-- **ONE STEP** of a disturbed link is paid for. -/
theorem Surviving.paid (h : Surviving host n payload l) {e : LinkEvent}
    (hstep : Link.Disturbed clientHost host n payload l e l') :
    1 + l'.work n payload + l.session.outgoing.length
      ≤ l.work n payload + l'.session.outgoing.length + e.credit := by
  cases hstep with
  | @session e s' hstep =>
      have hpaid := hstep.paid
      show 1 + (l.client.work n payload + s'.work) + l.session.outgoing.length
        ≤ l.client.work n payload + l.session.work + s'.outgoing.length + e.credit
      omega
  | throws hopen =>
      have hpaid := (h.open_inLoop hopen).1.work_pos hopen
      show 1 + (0 + l.session.work) + l.session.outgoing.length
        ≤ l.client.work n payload + l.session.work + l.session.outgoing.length + 0
      omega
  | step hstep =>
      refine Nat.le_trans (hstep.paid ?_) (Nat.le_add_right _ _)
      rintro rfl
      have hopen := hstep.throws_open
      exact (h.open_inLoop hopen).1.work_pos hopen

theorem Surviving.outgoing_le (h : Surviving host n payload l)
    (hlimit : payload.length ≤ maxPayloadSize) :
    l.session.outgoing.length ≤ n * (headerSize + payload.length) := by
  obtain ⟨es, hrun⟩ := h.run
  exact (replies_begin hlimit h.begins hrun).2.2

/-! ## The benchmark -/

/-- A link counts up. -/
theorem Link.Disturbed.counts {e : LinkEvent}
    (hstep : Link.Disturbed clientHost host n payload l e l') :
    l.client.completed ≤ l'.client.completed ∧ l.client.errors ≤ l'.client.errors := by
  cases hstep with
  | step hstep => exact hstep.counts
  | session => exact ⟨Nat.le_refl _, Nat.le_refl _⟩
  | throws => exact ⟨Nat.le_refl _, Nat.le_succ _⟩

/-- The invariant of a disturbed benchmark. -/
structure Enduring (host : ByteOrder) (m n : ℕ) (payload : Bytes) (b : Benchmark) : Prop where
  counted : Counted b
  length  : b.links.length = m
  links   : ∀ l ∈ b.links, Surviving host n payload l

variable {m : ℕ} {b b' : Benchmark}

theorem Enduring.started (host : ByteOrder) (m n : ℕ) (payload : Bytes) :
    Enduring host m n payload (Benchmark.started m n) where
  counted := .started m n
  length := List.length_replicate
  links := fun l hl => by
    rw [List.eq_of_mem_replicate hl]
    exact .connected host n payload

theorem Enduring.step (h : Enduring host m n payload b) (hlimit : payload.length ≤ maxPayloadSize)
    {e : ℕ × LinkEvent} (hstep : Benchmark.Disturbed clientHost host n payload b e b') :
    Enduring host m n payload b' := by
  cases hstep with
  | @client k e l l' hlink hstep =>
      have hl := h.links l (List.mem_of_getElem? hlink)
      obtain ⟨hcompleted, herrors⟩ := hstep.counts
      refine ⟨h.counted.advance hlink hcompleted herrors, ?_, ?_⟩
      · exact List.length_set.trans h.length
      · intro t ht
        rcases List.mem_or_eq_of_mem_set ht with ht | rfl
        · exact h.links t ht
        · exact hl.step hlimit hstep

/-- The steps that the threads and sessions can still take. -/
def Benchmark.work (n : ℕ) (payload : Bytes) (b : Benchmark) : ℕ :=
  (b.links.map (Link.work n payload)).sum

/-- The bytes that the sessions have sent. -/
def Benchmark.output (b : Benchmark) : ℕ := (b.links.map fun l => l.session.outgoing.length).sum

theorem Enduring.paid (h : Enduring host m n payload b) {e : ℕ × LinkEvent}
    (hstep : Benchmark.Disturbed clientHost host n payload b e b') :
    1 + b'.work n payload + b.output ≤ b.work n payload + b'.output + e.2.credit := by
  cases hstep with
  | @client k e l l' hlink hstep =>
      have hpaid := (h.links l (List.mem_of_getElem? hlink)).paid hstep
      have hwork := sum_map_set (Link.work n payload) (y := l') hlink
      have hout := sum_map_set (fun l => l.session.outgoing.length) (y := l') hlink
      show 1 + ((b.links.set k l').map (Link.work n payload)).sum
          + (b.links.map fun l => l.session.outgoing.length).sum
        ≤ (b.links.map (Link.work n payload)).sum
          + ((b.links.set k l').map fun l => l.session.outgoing.length).sum + e.credit
      omega

theorem Enduring.output_le (h : Enduring host m n payload b)
    (hlimit : payload.length ≤ maxPayloadSize) :
    b.output ≤ m * (n * (headerSize + payload.length)) := by
  have hle := List.sum_le_card_nsmul (b.links.map fun l => l.session.outgoing.length)
    (n * (headerSize + payload.length)) fun x hx => by
      obtain ⟨l, hl, rfl⟩ := List.mem_map.mp hx
      exact (h.links l hl).outgoing_le hlimit
  rwa [List.length_map, h.length, smul_eq_mul] at hle

/-- **A RUN** is as long as its work and its disturbances allow. -/
theorem Enduring.run (h : Enduring host m n payload b) (hlimit : payload.length ≤ maxPayloadSize)
    {es : List (ℕ × LinkEvent)}
    (hrun : Run (Benchmark.Disturbed clientHost host n payload) b es b') :
    Enduring host m n payload b' ∧ es.length ≤ b.work n payload
      + m * (n * (headerSize + payload.length)) + (es.map fun e => e.2.credit).sum := by
  have hstep : ∀ s e s', Benchmark.Disturbed clientHost host n payload s e s' →
      Enduring host m n payload s → Enduring host m n payload s' :=
    fun _ _ _ hs he => he.step hlimit hs
  have hend := hrun.invariant hstep h
  have hpaid := (hrun.guarded hstep h).potential (Φ := Benchmark.work n payload)
    (G := Benchmark.output) (C := fun e => e.2.credit) fun _ _ _ hs => hs.2.paid hs.1
  have hout := hend.output_le hlimit
  exact ⟨hend, by omega⟩

theorem Enduring.errors (h : Enduring host m n payload b) :
    b.errorCount = b.links.countP fun l => l.client.worker = .failed := by
  rw [h.counted.errors]
  have hlinks := h.links
  generalize b.links = links at hlinks
  induction links with
  | nil => rfl
  | cons l links ih =>
      rw [List.map_cons, List.sum_cons, ih fun l' hl' => hlinks l' (List.mem_cons_of_mem _ hl'),
        List.countP_cons, (hlinks l List.mem_cons_self).errors, Nat.add_comm]
      simp only [decide_eq_true_eq]

end Disturbed

end AsyncNet
