import AsyncNetLob.NetClientProofs
import Mathlib.Algebra.Order.BigOperators.Group.List
import Mathlib.Algebra.Group.Action.Defs
import Mathlib.Algebra.Order.Ring.Nat

/-! # The benchmark counts every request

    The clients share nothing but their counters, so a run of the benchmark is a run of
    each link (`Run.component`), and the counters are sums over the links (`Counted`). -/

namespace AsyncNet

open Protocol Transition

section Benchmark

variable {clientHost host : ByteOrder} {n : ℕ} {payload : Bytes}

/-- The counters of a worker never go back. -/
theorem Link.Step.counts {l l' : Link} {e : LinkEvent}
    (h : Link.Step clientHost host n payload l e l') :
    l.client.completed ≤ l'.client.completed ∧ l.client.errors ≤ l'.client.errors := by
  cases h with
  | session => exact ⟨Nat.le_refl _, Nat.le_refl _⟩
  | write =>
      rw [Client.write]
      dsimp only
      split <;> exact ⟨Nat.le_refl _, Nat.le_refl _⟩
  | read =>
      rw [Client.read]
      dsimp only
      split
      · split
        · exact ⟨Nat.le_refl _, Nat.le_succ _⟩
        · split
          · exact ⟨Nat.le_refl _, Nat.le_refl _⟩
          · exact ⟨Nat.le_succ _, Nat.le_refl _⟩
      · exact ⟨Nat.le_succ _, Nat.le_refl _⟩
      · exact ⟨Nat.le_refl _, Nat.le_refl _⟩
  | throws => exact ⟨Nat.le_refl _, Nat.le_succ _⟩

/-- The counters of `main` are the sums of those of its threads. -/
structure Counted (b : Benchmark) : Prop where
  completed : b.completedRequests = (b.links.map fun l => l.client.completed).sum
  errors    : b.errorCount = (b.links.map fun l => l.client.errors).sum

theorem Counted.advance {b : Benchmark} (h : Counted b) {k : ℕ} {l l' : Link}
    (hlink : b.links[k]? = some l) (hcompleted : l.client.completed ≤ l'.client.completed)
    (herrors : l.client.errors ≤ l'.client.errors) : Counted (b.advance k l l') := by
  constructor
  · have hsum := sum_map_set (fun l => l.client.completed) (y := l') hlink
    have hbefore := h.completed
    show b.completedRequests + (l'.client.completed - l.client.completed)
      = ((b.links.set k l').map fun l => l.client.completed).sum
    omega
  · have hsum := sum_map_set (fun l => l.client.errors) (y := l') hlink
    have hbefore := h.errors
    show b.errorCount + (l'.client.errors - l.client.errors)
      = ((b.links.set k l').map fun l => l.client.errors).sum
    omega

theorem Counted.step {b b' : Benchmark} {e : ℕ × LinkEvent} (h : Counted b)
    (hstep : Benchmark.Step clientHost host n payload b e b') : Counted b' := by
  cases hstep with
  | client hlink hstep => exact h.advance hlink hstep.counts.1 hstep.counts.2

theorem Counted.started (m n : ℕ) : Counted (Benchmark.started m n) := by
  constructor <;>
  · rw [Benchmark.started, List.map_replicate, List.sum_replicate_nat]
    rfl

/-- The links of a benchmark take turns. -/
theorem Benchmark.Step.interleaved {b b' : Benchmark} {e : ℕ × LinkEvent}
    (h : Benchmark.Step clientHost host n payload b e b') :
    Interleaved (Link.Step clientHost host n payload) b.links e b'.links := by
  cases h with
  | client hlink hstep => exact ⟨_, _, hlink, hstep, rfl⟩

/-- A worker that has returned has completed its requests. -/
theorem Serving.hungUp_completed {l : Link} (h : Serving host n payload l)
    (hhung : l.client.HungUp) : l.client.completed = n := by
  rw [h.completed]
  exact (h.phase.of_hungUp hhung).1

section Run

variable {m : ℕ} {es : List (ℕ × LinkEvent)} {b : Benchmark}
  (hrun : Run (Benchmark.Step clientHost host n payload) (Benchmark.started m n) es b)
include hrun

theorem Benchmark.interleaved :
    Run (Interleaved (Link.Step clientHost host n payload))
      (List.replicate m (Link.connected n)) es b.links :=
  hrun.map Benchmark.links fun _ _ _ hstep => hstep.interleaved

theorem Benchmark.links_length : b.links.length = m :=
  (Benchmark.interleaved hrun).interleaved_length.trans List.length_replicate

/-- Each link has had a run of its own. -/
theorem Benchmark.link_run {l : Link} (hl : l ∈ b.links) :
    ∃ fs, Run (Link.Step clientHost host n payload) (Link.connected n) fs l := by
  obtain ⟨k, hk, hget⟩ := List.getElem_of_mem hl
  have hstart : (List.replicate m (Link.connected n))[k]? = some (Link.connected n) := by
    rw [List.getElem?_replicate, if_pos (Benchmark.links_length hrun ▸ hk)]
  obtain ⟨t, ht, hone⟩ := (Benchmark.interleaved hrun).component hstart
  obtain rfl : t = l := by
    rw [List.getElem?_eq_getElem hk, hget] at ht
    exact (Option.some.inj ht).symm
  exact ⟨_, hone⟩

theorem Benchmark.steps_le (hlimit : payload.length ≤ maxPayloadSize) :
    es.length ≤ m * (n * (5 * payload.length + 42) + 38) := by
  have hbound := (Benchmark.interleaved hrun).interleaved_bound
    (n := n * (5 * payload.length + 42) + 38) fun s hs fs t hfs => by
      rw [List.eq_of_mem_replicate hs] at hfs
      exact (connected_serves hlimit hfs).2
  rw [List.length_replicate] at hbound
  exact hbound

/-- A benchmark that nothing leaves has been joined. -/
theorem Benchmark.joined_of_last (hlimit : payload.length ≤ maxPayloadSize)
    (hlast : ∀ e b', ¬ Benchmark.Step clientHost host n payload b e b') : b.Joined := by
  intro l hl
  obtain ⟨fs, hfs⟩ := Benchmark.link_run hrun hl
  obtain ⟨k, hk, rfl⟩ := List.getElem_of_mem hl
  have hstuck : Link.Stuck clientHost host n payload b.links[k] := fun e l' hstep =>
    hlast _ _ (.client (List.getElem?_eq_getElem hk) hstep)
  exact Or.inl ((connected_serves hlimit hfs).1.finished hlimit hstuck).worker

end Run

/-- What a benchmark with `m` clients has come to. -/
structure Benchmark.Measured (m n : ℕ) (payload : Bytes) (es : List (ℕ × LinkEvent))
    (b : Benchmark) : Prop where
  steps     : es.length ≤ m * (n * (5 * payload.length + 42) + 38)
  errors    : b.errorCount = 0
  completed : b.completedRequests ≤ m * n
  /-- When all threads can be joined, every request was answered. -/
  joined    : b.Joined → b.completedRequests = m * n
    ∧ ∀ l ∈ b.links, l.client.responses = List.replicate n (response payload)

/-- **THE BENCHMARK ENDS**, and counts every request of every client and no error. -/
theorem benchmark_measured (clientHost host : ByteOrder) (m n : ℕ) (payload : Bytes)
    (hlimit : payload.length ≤ maxPayloadSize) {es : List (ℕ × LinkEvent)} {b : Benchmark}
    (hrun : Run (Benchmark.Step clientHost host n payload) (Benchmark.started m n) es b) :
    b.Measured m n payload es
      ∧ ∃ es' b', Run (Benchmark.Step clientHost host n payload) b es' b' ∧ b'.Joined := by
  have hcounted := hrun.invariant (I := Counted) (fun _ _ _ hstep h => h.step hstep)
    (Counted.started m n)
  have hlength := Benchmark.links_length hrun
  have hserving : ∀ l ∈ b.links, Serving host n payload l := by
    intro l hl
    obtain ⟨fs, hfs⟩ := Benchmark.link_run hrun hl
    exact (connected_serves hlimit hfs).1
  refine ⟨⟨Benchmark.steps_le hrun hlimit, ?_, ?_, ?_⟩, ?_⟩
  · rw [hcounted.errors, List.sum_eq_card_nsmul _ 0, nsmul_zero]
    intro x hx
    obtain ⟨l, hl, rfl⟩ := List.mem_map.mp hx
    exact (hserving l hl).errors
  · have hle := List.sum_le_card_nsmul (b.links.map fun l => l.client.completed) n fun x hx => by
      obtain ⟨l, hl, rfl⟩ := List.mem_map.mp hx
      exact (hserving l hl).completed_le
    rw [List.length_map, hlength, smul_eq_mul] at hle
    exact hcounted.completed.trans_le hle
  · intro hjoined
    have hdone : ∀ l ∈ b.links, l.client.completed = n := fun l hl =>
      (hserving l hl).hungUp_completed (hjoined l hl)
    refine ⟨?_, fun l hl => ?_⟩
    · rw [hcounted.completed, List.sum_eq_card_nsmul _ n, List.length_map, hlength, smul_eq_mul]
      intro x hx
      obtain ⟨l, hl, rfl⟩ := List.mem_map.mp hx
      exact hdone l hl
    · rw [(hserving l hl).responses, ← (hserving l hl).completed, hdone l hl]
  · obtain ⟨es', b', hmore, hlast⟩ := Run.exists_last (m * (n * (5 * payload.length + 42) + 38))
      fun fs t hfs => by
        have hle := Benchmark.steps_le (hrun.append hfs) hlimit
        rw [List.length_append] at hle
        omega
    exact ⟨es', b', hmore, Benchmark.joined_of_last (hrun.append hmore) hlimit hlast⟩

/-- What `main` runs by default, 20 clients with 1000 requests each, can be joined with
    all of its requests answered, whatever was on the way. -/
theorem benchmark_measured_main :
    ∃ es b, Run (Benchmark.Step .little .big 1000 testPayload) (Benchmark.started 20 1000) es b
      ∧ b.Joined ∧ b.completedRequests = 20000 ∧ b.errorCount = 0
      ∧ ∀ l ∈ b.links, l.client.responses = List.replicate 1000 (response testPayload) := by
  obtain ⟨-, es, b, hrun, hjoined⟩ :=
    benchmark_measured .little .big 20 1000 testPayload (by decide) .nil
  have hmeasured := (benchmark_measured .little .big 20 1000 testPayload (by decide) hrun).1
  obtain ⟨hcompleted, hresponses⟩ := hmeasured.joined hjoined
  exact ⟨es, b, hrun, hjoined, hcompleted, hmeasured.errors, hresponses⟩

end Benchmark

end AsyncNet
