import Mathlib.Algebra.GroupWithZero.Nat
import Mathlib.Data.List.Basic

/-! # Runs of transition systems

    A transition system is a relation `step s e s'`: in state `s` the event `e` can
    lead to `s'`.  `Run step s es s'` follows a list of events.

    * `Run.invariant`: what every step preserves holds after every run;
    * `Run.potential`: a potential that pays for every step bounds the length of a run;
    * `Run.exists_last`: where runs are bounded, one of them can go no further;
    * `Guarded step P`: the steps that meet a condition on the event and the state
      before it;
    * `Run.refines`: a run is one of a system that sees only some of its steps;
    * `Run.realizes`: a run is what one of a finer system looks like, step by step;
    * `Interleaved step`: systems side by side, of which one steps at a time.  A run of
      all is a run of each (`Run.component`). -/

namespace Transition

variable {σ ε : Type} {step : σ → ε → σ → Prop}

inductive Run (step : σ → ε → σ → Prop) : σ → List ε → σ → Prop where
  | nil {s : σ} : Run step s [] s
  | cons {s s' t : σ} {e : ε} {es : List ε} (first : step s e s') (rest : Run step s' es t) :
      Run step s (e :: es) t

/-- The steps that meet a condition. -/
def Guarded (step : σ → ε → σ → Prop) (P : ε → σ → Prop) (s : σ) (e : ε) (s' : σ) : Prop :=
  step s e s' ∧ P e s

theorem Run.single {s s' : σ} {e : ε} (h : step s e s') : Run step s [e] s' := .cons h .nil

theorem Run.append {s m t : σ} {as bs : List ε} (h : Run step s as m) (h' : Run step m bs t) :
    Run step s (as ++ bs) t := by
  induction h with
  | nil => exact h'
  | cons first _ ih => exact .cons first (ih h')

/-- **INVARIANTS**: what every step preserves holds after every run. -/
theorem Run.invariant {I : σ → Prop} (hstep : ∀ s e s', step s e s' → I s → I s')
    {s t : σ} {es : List ε} (h : Run step s es t) (hs : I s) : I t := by
  induction h with
  | nil => exact hs
  | cons first _ ih => exact ih (hstep _ _ _ first hs)

/-- The same for what also depends on the events so far. -/
theorem Run.historic {I : List ε → σ → Prop}
    (hstep : ∀ es s e s', step s e s' → I es s → I (es ++ [e]) s') {before : List ε}
    {s t : σ} {es : List ε} (h : Run step s es t) (hs : I before s) : I (before ++ es) t := by
  induction h generalizing before with
  | nil =>
      rw [List.append_nil]
      exact hs
  | @cons s s' t e es first _ ih =>
      have hall := ih (hstep before s e s' first hs)
      rw [List.append_assoc] at hall
      exact hall

/-- **POTENTIAL**: if every step is paid for by a potential `Φ` that falls, a gauge `G`
    that rises and the credit `C` of its event, so is the length of a run. -/
theorem Run.potential {Φ G : σ → ℕ} {C : ε → ℕ}
    (hstep : ∀ s e s', step s e s' → 1 + Φ s' + G s ≤ Φ s + G s' + C e)
    {s t : σ} {es : List ε} (h : Run step s es t) :
    es.length + Φ t + G s ≤ Φ s + G t + (es.map C).sum := by
  induction h with
  | nil =>
      simp only [List.length_nil, List.map_nil, List.sum_nil]
      omega
  | cons first _ ih =>
      have hfirst := hstep _ _ _ first
      simp only [List.length_cons, List.map_cons, List.sum_cons]
      omega

/-- **TERMINATION**: bounded runs end in a state that no step leaves. -/
theorem Run.exists_last {s : σ} (n : ℕ) (hbound : ∀ es t, Run step s es t → es.length ≤ n) :
    ∃ es t, Run step s es t ∧ ∀ e t', ¬ step t e t' := by
  by_contra hno
  have hlong : ∀ k, ∃ es t, Run step s es t ∧ es.length = k := by
    intro k
    induction k with
    | zero => exact ⟨[], s, .nil, rfl⟩
    | succ k ih =>
        obtain ⟨es, t, hrun, hlen⟩ := ih
        obtain ⟨e, t', hstep⟩ : ∃ e t', step t e t' := by
          by_contra hstuck
          exact hno ⟨es, t, hrun, fun e t' hstep => hstuck ⟨e, t', hstep⟩⟩
        refine ⟨es ++ [e], t', hrun.append (.single hstep), ?_⟩
        rw [List.length_append, hlen, List.length_singleton]
  obtain ⟨es, t, hrun, hlen⟩ := hlong (n + 1)
  have hle := hbound es t hrun
  omega

/-- More steps make more runs. -/
theorem Run.mono {step' : σ → ε → σ → Prop} (hstep : ∀ s e s', step s e s' → step' s e s')
    {s t : σ} {es : List ε} (h : Run step s es t) : Run step' s es t := by
  induction h with
  | nil => exact .nil
  | cons first _ ih => exact .cons (hstep _ _ _ first) ih

/-- The steps of a run may be taken to start where an invariant holds. -/
theorem Run.guarded {I : σ → Prop} (hstep : ∀ s e s', step s e s' → I s → I s')
    {s t : σ} {es : List ε} (h : Run step s es t) (hs : I s) :
    Run (Guarded step fun _ => I) s es t := by
  induction h with
  | nil => exact .nil
  | cons first _ ih => exact .cons ⟨first, hs⟩ (ih (hstep _ _ _ first hs))

/-- A run whose events all meet the condition, in whatever state. -/
theorem Run.guarded_of_events {P : ε → σ → Prop} {s t : σ} {es : List ε} (h : Run step s es t)
    (hall : ∀ e ∈ es, ∀ s, P e s) : Run (Guarded step P) s es t := by
  induction h with
  | nil => exact .nil
  | cons first _ ih =>
      have htail := ih fun e he => hall e (List.mem_cons_of_mem _ he)
      exact .cons ⟨first, hall _ List.mem_cons_self _⟩ htail

/-- A guarded run is a run. -/
theorem Run.unguarded {P : ε → σ → Prop} {s t : σ} {es : List ε}
    (h : Run (Guarded step P) s es t) : Run step s es t :=
  h.mono fun _ _ _ hg => hg.1

/-- What a step looks like from outside. -/
theorem Run.map {τ : Type} {step' : τ → ε → τ → Prop} (f : σ → τ)
    (hstep : ∀ s e s', step s e s' → step' (f s) e (f s')) {s t : σ} {es : List ε}
    (h : Run step s es t) : Run step' (f s) es (f t) := by
  induction h with
  | nil => exact .nil
  | cons first _ ih => exact .cons (hstep _ _ _ first) ih

/-- **REFINEMENT**: where every step is a step of a coarser system or leaves its state as
    it is, a run is one of the coarser system. -/
theorem Run.refines {τ δ : Type} {step' : τ → δ → τ → Prop} (f : σ → τ) (seen : ε → Option δ)
    (hstep : ∀ s e s', step s e s' → (∀ d, seen e = some d → step' (f s) d (f s'))
      ∧ (seen e = none → f s' = f s)) {s t : σ} {es : List ε} (h : Run step s es t) :
    Run step' (f s) (es.filterMap seen) (f t) := by
  induction h with
  | nil => exact .nil
  | @cons s s' t e es first _ ih =>
      obtain ⟨hseen, hhidden⟩ := hstep s e s' first
      cases he : seen e with
      | none =>
          rw [List.filterMap_cons_none he, ← hhidden he]
          exact ih
      | some d =>
          rw [List.filterMap_cons_some he]
          exact .cons (hseen d he) ih

/-- **REALIZATION**: where a finer system can take a step that looks like any given one, it
    has for each run one that looks like it, event by event. -/
theorem Run.realizes {τ δ : Type} {fine : τ → δ → τ → Prop} {I : τ → Prop} (f : τ → σ)
    (seen : δ → Option ε) (hstep : ∀ u e t, I u → step (f u) e t →
      ∃ d u', fine u d u' ∧ I u' ∧ seen d = some e ∧ f u' = t)
    {u : τ} (hu : I u) {t : σ} {es : List ε} (h : Run step (f u) es t) :
    ∃ ds u', Run fine u ds u' ∧ ds.map seen = es.map some ∧ f u' = t := by
  generalize hs : f u = s at h
  induction h generalizing u with
  | nil => exact ⟨[], u, .nil, rfl, hs⟩
  | cons first _ ih =>
      obtain ⟨d, u', hfine, hu', hseen, hnext⟩ := hstep u _ _ hu (hs ▸ first)
      obtain ⟨ds, u'', hrest, hsame, hlast⟩ := ih hu' hnext
      refine ⟨d :: ds, u'', .cons hfine hrest, ?_, hlast⟩
      rw [List.map_cons, List.map_cons, hseen, hsame]

/-! ## Systems side by side -/

/-- One of the systems steps. -/
def Interleaved (step : σ → ε → σ → Prop) (ss : List σ) (e : ℕ × ε) (ss' : List σ) : Prop :=
  ∃ s s', ss[e.1]? = some s ∧ step s e.2 s' ∧ ss' = ss.set e.1 s'

/-- The events of one system. -/
def eventsOf (j : ℕ) (es : List (ℕ × ε)) : List ε :=
  es.filterMap fun e => if e.1 = j then some e.2 else none

theorem eventsOf_cons (j : ℕ) (e : ℕ × ε) (es : List (ℕ × ε)) :
    eventsOf j (e :: es) = if e.1 = j then e.2 :: eventsOf j es else eventsOf j es := by
  rw [eventsOf, List.filterMap_cons]
  by_cases hj : e.1 = j
  · rw [if_pos hj, if_pos hj, eventsOf]
  · rw [if_neg hj, if_neg hj, eventsOf]

/-- **COMPONENTS**: a run of all is a run of each. -/
theorem Run.component {ss ts : List σ} {es : List (ℕ × ε)} (h : Run (Interleaved step) ss es ts)
    {j : ℕ} {s : σ} (hs : ss[j]? = some s) :
    ∃ t, ts[j]? = some t ∧ Run step s (eventsOf j es) t := by
  induction h generalizing s with
  | nil => exact ⟨s, hs, .nil⟩
  | @cons ss ss' ts e es first _ ih =>
      obtain ⟨s₁, s₁', hs₁, hstep, rfl⟩ := first
      by_cases hj : e.1 = j
      · rw [hj] at hs₁ ih
        obtain rfl : s = s₁ := Option.some.inj (hs.symm.trans hs₁)
        obtain ⟨t, ht, hrun⟩ := ih (s := s₁') (by rw [List.getElem?_set_self', hs]; rfl)
        refine ⟨t, ht, ?_⟩
        rw [eventsOf_cons, if_pos hj]
        exact .cons hstep hrun
      · obtain ⟨t, ht, hrun⟩ := ih (s := s) (by rw [List.getElem?_set_ne hj, hs])
        refine ⟨t, ht, ?_⟩
        rw [eventsOf_cons, if_neg hj]
        exact hrun

theorem Interleaved.length {ss ss' : List σ} {e : ℕ × ε} (h : Interleaved step ss e ss') :
    ss'.length = ss.length := by
  obtain ⟨s, s', -, -, rfl⟩ := h
  exact List.length_set

theorem Run.interleaved_length {ss ts : List σ} {es : List (ℕ × ε)}
    (h : Run (Interleaved step) ss es ts) : ts.length = ss.length :=
  h.invariant (I := fun us => us.length = ss.length)
    (fun _ _ _ hstep hlen => hstep.length.trans hlen) rfl

/-- A sum over the systems, of which one stepped. -/
theorem sum_map_set {α : Type} (f : α → ℕ) {xs : List α} {k : ℕ} {x y : α}
    (hx : xs[k]? = some x) :
    ((xs.set k y).map f).sum + f x = (xs.map f).sum + f y := by
  induction xs generalizing k with
  | nil => cases hx
  | cons z zs ih =>
      cases k with
      | zero =>
          obtain rfl : z = x := Option.some.inj hx
          simp only [List.set_cons_zero, List.map_cons, List.sum_cons]
          omega
      | succ k =>
          have hrest := ih (k := k) hx
          simp only [List.set_cons_succ, List.map_cons, List.sum_cons]
          omega

/-- Each event is one of a system that is there. -/
theorem Run.interleaved_index {ss ts : List σ} {es : List (ℕ × ε)}
    (h : Run (Interleaved step) ss es ts) : ∀ e ∈ es, e.1 < ss.length := by
  induction h with
  | nil => exact fun e he => absurd he List.not_mem_nil
  | cons first _ ih =>
      intro e he
      rcases List.mem_cons.mp he with rfl | he
      · obtain ⟨s, s', hs, -, -⟩ := first
        exact (List.getElem?_eq_some_iff.mp hs).1
      · rw [← first.length]
        exact ih e he

/-- The events of the first systems, one system more. -/
theorem length_filter_lt_succ (m : ℕ) (es : List (ℕ × ε)) :
    (es.filter (·.1 < m + 1)).length = (es.filter (·.1 < m)).length + (eventsOf m es).length := by
  induction es with
  | nil => rfl
  | cons e es ih =>
      rw [eventsOf_cons]
      rcases Nat.lt_trichotomy e.1 m with hlt | heq | hgt
      · rw [List.filter_cons_of_pos (by simp; omega), List.filter_cons_of_pos (by simp [hlt]),
          if_neg (by omega), List.length_cons, List.length_cons, ih]
        omega
      · rw [List.filter_cons_of_pos (by simp; omega), List.filter_cons_of_neg (by simp; omega),
          if_pos heq, List.length_cons, List.length_cons, ih]
        omega
      · rw [List.filter_cons_of_neg (by simp; omega), List.filter_cons_of_neg (by simp; omega),
          if_neg (by omega), ih]

/-- **A BOUND FOR EACH** bounds all. -/
theorem Run.interleaved_bound {ss ts : List σ} {es : List (ℕ × ε)} {n : ℕ}
    (hbound : ∀ s ∈ ss, ∀ fs t, Run step s fs t → fs.length ≤ n)
    (h : Run (Interleaved step) ss es ts) : es.length ≤ ss.length * n := by
  have heach : ∀ m ≤ ss.length, (es.filter (·.1 < m)).length ≤ m * n := by
    intro m
    induction m with
    | zero =>
        intro _
        simp only [Nat.not_lt_zero, decide_false, List.filter_false, List.length_nil, Nat.zero_mul,
          Nat.le_refl]
    | succ m ih =>
        intro hm
        obtain ⟨t, -, hrun⟩ := h.component (List.getElem?_eq_getElem hm)
        have hone := hbound _ (List.getElem_mem hm) _ _ hrun
        have hrest := ih (by omega)
        rw [length_filter_lt_succ, Nat.succ_mul]
        omega
  rw [← List.filter_eq_self.mpr fun e he => decide_eq_true (h.interleaved_index e he)]
  exact heach _ (Nat.le_refl _)

end Transition
