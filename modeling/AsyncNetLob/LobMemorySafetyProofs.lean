import AsyncNetLob.LobPoolProofs

/-! # Slots are only used while they are allocated

    In the model an access to a slot without an object is the fault
    `useAfterFree`, a deallocation of one the fault `doubleFree`; so memory
    safety is that runs, and the destructor after them, end in no fault but the
    exception of an empty pool.

    The other half is about allocations: a slot handed out is not reachable
    from the book, so nothing that rests is overwritten. -/

namespace Lob

open StateExcept SortedMap LinkedSegment MachineRun

/-- An order slot the book can get to: through the id map, or along a chain. -/
def OrderBook.ReachesOrder (s : OrderBook) (o : OrderPtr) : Prop :=
  (∃ id, s.orderMap.lookup id = some o)
    ∨ ∃ side key level lv, (key, level) ∈ (s.levelMap side).entries
      ∧ s.level? level = some lv ∧ Reaches s.next lv.head o

/-- A level slot the book can get to: through a price map, or from an order. -/
def OrderBook.ReachesLevel (s : OrderBook) (l : LevelPtr) : Prop :=
  (∃ side key, (key, l) ∈ (s.levelMap side).entries)
    ∨ ∃ o x, s.ReachesOrder o ∧ s.order? o = some x ∧ x.priceLevelPtr = some l

/-- `matchBuyOrder` or `matchSellOrder`, as `addOrder` calls it. -/
def OrderBook.matching (now : Nat → Timestamp) (side : Side) (incomingOrder : OrderPtr) :
    BookM (List MatchEvent) :=
  match side with
  | .buy => OrderBook.matchBuyOrder now incomingOrder []
  | .sell => OrderBook.matchSellOrder now incomingOrder []

section Reach

variable {s : OrderBook} {q : LevelPtr → List OrderPtr} {o : OrderPtr} {l : LevelPtr}

/-- A reachable order slot is in a queue. -/
theorem Core.queued_of_reaches (hc : Core s q) (h : s.ReachesOrder o) :
    ∃ side k l, (k, l) ∈ (s.levelMap side).entries ∧ o ∈ q l := by
  rcases h with ⟨id, hid⟩ | ⟨side, k, l, lv, he, hlv, hreach⟩
  · obtain ⟨side, k, l, x, he, ho, -⟩ := hc.mapped hid
    exact ⟨side, k, l, he, ho⟩
  · have hr := hc.represents he
    obtain ⟨lv', hlv', hhead, -⟩ := hr.header
    rw [hlv] at hlv'
    cases hlv'
    exact ⟨side, k, l, he, hr.linked.mem_of_reaches hreach hhead⟩

/-- A slot without an order cannot be reached. -/
theorem Core.not_reachesOrder (hc : Core s q) (h : s.order? o = none) :
    ¬ s.ReachesOrder o := by
  intro hreach
  obtain ⟨side, k, l, he, ho⟩ := hc.queued_of_reaches hreach
  obtain ⟨x, hx⟩ := (hc.represents he).live o ho
  rw [h] at hx
  cases hx

/-- A slot without a level cannot be reached. -/
theorem Core.not_reachesLevel (hc : Core s q) (h : s.level? l = none) :
    ¬ s.ReachesLevel l := by
  have hmap : ∀ side key, (key, l) ∉ (s.levelMap side).entries := by
    intro side key he
    obtain ⟨lv, hlv, -⟩ := hc.live_level he
    rw [h] at hlv
    cases hlv
  rintro (⟨side, key, he⟩ | ⟨o, x, hreach, hx, hptr⟩)
  · exact hmap side key he
  · obtain ⟨side, k, l', he, ho⟩ := hc.queued_of_reaches hreach
    have hlevel := (hc.resting he ho hx).1.level
    rw [hptr] at hlevel
    cases hlevel
    exact hmap side k he

end Reach

/-! ## The destructor -/

section Destructor

/-- Deallocating distinct slots that hold orders. -/
theorem deallocateOrders_run {α : Type} (slot : α → OrderPtr) (es : List α)
    {s : OrderBook} (hnd : (es.map slot).Nodup)
    (hlive : ∀ e ∈ es, ∃ x, s.order? (slot e) = some x) :
    ∃ p, (es.forM fun e => onHeap (deallocateOrder (some (slot e))) : BookM PUnit) s
      = .ok ⟨⟩ { s with orderPool := p } := by
  induction es generalizing s with
  | nil => exact ⟨s.orderPool, rfl⟩
  | cons e es ih =>
      rw [List.map_cons, List.nodup_cons] at hnd
      obtain ⟨x, hx⟩ := hlive e List.mem_cons_self
      have hfirst : onHeap (deallocateOrder (some (slot e))) s
          = .ok () { s with toHeap := s.toHeap.freeOrder (slot e) } :=
        liftM_ok (deallocateOrder_ok hx)
      have hrest : ∀ e' ∈ es, ∃ x, (s.toHeap.freeOrder (slot e)).order? (slot e') = some x := by
        intro e' he'
        have hne : slot e' ≠ slot e := fun heq => hnd.1 (heq ▸ List.mem_map_of_mem he')
        obtain ⟨y, hy⟩ := hlive e' (List.mem_cons_of_mem _ he')
        exact ⟨y, by rw [Heap.order?_freeOrder, if_neg hne, hy]⟩
      obtain ⟨p, hp⟩ := ih (s := { s with toHeap := s.toHeap.freeOrder (slot e) }) hnd.2 hrest
      exact ⟨p, (bind_ok hfirst).trans hp⟩

/-- Deallocating distinct slots that hold levels. -/
theorem deallocateLevels_run {α : Type} (slot : α → LevelPtr) (es : List α)
    {s : OrderBook} (hnd : (es.map slot).Nodup)
    (hlive : ∀ e ∈ es, ∃ lv, s.level? (slot e) = some lv) :
    ∃ p, (es.forM fun e => onHeap (deallocateLevel (some (slot e))) : BookM PUnit) s
        = .ok ⟨⟩ { s with levelPool := p }
      ∧ ∀ l, l ∉ es.map slot → p.poolStorage l = s.levelPool.poolStorage l := by
  induction es generalizing s with
  | nil => exact ⟨s.levelPool, rfl, fun _ _ => rfl⟩
  | cons e es ih =>
      rw [List.map_cons, List.nodup_cons] at hnd
      obtain ⟨lv, hlv⟩ := hlive e List.mem_cons_self
      have hfirst : onHeap (deallocateLevel (some (slot e))) s
          = .ok () { s with toHeap := s.toHeap.freeLevel (slot e) } :=
        liftM_ok (deallocateLevel_ok hlv)
      have hrest : ∀ e' ∈ es, ∃ lv,
          (s.toHeap.freeLevel (slot e)).level? (slot e') = some lv := by
        intro e' he'
        have hne : slot e' ≠ slot e := fun heq => hnd.1 (heq ▸ List.mem_map_of_mem he')
        obtain ⟨lv', hlv'⟩ := hlive e' (List.mem_cons_of_mem _ he')
        exact ⟨lv', by rw [Heap.level?_freeLevel, if_neg hne, hlv']⟩
      obtain ⟨p, hp, hother⟩ :=
        ih (s := { s with toHeap := s.toHeap.freeLevel (slot e) }) hnd.2 hrest
      refine ⟨p, (bind_ok hfirst).trans hp, ?_⟩
      intro l hl
      rw [List.map_cons, List.mem_cons, not_or] at hl
      rw [hother l hl.2]
      exact (Heap.level?_freeLevel s.toHeap (slot e) l).trans (if_neg hl.1)

variable {s : OrderBook} {q : LevelPtr → List OrderPtr}

/-- Different ids are in different slots. -/
theorem Core.orderMap_slots (hc : Core s q) :
    (s.orderMap.entries.map fun e => e.2).Nodup := by
  rw [List.Nodup, List.pairwise_map]
  have hkeys : s.orderMap.entries.Pairwise fun e e' => e.1 ≠ e'.1 :=
    List.pairwise_map.mp s.orderMap.nodupKeys
  refine hkeys.imp_of_mem fun {e e'} he he' hne heq => hne ?_
  have h1 : s.orderMap.lookup e.1 = some e.2 := AList.mem_lookup_iff.mpr he
  have h2 : s.orderMap.lookup e'.1 = some e'.2 := AList.mem_lookup_iff.mpr he'
  obtain ⟨-, -, -, x, -, -, hx, hxid⟩ := hc.mapped h1
  obtain ⟨-, -, -, y, -, -, hy, hyid⟩ := hc.mapped h2
  rw [heq, hy] at hx
  cases hx
  exact hxid.symm.trans hyid

/-- Different levels of a side are in different slots. -/
theorem Core.level_slots (hc : Core s q) (side : Side) :
    ((s.levelMap side).entries.map fun e => e.2).Nodup := by
  rw [List.Nodup, List.pairwise_map]
  refine (s.levelMap side).sorted.imp_of_mem ?_
  rintro ⟨k, l⟩ ⟨k', l'⟩ he he' hlt rfl
  obtain ⟨-, rfl⟩ := hc.apart he he'
  exact irrefl_of side.comparator k hlt

/-- **THE DESTRUCTOR** returns: it frees every slot once. -/
theorem Core.destructor_run (hc : Core s q) :
    ∃ s', OrderBook.destructor s = .ok () s' := by
  obtain ⟨p, hp⟩ := deallocateOrders_run (fun e : Sigma _ => e.2) s.orderMap.entries
    (s := s) hc.orderMap_slots fun e he => by
      have hid : s.orderMap.lookup e.1 = some e.2 := AList.mem_lookup_iff.mpr he
      obtain ⟨-, -, -, x, -, -, hx, -⟩ := hc.mapped hid
      exact ⟨x, hx⟩
  obtain ⟨p', hp', hother⟩ := deallocateLevels_run (fun e : Price × LevelPtr => e.2)
    s.bids.entries (s := { s with orderPool := p, orderMap := ∅ }) (hc.level_slots .buy)
    fun e he => by
      have he' : (e.1, e.2) ∈ (s.levelMap .buy).entries := he
      obtain ⟨lv, hlv, -⟩ := hc.live_level he'
      exact ⟨lv, hlv⟩
  obtain ⟨p'', hp'', -⟩ := deallocateLevels_run (fun e : Price × LevelPtr => e.2)
    s.asks.entries
    (s := { s with orderPool := p, orderMap := ∅, levelPool := p', bids := SMap.empty })
    (hc.level_slots .sell) fun e he => by
      -- the bids' slots, freed just now, are not the asks'
      have hask : (e.1, e.2) ∈ (s.levelMap .sell).entries := he
      obtain ⟨lv, hlv, -⟩ := hc.live_level hask
      refine ⟨lv, (hother e.2 ?_).trans hlv⟩
      intro hmem
      obtain ⟨⟨k, l⟩, hbid, rfl⟩ := List.mem_map.mp hmem
      have hbid' : (k, e.2) ∈ (s.levelMap .buy).entries := hbid
      exact absurd (hc.apart hbid' hask).1 (by decide)
  refine ⟨{ s with orderPool := p, levelPool := p'', orderMap := ∅, bids := SMap.empty,
                   asks := SMap.empty }, ?_⟩
  rw [OrderBook.destructor, bind_ok (get_ok s), bind_ok hp, bind_ok (modify_ok _ _),
    bind_ok hp', bind_ok (modify_ok _ _), bind_ok hp'', modify_ok]

end Destructor

/-! ## Whole runs -/

/-- The only exception is that of an empty pool. -/
theorem ladder_threw {c : Call} {a : Ladder} {f : Fault}
    (h : (Ladder.step c a).1 = .threw f) : f = .poolExhausted := by
  obtain ⟨op, now⟩ := c
  cases op with
  | cancelOrder id =>
      have h' : (Ladder.cancelOrder id a).1 = .threw f := h
      rw [Ladder.cancelOrder] at h'
      split at h' <;> cases h'
  | addOrder id side price qty type =>
      have h' : (Ladder.addOrder now id side price qty type a).1 = .threw f := h
      have hcase := addOrder_cases now id side price qty type a
      generalize Ladder.addOrder now id side price qty type a = v at hcase h'
      obtain ⟨out, b⟩ := v
      cases hcase with
      | rejected => cases h'
      | refused => exact (Outcome.threw.inj h').symm
      | leaked => exact (Outcome.threw.inj h').symm
      | rested => cases h'
      | finished => cases h'

theorem ladder_run_threw {calls : List Call} {a : Ladder} {f : Fault}
    (h : .threw f ∈ (Ladder.run calls a).1) : f = .poolExhausted := by
  induction calls generalizing a with
  | nil => cases h
  | cons c calls ih =>
      rcases List.mem_cons.mp h with h | h
      · exact ladder_threw h.symm
      · exact ih h

/-- What is safe about the slots of a book between two calls. -/
structure MemorySafe (s : OrderBook) : Prop where
  /-- No slot is twice on a free list. -/
  orders_nodup : s.orderPool.freeList.Nodup
  levels_nodup : s.levelPool.freeList.Nodup
  /-- The destructor frees allocated slots only. -/
  destructor   : ∃ s', OrderBook.destructor s = .ok () s'
  /-- The slot for an incoming order cannot be reached from the book, -/
  order_fresh  : ∀ x t p, s.orderPool.allocate x = some (t, p) → ¬ s.ReachesOrder t
  /-- nor can the slot for a new level from the book the matching left. -/
  level_fresh  : ∀ now id side price qty type t p es s₁ l p',
    s.orderPool.allocate (Order.new id price qty side type 0) = some (t, p) →
    OrderBook.matching now side t { s with orderPool := p } = .ok es s₁ →
    s₁.levelPool.allocate (PriceLevel.new price) = some (l, p') →
    ¬ s₁.ReachesLevel l ∧ ¬ s₁.ReachesOrder t

/-- The book the matching phase of a call leaves is represented, with the
    incoming order outside. -/
theorem Rep.matching {s s₁ : OrderBook} {q : LevelPtr → List OrderPtr} {a : Ladder}
    (h : Rep s q a) {x : Order} {t : OrderPtr} {p : ObjectPool Order}
    (hp : s.orderPool.allocate x = some (t, p)) {now : Nat → Timestamp} {side : Side}
    {es : List MatchEvent}
    (hrun : OrderBook.matching now side t { s with orderPool := p } = .ok es s₁) :
    ∃ q₁ τ, Sweeping s₁ q₁ t τ := by
  obtain ⟨hrep, hsw⟩ := h.allocate hp
  cases side with
  | buy =>
      obtain ⟨s₂, q₂, hrun₂, -, hsw₂⟩ := hrep.matchOrder hsw now (fun _ _ => rfl) rfl
      have heq := hrun.symm.trans hrun₂
      cases heq
      exact ⟨q₂, _, hsw₂⟩
  | sell =>
      obtain ⟨s₂, q₂, hrun₂, -, hsw₂⟩ := hrep.matchOrder hsw now (fun _ _ => rfl) rfl
      have heq := hrun.symm.trans hrun₂
      cases heq
      exact ⟨q₂, _, hsw₂⟩

/-- **MEMORY SAFETY**: no call of any run touches or frees a slot that is not
    allocated, and every state between calls is safe. -/
theorem reached_memorySafe (maxOrders maxLevels : Nat) (calls : List Call) :
    (∀ f, .threw f ∈ (OrderBook.run calls (OrderBook.new maxOrders maxLevels)).1 →
        f = .poolExhausted)
      ∧ MemorySafe (OrderBook.reached maxOrders maxLevels calls) := by
  obtain ⟨houts, q, hrep⟩ := new_refines maxOrders maxLevels calls
  refine ⟨fun f hf => ladder_run_threw (houts ▸ hf), ?_⟩
  have hc : Core (OrderBook.reached maxOrders maxLevels calls) q := hrep.core
  refine ⟨ObjectPool.free_nodup _, ObjectPool.free_nodup _, hc.destructor_run, ?_, ?_⟩
  · intro x t p hp
    exact hc.not_reachesOrder (ObjectPool.allocate_eq_some hp).1
  · intro now id side price qty type t p es s₁ l p' hp hrun hp'
    obtain ⟨q₁, τ, hsw⟩ := Rep.matching hrep hp hrun
    refine ⟨hsw.core.not_reachesLevel (ObjectPool.allocate_eq_some hp').1, ?_⟩
    intro hreach
    obtain ⟨side', k, l', he, ht⟩ := hsw.core.queued_of_reaches hreach
    exact hsw.outside he ht

end Lob
