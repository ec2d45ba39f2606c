import AsyncNetLob.LobMatchingProofs
import AsyncNetLob.LobLadderProofs

/-! # The order book refines the ladder

    `Rep s q a`: the book `s`, with the queues `q`, is a memory representation
    of the ladder `a`.  Every call takes represented books to represented
    books and gives the outcome of the ladder's call (`step_refines`), so every
    run does (`run_refines`).

    While a call runs, the slot of its incoming order is outside every queue
    (`Sweeping`): the book then represents a ladder with one order slot
    less. -/

namespace Lob

open StateExcept SortedMap LinkedSegment MachineRun

/-- The book represents the ladder. -/
structure Rep (s : OrderBook) (q : LevelPtr → List OrderPtr) (a : Ladder) : Prop where
  core       : Core s q
  view       : ∀ side, (s.levelMap side).entries.map (s.viewLevel q) = a.rungs side
  orderSlots : s.orderPool.available + a.orderCount = a.orderSlots
  levelSlots : s.levelPool.available + a.levelCount = a.levelSlots
  known      : s.activeOrdersCount = a.orderCount
  trades     : s.totalTradesCount = UInt64.ofNat a.trades
  volume     : s.totalVolumeTraded = UInt64.ofNat a.volume

namespace Rep

variable {s s' : OrderBook} {q q' : LevelPtr → List OrderPtr} {a : Ladder}
  {side : Side} {k : Price} {l : LevelPtr} {id : OrderId}

/-- The orders a ladder shows are those in the queues of the book. -/
theorem mem_queue (h : Rep s q a) {r : RestingOrder} : r ∈ a.queue side
    ↔ ∃ k l o x, (k, l) ∈ (s.levelMap side).entries ∧ o ∈ q l ∧ s.order? o = some x
      ∧ x.view = r := by
  rw [Ladder.queue, ← h.view, List.mem_flatMap]
  constructor
  · rintro ⟨lv, hlv, hr⟩
    obtain ⟨⟨k, l⟩, he, rfl⟩ := List.mem_map.mp hlv
    obtain ⟨o, ho, hview⟩ := List.mem_filterMap.mp hr
    obtain ⟨x, hx, rfl⟩ := Option.map_eq_some_iff.mp hview
    exact ⟨k, l, o, x, he, ho, hx, rfl⟩
  · rintro ⟨k, l, o, x, he, ho, hx, rfl⟩
    refine ⟨_, List.mem_map_of_mem he, List.mem_filterMap.mpr ⟨o, ho, ?_⟩⟩
    rw [hx]
    rfl

/-- `orderMap_` knows exactly the resting ids. -/
theorem rests_iff (h : Rep s q a) : a.Rests id ↔ s.orderMap.lookup id ≠ none := by
  constructor
  · rintro ⟨side, r, hr, rfl⟩
    obtain ⟨k, l, o, x, he, ho, hx, rfl⟩ := h.mem_queue.mp hr
    have hid : s.orderMap.lookup x.view.id = some o := (h.core.resting he ho hx).2
    rw [hid]
    exact Option.some_ne_none o
  · intro hne
    obtain ⟨o, ho⟩ := Option.ne_none_iff_exists'.mp hne
    obtain ⟨side, k, l, x, he, hq, hx, rfl⟩ := h.core.mapped ho
    exact ⟨side, x.view, h.mem_queue.mpr ⟨k, l, o, x, he, hq, hx, rfl⟩, rfl⟩

theorem lookup_none (h : Rep s q a) : s.orderMap.lookup id = none ↔ ¬ a.Rests id := by
  rw [h.rests_iff, not_not]

/-- A map has an entry exactly for each level of the ladder. -/
theorem hasLevel_iff (h : Rep s q a) :
    a.HasLevel side k ↔ (s.levelMap side).find? k ≠ none := by
  rw [Ne, SMap.find?_eq_none, Ladder.HasLevel, ← h.view]
  constructor
  · rintro ⟨lv, hlv, rfl⟩ hnone
    obtain ⟨e, he, rfl⟩ := List.mem_map.mp hlv
    exact hnone e he rfl
  · intro hsome
    by_contra hno
    refine hsome fun e he hk => hno ⟨_, List.mem_map_of_mem he, hk⟩

/-- The order pool is exhausted exactly if every slot holds a resting order. -/
theorem orderPool_empty_iff (h : Rep s q a) :
    s.orderPool.freeList = [] ↔ a.orderSlots ≤ a.orderCount := by
  have hslots := h.orderSlots
  have hlen : s.orderPool.available = 0 ↔ s.orderPool.freeList = [] :=
    List.length_eq_zero_iff
  rw [← hlen]
  omega

theorem levelPool_empty_iff (h : Rep s q a) :
    s.levelPool.freeList = [] ↔ a.levelSlots ≤ a.levelCount := by
  have hslots := h.levelSlots
  have hlen : s.levelPool.available = 0 ↔ s.levelPool.freeList = [] :=
    List.length_eq_zero_iff
  rw [← hlen]
  omega

end Rep

/-- There are not more levels on a side than level slots. -/
theorem Core.levels_fuel {s : OrderBook} {q : LevelPtr → List OrderPtr} (hc : Core s q)
    (side : Side) : (s.levelMap side).entries.length < s.levelPool.capacity + 1 := by
  have hnd : ((s.levelMap side).entries.map Prod.snd).Nodup := by
    rw [List.Nodup, List.pairwise_map]
    refine (s.levelMap side).sorted.imp_of_mem ?_
    rintro ⟨k, l⟩ ⟨k', l'⟩ he he' hlt rfl
    have hk := (hc.apart he he').2
    exact irrefl_of side.comparator k (by simpa [hk] using hlt)
  have hle := s.levelPool.length_le_capacity hnd ?_
  · rw [List.length_map] at hle
    omega
  · intro l hl hnone
    obtain ⟨⟨k, l⟩, he, rfl⟩ := List.mem_map.mp hl
    obtain ⟨lv, hlv, -⟩ := hc.live_level he
    have hlv' : s.levelPool.poolStorage l = some lv := hlv
    have hnone' : s.levelPool.poolStorage l = none := hnone
    rw [hnone'] at hlv'
    cases hlv'

/-! ## The phases of `addOrder` -/

section Phases

variable {s : OrderBook} {q : LevelPtr → List OrderPtr} {a : Ladder} {t : OrderPtr}
  {τ : Order} {side : Side}

/-- The side of a level, as the ladder has it. -/
theorem Rep.rungs_split (h : Rep s q a) {k : Price} {l : LevelPtr} {C D : List (Price × LevelPtr)}
    (hs : (s.levelMap side).entries = C ++ (k, l) :: D) :
    a.rungs side = C.map (s.viewLevel q) ++ s.viewLevel q (k, l) :: D.map (s.viewLevel q) := by
  rw [← h.view, hs, List.map_append, List.map_cons]

/-- **ONE LEVEL** has changed: the ladder shows it, and the others as before. -/
theorem Rep.view_split (h : Rep s q a) {s' : OrderBook} {q' : LevelPtr → List OrderPtr}
    {k : Price} {l : LevelPtr} {C D : List (Price × LevelPtr)} {rung : Rung}
    (hs : (s.levelMap side).entries = C ++ (k, l) :: D)
    (hmap : ∀ side', s'.levelMap side' = s.levelMap side')
    (hself : s'.viewLevel q' (k, l) = rung)
    (hview : ∀ {side' e}, e ∈ (s.levelMap side').entries → e.2 ≠ l →
      s'.viewLevel q' e = s.viewLevel q e) (side' : Side) :
    (s'.levelMap side').entries.map (s'.viewLevel q')
      = (a.setRungs side (C.map (s.viewLevel q) ++ rung :: D.map (s.viewLevel q))).rungs
          side' := by
  rw [hmap]
  by_cases hside : side' = side
  · subst hside
    have hsame : ∀ e, e ∈ C ∨ e ∈ D → s'.viewLevel q' e = s.viewLevel q e :=
      fun e he => hview (OrderBook.mem_of_split hs he) (h.core.split_ne hs he)
    rw [Ladder.setRungs_rungs_self, hs, List.map_append, List.map_cons, hself,
      List.map_congr_left fun e he => hsame e (Or.inl he),
      List.map_congr_left fun e he => hsame e (Or.inr he)]
  · have he : (k, l) ∈ (s.levelMap side).entries := by simp [hs]
    rw [Ladder.setRungs_rungs_ne a hside, ← h.view]
    exact List.map_congr_left fun e he' => hview he' (h.core.other_side he he' hside)

/-- The counts then change by the orders of the level. -/
theorem Rep.counts_split (h : Rep s q a) {k : Price} {l : LevelPtr}
    {C D : List (Price × LevelPtr)} (hs : (s.levelMap side).entries = C ++ (k, l) :: D)
    (rung : Rung) :
    (a.setRungs side (C.map (s.viewLevel q) ++ rung :: D.map (s.viewLevel q))).orderCount
        + (s.viewLevel q (k, l)).orders.length = a.orderCount + rung.orders.length
      ∧ (a.setRungs side (C.map (s.viewLevel q) ++ rung :: D.map (s.viewLevel q))).levelCount
        = a.levelCount := by
  have horders := a.orderCount_setRungs side
    (C.map (s.viewLevel q) ++ rung :: D.map (s.viewLevel q))
  have hlevels := a.levelCount_setRungs side
    (C.map (s.viewLevel q) ++ rung :: D.map (s.viewLevel q))
  rw [h.rungs_split hs] at horders hlevels
  rw [ordersIn_append, ordersIn_append, ordersIn_cons, ordersIn_cons] at horders
  rw [List.length_append, List.length_append, List.length_cons, List.length_cons] at hlevels
  omega

/-- **ALLOCATION** of the incoming order: its slot is outside every queue. -/
theorem Rep.allocate (h : Rep s q a) {p : ObjectPool Order}
    (hp : s.orderPool.allocate τ = some (t, p)) :
    Rep { s with orderPool := p } q { a with orderSlots := a.orderSlots - 1 }
      ∧ Sweeping { s with orderPool := p } q t τ := by
  obtain ⟨hfree, hlist, -, hslots⟩ := ObjectPool.allocate_eq_some hp
  have hmap : ∀ side, ({ s with orderPool := p } : OrderBook).levelMap side
      = s.levelMap side := fun side => by cases side <;> rfl
  have hout : ∀ {side k l o}, (k, l) ∈ (s.levelMap side).entries → o ∈ q l → o ≠ t := by
    rintro side k l o he ho rfl
    obtain ⟨x, hx⟩ := (h.core.represents he).live o ho
    have hx' : s.orderPool.poolStorage o = some x := hx
    rw [hfree] at hx'
    cases hx'
  have hother : ∀ {o}, o ≠ t →
      ({ s with orderPool := p } : OrderBook).order? o = s.order? o := by
    intro o ho
    show p.poolStorage o = _
    rw [hslots, if_neg ho]
    rfl
  have hcore : Core { s with orderPool := p } q :=
    h.core.heapOutside hmap rfl (fun _ => rfl) (fun he ho => hother (hout he ho))
  refine ⟨⟨hcore, ?_, ?_, h.levelSlots, h.known, h.trades, h.volume⟩, hcore, ?_, ?_⟩
  · intro side
    rw [hmap, ← h.view]
    refine List.map_congr_left fun e he => viewLevel_congr rfl rfl ?_
    refine viewQueue_congr fun o ho => ?_
    rw [hother (hout (k := e.1) (l := e.2) he ho)]
  · have hslots := h.orderSlots
    have hlen : s.orderPool.available = p.available + 1 := by
      rw [ObjectPool.available, hlist]
      rfl
    show p.available + a.orderCount = a.orderSlots - 1
    omega
  · show p.poolStorage t = _
    rw [hslots, if_pos rfl]
  · intro side k l he ht
    rw [hmap] at he
    exact hout he ht rfl

theorem allocateOrder_run {p : ObjectPool Order} (hp : s.orderPool.allocate τ = some (t, p)) :
    (liftM (allocateOrder τ) : BookM OrderPtr) s = .ok t { s with orderPool := p } := by
  rw [liftM_heap]
  simp only [allocateOrder, hp]

/-- **MATCHING** sweeps the other side. -/
theorem Rep.matchOrder (h : Rep s q a) (hsw : Sweeping s q t τ)
    (now : Nat → Timestamp) {beyond : PriceLevel → Order → Bool} {resting : Side}
    (hb : ∀ lv x, beyond lv x = beyondLimit resting x.price x.type lv.price) {m : Swept}
    (hm : sweep now τ.id (beyondLimit resting τ.price τ.type) 0 τ.remainingQty
      (a.rungs resting) = m) :
    ∃ s' q', OrderBook.matchOrder now resting beyond t [] s = .ok m.events s'
      ∧ Rep s' q' { a.setRungs resting m.rungs with
          trades := a.trades + m.events.length, volume := a.volume + tradedQty m.events }
      ∧ Sweeping s' q' t { τ with remainingQty := m.left } := by
  obtain ⟨s', q', hrun, hc⟩ := matchLevels_sim now hb (s.levelMap resting).entries hsw []
    (List.nil_append _).symm (h.core.levels_fuel resting)
  rw [h.view, List.length_nil, hm] at hrun hc
  refine ⟨s', q', ?_, ⟨hc.sweeping.core, ?_, ?_, ?_, ?_, ?_, ?_⟩, hc.sweeping⟩
  · rw [OrderBook.matchOrder, bind_ok (get_ok s)]
    exact hrun
  · intro side
    by_cases hside : side = resting
    · subst hside
      obtain ⟨post', hent, hmap⟩ := hc.entries
      rw [hent, List.nil_append, hmap]
      exact (Ladder.setRungs_rungs_self a side m.rungs).symm
    · obtain ⟨hmaps, hviews⟩ := hc.others side hside
      rw [hmaps, List.map_congr_left hviews, h.view]
      exact (Ladder.setRungs_rungs_ne a hside m.rungs).symm
  · have h1 := hc.free
    have h2 := h.orderSlots
    show s'.orderPool.available + (a.setRungs resting m.rungs).orderCount = a.orderSlots
    have h3 := a.orderCount_setRungs resting m.rungs
    rw [h.view] at h1
    omega
  · have h1 := hc.levels
    have h2 := h.levelSlots
    have h3 : (s.levelMap resting).entries.length = (a.rungs resting).length := by
      rw [← h.view, List.length_map]
    have h4 := a.levelCount_setRungs resting m.rungs
    show s'.levelPool.available + (a.setRungs resting m.rungs).levelCount = a.levelSlots
    omega
  · have h1 := hc.known
    have h2 := h.known
    rw [OrderBook.activeOrdersCount] at h2
    have h3 := a.orderCount_setRungs resting m.rungs
    rw [h.view] at h1
    show s'.orderMap.entries.length = (a.setRungs resting m.rungs).orderCount
    omega
  · rw [hc.trades, h.trades, ← UInt64.ofNat_add]
  · rw [hc.volume, h.volume, ← UInt64.ofNat_add]

/-- **RELEASE** of an order that does not rest. -/
theorem Rep.release (h : Rep s q a) (hsw : Sweeping s q t τ) :
    (liftM (deallocateOrder (some t)) : BookM Unit) s
        = .ok () { s with toHeap := s.toHeap.freeOrder t }
      ∧ Rep { s with toHeap := s.toHeap.freeOrder t } q a.giveBack := by
  have hmap : ∀ side, ({ s with toHeap := s.toHeap.freeOrder t } : OrderBook).levelMap side
      = s.levelMap side := fun side => by cases side <;> rfl
  have hother : ∀ {side k l o}, (k, l) ∈ (s.levelMap side).entries → o ∈ q l →
      (s.toHeap.freeOrder t).order? o = s.order? o := by
    intro side k l o he ho
    have hne : o ≠ t := fun heq => hsw.outside he (heq ▸ ho)
    rw [Heap.order?_freeOrder, if_neg hne]
  refine ⟨liftM_ok (deallocateOrder_ok hsw.taker), ?_, ?_, ?_, h.levelSlots, h.known,
    h.trades, h.volume⟩
  · exact h.core.heapOutside hmap rfl (fun _ => rfl) (fun he ho => hother he ho)
  · intro side
    rw [hmap]
    show _ = a.rungs side
    rw [← h.view]
    refine List.map_congr_left fun e he => viewLevel_congr rfl rfl ?_
    refine viewQueue_congr fun o ho => ?_
    show ((s.toHeap.freeOrder t).order? o).map Order.data = _
    rw [hother (k := e.1) (l := e.2) he ho]
  · have hslots := h.orderSlots
    have htaker : s.orderPool.poolStorage t = some τ := hsw.taker
    have hlen : (s.orderPool.release t).available = s.orderPool.available + 1 := by
      rw [ObjectPool.available, ObjectPool.release_freeList htaker]
      rfl
    show (s.orderPool.release t).available + a.orderCount = a.orderSlots + 1
    omega

/-- **A NEW LEVEL**, still without orders. -/
theorem Rep.addLevel {k : Price} {l : LevelPtr} {p : ObjectPool PriceLevel}
    (h : Rep s q a) (hnew : (s.levelMap side).find? k = none)
    (hp : s.levelPool.allocate (PriceLevel.new k) = some (l, p)) :
    ∃ A B, a.rungs side = A ++ B
      ∧ (∀ lv ∈ A, side.comparator lv.price k) ∧ (∀ lv ∈ B, side.comparator k lv.price)
      ∧ Rep (s.addLevel side k l p) (Function.update q l [])
          (a.setRungs side (A ++ ⟨k, 0, []⟩ :: B)) := by
  obtain ⟨hfree, hlist, -, hslots⟩ := ObjectPool.allocate_eq_some hp
  obtain ⟨A, B, hAB, hins, hA, hB⟩ := SMap.insert_split hnew l
  have hne : ∀ {side e}, e ∈ (s.levelMap side).entries → e.2 ≠ l := by
    rintro side ⟨k', l'⟩ hmem rfl
    obtain ⟨lv, hlv, -⟩ := h.core.live_level hmem
    have hlv' : s.levelPool.poolStorage l' = some lv := hlv
    rw [hfree] at hlv'
    cases hlv'
  have horder : ∀ o, (s.addLevel side k l p).order? o = s.order? o := by
    intro o
    show (s.setLevelMap side _).orderPool.poolStorage o = _
    cases side <;> rfl
  have hview : ∀ {side' e}, e ∈ (s.levelMap side').entries →
      (s.addLevel side k l p).viewLevel (Function.update q l []) e = s.viewLevel q e := by
    intro side' e he
    refine viewLevel_congr (Function.update_of_ne (hne he) _ q) ?_ ?_
    · have hlv : p.poolStorage e.2 = s.levelPool.poolStorage e.2 := by
        rw [hslots, if_neg (hne he)]
      show ((p.poolStorage e.2).map PriceLevel.totalVolume).getD 0 = _
      rw [hlv]
      rfl
    · exact viewQueue_congr fun o _ => by rw [horder]
  have hself : (s.addLevel side k l p).viewLevel (Function.update q l []) (k, l)
      = ⟨k, 0, []⟩ := by
    have hvol : (s.addLevel side k l p).volumeOf l = 0 := by
      show ((p.poolStorage l).map PriceLevel.totalVolume).getD 0 = 0
      rw [hslots, if_pos rfl]
      rfl
    rw [Heap.viewLevel, Function.update_self, hvol]
    rfl
  have hrungs : a.rungs side = A.map (s.viewLevel q) ++ B.map (s.viewLevel q) := by
    rw [← h.view, hAB, List.map_append]
  have hpool : (s.addLevel side k l p).orderPool = s.orderPool := by
    cases side <;> rfl
  -- the new level counts, and has nothing in its queue
  have horders := a.orderCount_setRungs side
    (A.map (s.viewLevel q) ++ ⟨k, 0, []⟩ :: B.map (s.viewLevel q))
  have hlevels := a.levelCount_setRungs side
    (A.map (s.viewLevel q) ++ ⟨k, 0, []⟩ :: B.map (s.viewLevel q))
  rw [hrungs] at horders hlevels
  simp only [ordersIn_append, ordersIn_cons, List.length_append, List.length_cons,
    List.length_nil] at horders hlevels
  refine ⟨A.map (s.viewLevel q), B.map (s.viewLevel q), hrungs, ?_, ?_,
    h.core.addLevel hnew hp, ?_, ?_, ?_, ?_, ?_, ?_⟩
  · intro lv hlv
    obtain ⟨e, he, rfl⟩ := List.mem_map.mp hlv
    exact hA e he
  · intro lv hlv
    obtain ⟨e, he, rfl⟩ := List.mem_map.mp hlv
    exact hB e he
  · intro side'
    by_cases hside : side' = side
    · subst hside
      have hmem : ∀ {e}, e ∈ A ∨ e ∈ B → e ∈ (s.levelMap side').entries := by
        intro e he
        rw [hAB]
        exact List.mem_append.mpr he
      rw [OrderBook.addLevel_levelMap, OrderBook.levelMap_setLevelMap_self, hins,
        List.map_append, List.map_cons, hself, Ladder.setRungs_rungs_self]
      congr 1
      · exact List.map_congr_left fun e he => hview (hmem (Or.inl he))
      · congr 1
        exact List.map_congr_left fun e he => hview (hmem (Or.inr he))
    · rw [OrderBook.addLevel_levelMap, OrderBook.levelMap_setLevelMap_ne _ hside,
        Ladder.setRungs_rungs_ne a hside, ← h.view]
      exact List.map_congr_left fun e he => hview he
  · have hslots := h.orderSlots
    rw [hpool]
    show _ = a.orderSlots
    omega
  · have hslots := h.levelSlots
    have hlen : s.levelPool.available = p.available + 1 := by
      rw [ObjectPool.available, hlist]
      rfl
    show p.available + _ = a.levelSlots
    omega
  · have hknown := h.known
    rw [OrderBook.activeOrdersCount, OrderBook.addLevel_orderMap]
    rw [OrderBook.activeOrdersCount] at hknown
    omega
  · rw [← show _ = UInt64.ofNat (a.setRungs side _).trades from h.trades]
    cases side <;> rfl
  · rw [← show _ = UInt64.ofNat (a.setRungs side _).volume from h.volume]
    cases side <;> rfl

/-- `level->append(incomingOrder); orderMap_[id] = incomingOrder;` -/
theorem Sweeping.enqueue_run {k : Price} {l : LevelPtr} (hsw : Sweeping s q t τ)
    (he : (k, l) ∈ (s.levelMap side).entries) :
    (do (liftM (PriceLevel.append l t) : BookM Unit)
        modify fun s => { s with orderMap := s.orderMap.insert τ.id t } : BookM Unit) s
      = .ok () (s.enqueue l t τ (q l).getLast?) := by
  have hr := hsw.core.represents he
  rw [bind_ok (liftM_ok (hr.append_ok (hsw.outside he) hsw.taker)), modify_ok]
  rfl

/-- **QUEUEING** the incoming order at a level of its price. -/
theorem Rep.enqueue {k : Price} {l : LevelPtr} (h : Rep s q a) (hsw : Sweeping s q t τ)
    (he : (k, l) ∈ (s.levelMap side).entries) (hprice : τ.price = k)
    (hside : τ.side = side) (hlimit : τ.type = .limit)
    (hid : s.orderMap.lookup τ.id = none) :
    Rep (s.enqueue l t τ (q l).getLast?) (Function.update q l (q l ++ [t]))
      (a.setRungs side (insertOrder side k τ.view (a.rungs side))).giveBack := by
  obtain ⟨A, B, hs⟩ := List.append_of_mem he
  obtain ⟨hA, -⟩ := SMap.split_sorted hs
  obtain ⟨lv, hlv, -⟩ := h.core.live_level he
  have hnot : ∀ {side k l j}, (k, l) ∈ (s.levelMap side).entries → j ∈ q l → j ≠ t := by
    rintro side k l j he' hj rfl
    exact hsw.outside he' hj
  have horder : ∀ {j}, j ≠ t →
      ((s.enqueue l t τ (q l).getLast?).order? j).map Order.data
        = (s.order? j).map Order.data := by
    intro j hj
    show ((s.toHeap.appended l t (q l).getLast? τ.remainingQty).order? j).map Order.data = _
    rw [appended_order?_ne hj]
    cases s.toHeap.order? j <;> rfl
  have hqueue : ∀ {side' e}, e ∈ (s.levelMap side').entries →
      (s.enqueue l t τ (q l).getLast?).viewQueue (q e.2) = s.viewQueue (q e.2) :=
    fun {_ e} he' => viewQueue_congr fun j hj => horder (hnot (k := e.1) (l := e.2) he' hj)
  have hview : ∀ {side' e}, e ∈ (s.levelMap side').entries → e.2 ≠ l →
      (s.enqueue l t τ (q l).getLast?).viewLevel (Function.update q l (q l ++ [t])) e
        = s.viewLevel q e := by
    intro side' e he' hne
    refine viewLevel_congr (Function.update_of_ne hne _ q) ?_ (hqueue he')
    show (((s.toHeap.appended l t (q l).getLast? τ.remainingQty).level? e.2).map
      PriceLevel.totalVolume).getD 0 = _
    rw [appended_level?_ne hne]
    rfl
  -- the level itself has grown at its end
  have hself : (s.enqueue l t τ (q l).getLast?).viewLevel
      (Function.update q l (q l ++ [t])) (k, l)
        = { s.viewLevel q (k, l) with
            totalVolume := (s.viewLevel q (k, l)).totalVolume + τ.view.remainingQty,
            orders := (s.viewLevel q (k, l)).orders ++ [τ.view] } := by
    have hvol : (s.enqueue l t τ (q l).getLast?).volumeOf l
        = s.volumeOf l + τ.remainingQty := by
      show (((s.toHeap.appended l t (q l).getLast? τ.remainingQty).level? l).map
        PriceLevel.totalVolume).getD 0 = _
      rw [appended_level?_self hlv]
      simp [Heap.volumeOf, hlv]
    have hnew : (s.enqueue l t τ (q l).getLast?).order? t = some
        { τ with priceLevelPtr := some l, prev := (q l).getLast?, next := none } :=
      appended_order?_self hsw.taker (fun hlast =>
        hsw.outside he (List.mem_of_getLast? hlast))
    rw [Heap.viewLevel, Function.update_self, hvol, viewQueue_append,
      hqueue (e := (k, l)) he, viewQueue_cons hnew]
    rfl
  have hrungs := h.rungs_split hs
  have hins : insertOrder side k τ.view (a.rungs side) = A.map (s.viewLevel q)
      ++ { s.viewLevel q (k, l) with
            totalVolume := (s.viewLevel q (k, l)).totalVolume + τ.view.remainingQty,
            orders := (s.viewLevel q (k, l)).orders ++ [τ.view] }
      :: B.map (s.viewLevel q) := by
    rw [hrungs]
    refine insertOrder_join τ.view rfl ?_
    intro lv' hlv'
    obtain ⟨e, he', rfl⟩ := List.mem_map.mp hlv'
    exact hA e he'
  rw [hins]
  obtain ⟨horders, hlevels⟩ := h.counts_split hs
    { s.viewLevel q (k, l) with
      totalVolume := (s.viewLevel q (k, l)).totalVolume + τ.view.remainingQty,
      orders := (s.viewLevel q (k, l)).orders ++ [τ.view] }
  rw [List.length_append, List.length_singleton] at horders
  constructor
  case core => exact h.core.enqueue he hsw.taker hprice hside hlimit hid hsw.outside
  case view => exact h.view_split hs (OrderBook.enqueue_levelMap s l t τ _) hself hview
  case orderSlots =>
    have hslots := h.orderSlots
    have hlen : (s.enqueue l t τ (q l).getLast?).orderPool.available
        = s.orderPool.available :=
      congrArg List.length (appended_orderFree s.toHeap l t (q l).getLast? τ.remainingQty)
    rw [hlen]
    show s.orderPool.available + (a.setRungs side _).orderCount = a.orderSlots + 1
    omega
  case levelSlots =>
    have hslots := h.levelSlots
    have hlen : (s.enqueue l t τ (q l).getLast?).levelPool.available
        = s.levelPool.available :=
      congrArg List.length (appended_levelFree s.toHeap l t (q l).getLast? τ.remainingQty)
    rw [hlen]
    show s.levelPool.available + (a.setRungs side _).levelCount = a.levelSlots
    omega
  case known =>
    have hknown := h.known
    have hmem : τ.id ∉ s.orderMap := AList.lookup_eq_none.mp hid
    show (s.orderMap.insert τ.id t).entries.length = (a.setRungs side _).orderCount
    rw [AList.entries_insert_of_notMem hmem, List.length_cons]
    rw [OrderBook.activeOrdersCount] at hknown
    omega
  case trades => exact h.trades
  case volume => exact h.volume

/-- `getOrCreatePriceLevel` finds the level, or opens it, or throws. -/
theorem Rep.getOrCreatePriceLevel (h : Rep s q a) (hsw : Sweeping s q t τ) (side : Side)
    (k : Price) :
    if a.HasLevel side k ∨ a.levelCount < a.levelSlots then
      ∃ s' q' b l, OrderBook.getOrCreatePriceLevel side k s = .ok l s'
        ∧ Rep s' q' b ∧ Sweeping s' q' t τ ∧ (k, l) ∈ (s'.levelMap side).entries
        ∧ s'.orderMap = s.orderMap
        ∧ ∀ r, (b.setRungs side (insertOrder side k r (b.rungs side)))
          = a.setRungs side (insertOrder side k r (a.rungs side))
    else OrderBook.getOrCreatePriceLevel side k s = .error .poolExhausted s := by
  cases hfind : (s.levelMap side).find? k with
  | some l =>
      have hhas : a.HasLevel side k := h.hasLevel_iff.mpr (by rw [hfind]; simp)
      rw [if_pos (Or.inl hhas)]
      refine ⟨s, q, a, l, ?_, h, hsw, SMap.mem_of_find? hfind, rfl, fun _ => rfl⟩
      rw [OrderBook.getOrCreatePriceLevel, bind_ok (get_ok s), hfind]
      rfl
  | none =>
      have hhas : ¬ a.HasLevel side k := fun hh => h.hasLevel_iff.mp hh hfind
      cases hp : s.levelPool.allocate (PriceLevel.new k) with
      | none =>
          -- the pool of levels is exhausted
          have hfull := h.levelPool_empty_iff.mp (ObjectPool.allocate_eq_none.mp hp)
          rw [if_neg (by
            rintro (hh | hlt)
            · exact hhas hh
            · omega), OrderBook.getOrCreatePriceLevel, bind_ok (get_ok s), hfind]
          refine bind_error ?_
          rw [liftM_heap]
          simp only [allocateLevel, hp]
      | some lp =>
          obtain ⟨l, p⟩ := lp
          have hroom : a.levelCount < a.levelSlots := by
            have hlist := (ObjectPool.allocate_eq_some hp).2.1
            have hne : ¬ s.levelPool.freeList = [] := by
              rw [hlist]
              exact List.cons_ne_nil _ _
            rw [h.levelPool_empty_iff] at hne
            omega
          rw [if_pos (Or.inr hroom)]
          obtain ⟨A, B, hrungs, hA, hB, hrep⟩ := h.addLevel hfind hp
          obtain ⟨-, -, hins, -⟩ := SMap.insert_split hfind l
          have halloc : (liftM (allocateLevel (PriceLevel.new k)) : BookM LevelPtr) s
              = .ok l { s with levelPool := p } := by
            rw [liftM_heap]
            simp only [allocateLevel, hp]
          have hrun : OrderBook.getOrCreatePriceLevel side k s
              = .ok l (s.addLevel side k l p) := by
            rw [OrderBook.getOrCreatePriceLevel, bind_ok (get_ok s), hfind]
            refine (bind_ok halloc).trans ?_
            rw [bind_ok (modify_ok _ _), OrderBook.addLevel]
            cases side <;> rfl
          refine ⟨_, _, _, l, hrun, hrep, ⟨hrep.core, ?_, ?_⟩, ?_, ?_, ?_⟩
          · have hpool : (s.addLevel side k l p).orderPool = s.orderPool := by
              cases side <;> rfl
            show (s.addLevel side k l p).orderPool.poolStorage t = some τ
            rw [hpool]
            exact hsw.taker
          · intro side' k' l' he' ht
            by_cases hl : l' = l
            · rw [hl, Function.update_self] at ht
              cases ht
            · rw [Function.update_of_ne hl] at ht
              rw [OrderBook.addLevel_levelMap] at he'
              by_cases hside : side' = side
              · subst hside
                rw [OrderBook.levelMap_setLevelMap_self] at he'
                rcases mem_of_mem_insertEntry he' with heq | hold
                · exact hl (congrArg Prod.snd heq)
                · exact hsw.outside hold ht
              · rw [OrderBook.levelMap_setLevelMap_ne _ hside] at he'
                exact hsw.outside he' ht
          · obtain ⟨A', B', -, hins', -⟩ := SMap.insert_split hfind l
            rw [OrderBook.addLevel_levelMap, OrderBook.levelMap_setLevelMap_self, hins']
            simp
          · exact OrderBook.addLevel_orderMap s side k l p
          · intro r
            have hjoin : insertOrder side k r (A ++ ⟨k, 0, []⟩ :: B)
                = A ++ ⟨k, 0 + r.remainingQty, [] ++ [r]⟩ :: B :=
              insertOrder_join r rfl hA
            rw [Ladder.setRungs_setRungs, Ladder.setRungs_rungs_self, hrungs, hjoin,
              insertOrder_open r hA hB, UInt32.zero_add, List.nil_append]

/-- **THE END OF A CALL**: a LIMIT remainder rests, unless there is no level
    for it; anything else is released. -/
theorem Rep.restOrRelease (h : Rep s q a) (hsw : Sweeping s q t τ) {id : OrderId}
    {price : Price} {left : Quantity} {type : OrderType} (hid : τ.id = id)
    (hprice : τ.price = price) (hleft : τ.remainingQty = left) (htype : τ.type = type)
    (hside : τ.side = side) (hnew : s.orderMap.lookup id = none) :
    if left > 0 ∧ type = .limit then
      if a.HasLevel side price ∨ a.levelCount < a.levelSlots then
        ∃ s' q', OrderBook.restOrRelease side id type t s = .ok () s'
          ∧ Rep s' q' (a.setRungs side (insertOrder side price τ.view (a.rungs side))).giveBack
      else OrderBook.restOrRelease side id type t s = .error .poolExhausted s
    else ∃ s' q', OrderBook.restOrRelease side id type t s = .ok () s'
      ∧ Rep s' q' a.giveBack := by
  subst hid hprice hleft htype
  rw [OrderBook.restOrRelease, bind_ok (liftM_ok (readOrder_ok hsw.taker))]
  by_cases hrest : τ.remainingQty > 0 ∧ τ.type = .limit
  · rw [if_pos hrest, if_pos hrest, bind_ok (liftM_ok (readOrder_ok hsw.taker))]
    have hlevel := h.getOrCreatePriceLevel hsw side τ.price
    by_cases hroom : a.HasLevel side τ.price ∨ a.levelCount < a.levelSlots
    · rw [if_pos hroom] at hlevel ⊢
      obtain ⟨s', q', b, l, hrun, hrep, hsw', he, hom, hins⟩ := hlevel
      rw [bind_ok hrun]
      refine ⟨_, Function.update q' l (q' l ++ [t]), hsw'.enqueue_run he, ?_⟩
      rw [← hins τ.view]
      exact hrep.enqueue hsw' he rfl hside hrest.2 (by rw [hom, hnew])
    · rw [if_neg hroom] at hlevel ⊢
      exact bind_error hlevel
  · rw [if_neg hrest, if_neg hrest]
    obtain ⟨hrun, hrep⟩ := h.release hsw
    exact ⟨_, q, hrun, hrep⟩

end Phases

/-! ## The calls -/

section Calls

variable {s : OrderBook} {q : LevelPtr → List OrderPtr} {a : Ladder}

/-- A program ended as the ladder's call says. -/
def Refined {α : Type} (outcome : α → Outcome) (r : EStateM.Result Fault OrderBook α)
    (v : Outcome × Ladder) : Prop :=
  (caught outcome r).1 = v.1 ∧ ∃ q', Rep (caught outcome r).2 q' v.2

/-- The part of `addOrder` after the allocation, for either side. -/
theorem Rep.matchAndRest (h : Rep s q a) {id : OrderId} (hid : ¬ a.Rests id) {t : OrderPtr}
    {side : Side} {price : Price} {qty : Quantity} {type : OrderType}
    {p : ObjectPool Order}
    (hp : s.orderPool.allocate (Order.new id price qty side type 0) = some (t, p))
    (now : Nat → Timestamp) {beyond : PriceLevel → Order → Bool}
    (hb : ∀ lv x, beyond lv x = beyondLimit side.opposite x.price x.type lv.price) :
    Refined Outcome.events
      ((do let matched ← OrderBook.matchOrder now side.opposite beyond t []
           OrderBook.restOrRelease side id type t
           return matched : BookM (List MatchEvent)) { s with orderPool := p })
      (let m := a.swept now id side price qty type
       let b := a.afterSweep side m
       if m.left > 0 ∧ type = .limit then
         if b.HasLevel side price ∨ b.levelCount < b.levelSlots then
           (.events m.events, (b.setRungs side
             (insertOrder side price ⟨id, qty, m.left⟩ (b.rungs side))).giveBack)
         else (.threw .poolExhausted, b)
       else (.events m.events, b.giveBack)) := by
  obtain ⟨hrep, hsw⟩ := h.allocate hp
  obtain ⟨s₁, q₁, hrun, hrep₁, hsw₁⟩ := hrep.matchOrder hsw now hb
    (m := a.swept now id side price qty type) rfl
  have hrep₁' : Rep s₁ q₁ (a.afterSweep side (a.swept now id side price qty type)) := hrep₁
  have hid₁ : s₁.orderMap.lookup id = none := by
    by_contra hne
    exact hid (rests_afterSweep (hrep₁'.rests_iff.mpr hne))
  have hend := hrep₁'.restOrRelease hsw₁ (show _ = id from rfl) (show _ = price from rfl)
    (show _ = (a.swept now id side price qty type).left from rfl) (show _ = type from rfl)
    (show _ = side from rfl) hid₁
  rw [bind_ok hrun]
  dsimp only
  generalize a.swept now id side price qty type = m at *
  by_cases hrest : m.left > 0 ∧ type = .limit
  · rw [if_pos hrest] at hend ⊢
    by_cases hroom : (a.afterSweep side m).HasLevel side price
        ∨ (a.afterSweep side m).levelCount < (a.afterSweep side m).levelSlots
    · rw [if_pos hroom] at hend ⊢
      obtain ⟨s₂, q₂, hrun₂, hrep₂⟩ := hend
      rw [bind_ok hrun₂]
      exact ⟨rfl, q₂, hrep₂⟩
    · rw [if_neg hroom] at hend ⊢
      rw [bind_error hend]
      exact ⟨rfl, q₁, hrep₁'⟩
  · rw [if_neg hrest] at hend ⊢
    obtain ⟨s₂, q₂, hrun₂, hrep₂⟩ := hend
    rw [bind_ok hrun₂]
    exact ⟨rfl, q₂, hrep₂⟩

section Cancel

variable {side : Side} {k : Price} {l : LevelPtr} {o : OrderPtr} {x : Order}
  {A B : List OrderPtr}

/-- An order that leaves its level takes nothing from the view of others. -/
theorem Core.dropOrder_viewLevel (hc : Core s q) {side' : Side} {L : List OrderPtr}
    (he : (k, l) ∈ (s.levelMap side).entries) (hol : o ∈ q l) {e : Price × LevelPtr}
    (he' : e ∈ (s.levelMap side').entries) (hne : e.2 ≠ l) :
    (s.dropOrder l o x).viewLevel (Function.update q l L) e = s.viewLevel q e := by
  refine viewLevel_congr (Function.update_of_ne hne _ q) ?_ ?_
  · show ((((s.toHeap.removed l o x).freeOrder o).level? e.2).map
      PriceLevel.totalVolume).getD 0 = _
    rw [Heap.level?_freeOrder, removed_level?_ne hne]
    rfl
  · refine viewQueue_congr fun j hj => ?_
    have hjo : j ≠ o := by
      rintro rfl
      exact hne (hc.queue_unique (k := e.1) he' he hj hol)
    rw [Core.dropOrder_order? hjo]
    cases s.order? j <;> rfl

/-- An order leaves its level, which may be empty now. -/
theorem Rep.dropOrder (h : Rep s q a) {C D : List (Price × LevelPtr)}
    (hs : (s.levelMap side).entries = C ++ (k, l) :: D) (hq : q l = A ++ o :: B)
    (hx : s.order? o = some x) :
    Rep (s.dropOrder l o x) (Function.update q l (A ++ B))
      (a.setRungs side (C.map (s.viewLevel q)
        ++ ⟨k, clampedVolume (s.volumeOf l) x.remainingQty, s.viewQueue (A ++ B)⟩
        :: D.map (s.viewLevel q))) := by
  have he : (k, l) ∈ (s.levelMap side).entries := by simp [hs]
  have hr : Represents s.toHeap l (A ++ o :: B) := hq ▸ h.core.represents he
  have hol : o ∈ q l := by simp [hq]
  have hnot : o ∉ A ++ B := (List.nodup_cons.mp (List.nodup_middle.mp hr.nodup)).1
  have horder : ∀ {j}, j ≠ o → ((s.dropOrder l o x).order? j).map Order.data
      = (s.order? j).map Order.data := by
    intro j hj
    rw [Core.dropOrder_order? hj]
    cases s.order? j <;> rfl
  have hview : ∀ {side' e}, e ∈ (s.levelMap side').entries → e.2 ≠ l →
      (s.dropOrder l o x).viewLevel (Function.update q l (A ++ B)) e = s.viewLevel q e :=
    fun he' hne => h.core.dropOrder_viewLevel he hol he' hne
  have hself : (s.dropOrder l o x).viewLevel (Function.update q l (A ++ B)) (k, l)
      = ⟨k, clampedVolume (s.volumeOf l) x.remainingQty, s.viewQueue (A ++ B)⟩ := by
    have hqueue : (s.dropOrder l o x).viewQueue (A ++ B) = s.viewQueue (A ++ B) :=
      viewQueue_congr fun j hj => horder fun heq => hnot (heq ▸ hj)
    rw [Heap.viewLevel, Function.update_self, h.core.dropOrder_volumeOf he, hqueue]
  have hlen : (s.viewLevel q (k, l)).orders.length = (s.viewQueue (A ++ B)).length + 1 := by
    show (s.viewQueue (q l)).length = _
    rw [hq, viewQueue_append, viewQueue_append, viewQueue_cons hx]
    simp only [List.length_append, List.length_cons]
    omega
  obtain ⟨horders, hlevels⟩ := h.counts_split hs
    ⟨k, clampedVolume (s.volumeOf l) x.remainingQty, s.viewQueue (A ++ B)⟩
  rw [hlen] at horders
  dsimp only at horders
  constructor
  case core => exact h.core.dropOrder he hq hx
  case view => exact h.view_split hs (OrderBook.dropOrder_levelMap s l o x) hself hview
  case orderSlots =>
    have hslots := h.orderSlots
    rw [h.core.dropOrder_available he hq hx]
    show s.orderPool.available + 1 + (a.setRungs side _).orderCount = a.orderSlots
    omega
  case levelSlots =>
    have hslots := h.levelSlots
    have hfree : (s.dropOrder l o x).levelPool.available = s.levelPool.available :=
      congrArg List.length (removed_levelFree s.toHeap l o x)
    rw [hfree]
    show s.levelPool.available + (a.setRungs side _).levelCount = a.levelSlots
    omega
  case known =>
    have hknown := h.known
    have herase := erase_length (h.core.resting he hol hx).2
    show (s.orderMap.erase x.id).entries.length = (a.setRungs side _).orderCount
    rw [OrderBook.activeOrdersCount] at hknown
    omega
  case trades => exact h.trades
  case volume => exact h.volume

/-- An empty level leaves the book. -/
theorem Rep.dropLevel (h : Rep s q a) {C D : List (Price × LevelPtr)}
    (hs : (s.levelMap side).entries = C ++ (k, l) :: D) (hq : q l = []) :
    Rep (s.dropLevel side k l) q
      (a.setRungs side (C.map (s.viewLevel q) ++ D.map (s.viewLevel q))) := by
  have he : (k, l) ∈ (s.levelMap side).entries := by simp [hs]
  have hlen : (s.viewLevel q (k, l)).orders.length = 0 := by
    show (s.viewQueue (q l)).length = 0
    rw [hq]
    rfl
  have hpool : (s.dropLevel side k l).orderPool = s.orderPool := by
    cases side <;> rfl
  have horders := a.orderCount_setRungs side (C.map (s.viewLevel q) ++ D.map (s.viewLevel q))
  have hlevels := a.levelCount_setRungs side (C.map (s.viewLevel q) ++ D.map (s.viewLevel q))
  rw [h.rungs_split hs] at horders hlevels
  simp only [ordersIn_append, ordersIn_cons, List.length_append, List.length_cons, hlen]
    at horders hlevels
  constructor
  case core => exact h.core.dropLevel hs hq
  case view =>
    intro side'
    rw [OrderBook.dropLevel_levelMap]
    by_cases hs' : side' = side
    · subst hs'
      rw [OrderBook.levelMap_setLevelMap_self, SMap.erase_split hs, List.map_append,
        Ladder.setRungs_rungs_self]
      congr 1
      · exact List.map_congr_left fun e he' =>
          dropLevel_viewLevel (h.core.split_ne hs (Or.inl he'))
      · exact List.map_congr_left fun e he' =>
          dropLevel_viewLevel (h.core.split_ne hs (Or.inr he'))
    · rw [OrderBook.levelMap_setLevelMap_ne _ hs', Ladder.setRungs_rungs_ne a hs', ← h.view]
      exact List.map_congr_left fun e he' =>
        dropLevel_viewLevel (h.core.other_side he he' hs')
  case orderSlots =>
    have hslots := h.orderSlots
    rw [hpool]
    show _ = a.orderSlots
    omega
  case levelSlots =>
    have hslots := h.levelSlots
    obtain ⟨lv, hlv, -⟩ := h.core.live_level he
    have hlv' : s.levelPool.poolStorage l = some lv := hlv
    have hfree : (s.levelPool.release l).available = s.levelPool.available + 1 := by
      rw [ObjectPool.available, ObjectPool.release_freeList hlv']
      rfl
    show (s.levelPool.release l).available + (a.setRungs side _).levelCount = a.levelSlots
    omega
  case known =>
    have hknown := h.known
    rw [OrderBook.activeOrdersCount, OrderBook.dropLevel_orderMap]
    rw [OrderBook.activeOrdersCount] at hknown
    omega
  case trades =>
    rw [← show _ = UInt64.ofNat (a.setRungs side _).trades from h.trades]
    cases side <;> rfl
  case volume =>
    rw [← show _ = UInt64.ofNat (a.setRungs side _).volume from h.volume]
    cases side <;> rfl

/-- Orders other than `o` have other ids. -/
theorem Core.other_id (hc : Core s q) (hid : s.orderMap.lookup x.id = some o)
    (he : (k, l) ∈ (s.levelMap side).entries) {L : List OrderPtr}
    (hL : ∀ j ∈ L, j ∈ q l ∧ j ≠ o) : ∀ r ∈ s.viewQueue L, r.id ≠ x.id := by
  intro r hr
  obtain ⟨j, hj, hview⟩ := List.mem_filterMap.mp hr
  obtain ⟨y, hy, rfl⟩ := Option.map_eq_some_iff.mp hview
  obtain ⟨hjq, hjo⟩ := hL j hj
  intro heq
  have hyid : s.orderMap.lookup y.view.id = some j := (hc.resting he hjq hy).2
  rw [heq, hid] at hyid
  exact hjo (Option.some.inj hyid).symm

/-- The cancelled ladder, in terms of the one level that changes. -/
theorem Rep.cancelIn_rungs (h : Rep s q a) {C D : List (Price × LevelPtr)}
    (hs : (s.levelMap side).entries = C ++ (k, l) :: D) (hq : q l = A ++ o :: B)
    (hx : s.order? o = some x) :
    { a with rungs := fun side => cancelIn x.id (a.rungs side) }
      = a.setRungs side (C.map (s.viewLevel q)
          ++ ((if A ++ B = [] then [] else
            [⟨k, clampedVolume (s.volumeOf l) x.remainingQty, s.viewQueue (A ++ B)⟩])
            ++ D.map (s.viewLevel q))) := by
  have he : (k, l) ∈ (s.levelMap side).entries := by simp [hs]
  have hr : Represents s.toHeap l (A ++ o :: B) := hq ▸ h.core.represents he
  have hol : o ∈ q l := by simp [hq]
  have hid := (h.core.resting he hol hx).2
  have hnot : o ∉ A ++ B := (List.nodup_cons.mp (List.nodup_middle.mp hr.nodup)).1
  -- levels other than `l` do not hold the id
  have hother : ∀ {side' : Side} {e : Price × LevelPtr},
      e ∈ (s.levelMap side').entries → e.2 ≠ l →
      ∀ r ∈ (s.viewLevel q e).orders, r.id ≠ x.id := by
    intro side' e he' hne
    refine Core.other_id h.core hid (k := e.1) he' fun j hj => ⟨hj, ?_⟩
    rintro rfl
    exact hne (h.core.queue_unique (k := e.1) he' he hj hol)
  have habsent : ∀ {side' : Side} {M : List (Price × LevelPtr)},
      (∀ e ∈ M, e ∈ (s.levelMap side').entries ∧ e.2 ≠ l) →
      cancelIn x.id (M.map (s.viewLevel q)) = M.map (s.viewLevel q) := by
    intro side' M hM
    refine cancelIn_absent fun lv hlv => ?_
    obtain ⟨e, he', rfl⟩ := List.mem_map.mp hlv
    exact hother (hM e he').1 (hM e he').2
  have hside : ∀ side', side' ≠ side → cancelIn x.id (a.rungs side') = a.rungs side' := by
    intro side' hs'
    rw [← h.view]
    exact habsent fun e he' => ⟨he', h.core.other_side he he' hs'⟩
  have hqueue : (s.viewLevel q (k, l)).orders
      = s.viewQueue A ++ x.view :: s.viewQueue B := by
    show s.viewQueue (q l) = _
    rw [hq, viewQueue_append, viewQueue_cons hx]
  have hids : ∀ M, (∀ j ∈ M, j ∈ A ++ B) → ∀ r ∈ s.viewQueue M, r.id ≠ x.view.id := by
    intro M hM
    refine Core.other_id h.core hid he fun j hj => ⟨?_, fun heq => hnot (heq ▸ hM j hj)⟩
    rw [hq]
    rcases List.mem_append.mp (hM j hj) with h | h <;> simp [h]
  have hself : cancelIn x.id (a.rungs side) = C.map (s.viewLevel q)
      ++ ((if A ++ B = [] then [] else
        [⟨k, clampedVolume (s.volumeOf l) x.remainingQty, s.viewQueue (A ++ B)⟩])
        ++ D.map (s.viewLevel q)) := by
    rw [← h.view, hs, List.map_append, List.map_cons, cancelIn_append,
      habsent (M := C) fun e he' =>
        ⟨OrderBook.mem_of_split hs (Or.inl he'), h.core.split_ne hs (Or.inl he')⟩]
    have hD : cancelIn x.id (D.map (s.viewLevel q)) = D.map (s.viewLevel q) :=
      habsent fun e he' =>
        ⟨OrderBook.mem_of_split hs (Or.inr he'), h.core.split_ne hs (Or.inr he')⟩
    rw [show x.id = x.view.id from rfl, cancelIn_present hqueue
      (hids A fun j hj => List.mem_append_left B hj)
      (hids B fun j hj => List.mem_append_right A hj), show x.view.id = x.id from rfl, hD,
      ← viewQueue_append]
    have hnil : s.viewQueue (A ++ B) = [] ↔ A ++ B = [] := by
      rw [← List.length_eq_zero_iff, Lob.viewQueue_length, List.length_eq_zero_iff]
      intro j hj
      refine hr.live j ?_
      rcases List.mem_append.mp hj with h | h <;> simp [h]
    simp only [hnil]
    rfl
  rw [← hself, Ladder.setRungs]
  congr 1
  funext side'
  by_cases hs' : side' = side
  · subst hs'
    rw [Function.update_self]
  · rw [Function.update_of_ne hs', hside side' hs']

/-- What the statements of `cancelOrder` leave, for a resting order. -/
theorem cancelOrder_run (hc : Core s q) {C D : List (Price × LevelPtr)}
    (hs : (s.levelMap side).entries = C ++ (k, l) :: D) (hq : q l = A ++ o :: B)
    (hx : s.order? o = some x) :
    OrderBook.cancelOrder x.id s = .ok true
      (if A ++ B = [] then (s.dropOrder l o x).dropLevel side k l
        else s.dropOrder l o x) := by
  have he : (k, l) ∈ (s.levelMap side).entries := by simp [hs]
  have hr : Represents s.toHeap l (A ++ o :: B) := hq ▸ hc.represents he
  obtain ⟨hrests, hid⟩ := hc.resting he (by simp [hq]) hx
  have hself := hr.removed_self hx
  obtain ⟨lv, hlv, hhead, -⟩ := (hr.removed hx).header
  have hempty : lv.empty = true ↔ A ++ B = [] := by
    rw [PriceLevel.empty, hhead]
    cases A ++ B <;> simp
  have hremoved : (liftM (PriceLevel.remove l (some o)) : BookM Unit) s
      = .ok () { s with toHeap := s.toHeap.removed l o x } :=
    liftM_ok (hr.remove_ok hx)
  have hread : (liftM (readOrder o) : BookM Order)
      { s with toHeap := s.toHeap.removed l o x }
      = .ok { x with next := none, prev := none, priceLevelPtr := none }
          { s with toHeap := s.toHeap.removed l o x } :=
    liftM_ok (readOrder_ok hself)
  have hreadLevel : (liftM (readLevel l) : BookM PriceLevel)
      { s with toHeap := s.toHeap.removed l o x }
      = .ok lv { s with toHeap := s.toHeap.removed l o x } :=
    liftM_ok (readLevel_ok hlv)
  rw [OrderBook.cancelOrder, bind_ok (get_ok s), hid]
  dsimp only
  rw [bind_ok (liftM_ok (readOrder_ok hx)), hrests.level]
  by_cases hnil : A ++ B = []
  · -- the level goes with its last order
    rw [if_pos hnil]
    have hleave : OrderBook.leaveLevel o (some l) s
        = .ok () (({ s with toHeap := s.toHeap.removed l o x } : OrderBook).dropLevel
            side k l) := by
      rw [OrderBook.leaveLevel, bind_ok hremoved, bind_ok hread, bind_ok hread]
      dsimp only
      rw [OrderBook.removePriceLevelIfEmpty, bind_ok hreadLevel, if_pos (hempty.mpr hnil),
        bind_ok (modify_ok _ _), hrests.side, hrests.price, OrderBook.dropLevel]
      have hfree := deallocateLevel_ok hlv
      cases side
      · exact liftM_ok hfree
      · exact liftM_ok hfree
    rw [bind_ok hleave, bind_ok (modify_ok _ _)]
    have hfree : (liftM (deallocateOrder (some o)) : BookM Unit)
        { (({ s with toHeap := s.toHeap.removed l o x } : OrderBook).dropLevel side k l) with
          orderMap := s.orderMap.erase x.id }
        = .ok () ((s.dropOrder l o x).dropLevel side k l) := by
      rw [liftM_ok (deallocateOrder_ok (o := o)
        (x := { x with next := none, prev := none, priceLevelPtr := none }) ?_)]
      · cases side <;> rfl
      · exact hself
    rw [OrderBook.dropLevel_orderMap]
    rw [bind_ok hfree]
    rfl
  · rw [if_neg hnil]
    have hleave : OrderBook.leaveLevel o (some l) s
        = .ok () { s with toHeap := s.toHeap.removed l o x } := by
      rw [OrderBook.leaveLevel, bind_ok hremoved, bind_ok hread, bind_ok hread]
      dsimp only
      rw [OrderBook.removePriceLevelIfEmpty, bind_ok hreadLevel,
        if_neg (fun h => hnil (hempty.mp h))]
      rfl
    rw [bind_ok hleave, bind_ok (modify_ok _ _)]
    have hfree : (liftM (deallocateOrder (some o)) : BookM Unit)
        { s with toHeap := s.toHeap.removed l o x, orderMap := s.orderMap.erase x.id }
        = .ok () (s.dropOrder l o x) :=
      liftM_ok (deallocateOrder_ok hself)
    rw [bind_ok hfree]
    rfl

/-- **CANCELLING** a represented book. -/
theorem Rep.cancelOrder (h : Rep s q a) (id : OrderId) :
    Refined Outcome.cancelled (OrderBook.cancelOrder id s) (Ladder.cancelOrder id a) := by
  cases hlook : s.orderMap.lookup id with
  | none =>
      have hno : ¬ a.Rests id := fun hr => h.rests_iff.mp hr hlook
      rw [Ladder.cancelOrder, if_neg hno, OrderBook.cancelOrder, bind_ok (get_ok s), hlook]
      exact ⟨rfl, q, h⟩
  | some o =>
      have hrests : a.Rests id := h.rests_iff.mpr (by rw [hlook]; exact Option.some_ne_none o)
      obtain ⟨side, k, l, x, he, hol, hx, rfl⟩ := h.core.mapped hlook
      obtain ⟨C, D, hs⟩ := List.append_of_mem he
      obtain ⟨A, B, hq⟩ := List.append_of_mem hol
      have hdrop := h.dropOrder hs hq hx
      rw [Ladder.cancelOrder, if_pos hrests, cancelOrder_run h.core hs hq hx,
        h.cancelIn_rungs hs hq hx]
      by_cases hnil : A ++ B = []
      · rw [if_pos hnil, if_pos hnil]
        have hs' : ((s.dropOrder l o x).levelMap side).entries = C ++ (k, l) :: D := by
          rw [OrderBook.dropOrder_levelMap, hs]
        have hview : ∀ e, e ∈ C ∨ e ∈ D →
            (s.dropOrder l o x).viewLevel (Function.update q l (A ++ B)) e
              = s.viewLevel q e := by
          intro e hmem
          have he' : e ∈ (s.levelMap side).entries := by
            rw [hs]
            rcases hmem with h | h <;> simp [h]
          exact h.core.dropOrder_viewLevel he hol he' (h.core.split_ne hs hmem)
        have hgone := hdrop.dropLevel hs' (by rw [Function.update_self, hnil])
        rw [Ladder.setRungs_setRungs, List.map_congr_left fun e hm => hview e (Or.inl hm),
          List.map_congr_left fun e hm => hview e (Or.inr hm)] at hgone
        exact ⟨rfl, _, hgone⟩
      · rw [if_neg hnil, if_neg hnil]
        exact ⟨rfl, _, hdrop⟩

end Cancel

/-- **ADDING** an order to a represented book. -/
theorem Rep.addOrder (h : Rep s q a) (now : Nat → Timestamp) (id : OrderId) (side : Side)
    (price : Price) (qty : Quantity) (type : OrderType) :
    Refined Outcome.events (OrderBook.addOrder now id side price qty type s)
      (Ladder.addOrder now id side price qty type a) := by
  rw [OrderBook.addOrder, bind_ok (get_ok s), Ladder.addOrder]
  by_cases hbad : qty = 0 ∨ a.Rests id
  · have hbad' : qty = 0 ∨ s.orderMap.lookup id ≠ none := hbad.imp_right h.rests_iff.mp
    rw [if_pos hbad, if_pos hbad']
    exact ⟨rfl, q, h⟩
  · have hbad' : ¬ (qty = 0 ∨ s.orderMap.lookup id ≠ none) :=
      fun hb => hbad (hb.imp_right h.rests_iff.mpr)
    rw [if_neg hbad, if_neg hbad']
    cases hp : s.orderPool.allocate (Order.new id price qty side type 0) with
    | none =>
        have hfull := h.orderPool_empty_iff.mp (ObjectPool.allocate_eq_none.mp hp)
        have halloc : (liftM (allocateOrder (Order.new id price qty side type 0)) :
            BookM OrderPtr) s = .error .poolExhausted s := by
          rw [liftM_heap]
          simp only [allocateOrder, hp]
        rw [if_pos hfull, bind_error halloc]
        exact ⟨rfl, q, h⟩
    | some tp =>
        obtain ⟨t, p⟩ := tp
        have hroom : ¬ a.orderSlots ≤ a.orderCount := by
          rw [← h.orderPool_empty_iff, (ObjectPool.allocate_eq_some hp).2.1]
          exact List.cons_ne_nil _ _
        rw [if_neg hroom, bind_ok (allocateOrder_run hp)]
        have hid : ¬ a.Rests id := fun hr => hbad (Or.inr hr)
        cases side with
        | buy => exact h.matchAndRest hid hp now (fun _ _ => rfl)
        | sell => exact h.matchAndRest hid hp now (fun _ _ => rfl)

/-- **STEP REFINEMENT**: a call on a represented book has the outcome of the
    ladder's call, and leaves a represented book. -/
theorem step_refines (h : Rep s q a) (c : Call) :
    (OrderBook.step c s).1 = (Ladder.step c a).1
      ∧ ∃ q', Rep (OrderBook.step c s).2 q' (Ladder.step c a).2 := by
  obtain ⟨op, now⟩ := c
  cases op with
  | addOrder id side price qty type => exact h.addOrder now id side price qty type
  | cancelOrder id => exact h.cancelOrder id

end Calls

/-- The new book represents the empty ladder. -/
theorem Rep.new (maxOrders maxLevels : Nat) :
    Rep (OrderBook.new maxOrders maxLevels) (fun _ => [])
      (Ladder.empty maxOrders maxLevels) where
  core := by
    have hnone : ∀ {side e}, e ∈ ((OrderBook.new maxOrders maxLevels).levelMap side).entries
        → False := by
      rintro side e he
      cases side <;> cases he
    refine ⟨fun he => (hnone he).elim, fun he => (hnone he).elim,
      fun he => (hnone he).elim, ?_, fun he => (hnone he).elim⟩
    intro id o hid
    rw [show (OrderBook.new maxOrders maxLevels).orderMap = ∅ from rfl,
      AList.lookup_empty] at hid
    cases hid
  view := fun side => by cases side <;> rfl
  orderSlots := ObjectPool.initialFree_length maxOrders
  levelSlots := ObjectPool.initialFree_length maxLevels
  known := rfl
  trades := rfl
  volume := rfl

/-- **RUN REFINEMENT**: from represented books, all outcomes of a run are those
    of the ladder's run, which also represents the last book. -/
theorem run_refines (calls : List Call) {s : OrderBook} {q : LevelPtr → List OrderPtr}
    {a : Ladder} (h : Rep s q a) :
    (OrderBook.run calls s).1 = (Ladder.run calls a).1
      ∧ ∃ q', Rep (OrderBook.run calls s).2 q' (Ladder.run calls a).2 := by
  induction calls generalizing s q a with
  | nil => exact ⟨rfl, q, h⟩
  | cons c calls ih =>
      obtain ⟨hout, q', hrep⟩ := step_refines h c
      obtain ⟨houts, hrest⟩ := ih hrep
      refine ⟨?_, hrest⟩
      show _ :: _ = _ :: _
      rw [hout]
      exact congrArg _ houts

/-- Every run from the new book refines the run from the empty ladder. -/
theorem new_refines (maxOrders maxLevels : Nat) (calls : List Call) :
    (OrderBook.run calls (OrderBook.new maxOrders maxLevels)).1
        = (Ladder.run calls (Ladder.empty maxOrders maxLevels)).1
      ∧ ∃ q, Rep (OrderBook.run calls (OrderBook.new maxOrders maxLevels)).2 q
          (Ladder.run calls (Ladder.empty maxOrders maxLevels)).2 :=
  run_refines calls (Rep.new maxOrders maxLevels)

end Lob
