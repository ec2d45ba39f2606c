import AsyncNetLob.LobBookInvariantProofs

/-! # The cached volume of a level

    `totalVolume` is a 32-bit cache of what rests at a level.  `append` adds and
    the matching loops subtract modulo 2^32, so they keep it EXACT: equal to the
    true quantity modulo 2^32, also while that is too large for 32 bits.

    `remove` clamps at zero.  It keeps the cache exact unless the order it takes
    out is larger than the cache, which a level of true quantity below 2^32 never
    has; one of a larger quantity can, and is wrong from then on. -/

namespace Lob

open MachineRun

/-- The true quantity of a queue, not wrapped. -/
def depthOf (rs : List RestingOrder) : Nat := (rs.map (·.remainingQty.toNat)).sum

@[simp] theorem depthOf_nil : depthOf [] = 0 := rfl

@[simp] theorem depthOf_cons (r : RestingOrder) (rs : List RestingOrder) :
    depthOf (r :: rs) = r.remainingQty.toNat + depthOf rs := rfl

@[simp] theorem depthOf_append (rs rs' : List RestingOrder) :
    depthOf (rs ++ rs') = depthOf rs + depthOf rs' := by
  simp [depthOf]

/-- The true quantity of a level. -/
def Rung.depth (lv : Rung) : Nat := depthOf lv.orders

/-- The cache is the true quantity, as far as 32 bits show it. -/
def Rung.Exact (lv : Rung) : Prop := lv.totalVolume = UInt32.ofNat lv.depth

/-! ## Adding and subtracting modulo 2^32 -/

theorem ofNat_add_qty (d : Nat) (q : Quantity) :
    UInt32.ofNat d + q = UInt32.ofNat (d + q.toNat) := by
  rw [UInt32.ofNat_add, UInt32.ofNat_toNat]

theorem ofNat_sub_qty (d : Nat) (q : Quantity) :
    UInt32.ofNat (d + q.toNat) - q = UInt32.ofNat d := by
  rw [← ofNat_add_qty]
  grind

/-- **FILLS** keep a cache exact. -/
theorem fillQueue_volume {now : Nat → Timestamp} {taker : OrderId} {price : Price}
    {count : Nat} {left volume : Quantity} {rs : List RestingOrder} {d : Nat}
    (h : volume = UInt32.ofNat (d + depthOf rs)) :
    (fillQueue now taker price count left volume rs).totalVolume
      = UInt32.ofNat (d + depthOf (fillQueue now taker price count left volume rs).orders) := by
  induction rs generalizing count left volume d with
  | nil => exact h
  | cons r rs ih =>
      by_cases hpos : left > 0
      · -- the fill leaves what the maker keeps, and the rest of the queue
        have hkeep : (r.remainingQty - min left r.remainingQty).toNat
            + (min left r.remainingQty).toNat = r.remainingQty.toNat := by
          rw [maker_toNat, min_toNat]
          omega
        have hvol : volume - min left r.remainingQty = UInt32.ofNat
            (d + (r.remainingQty - min left r.remainingQty).toNat + depthOf rs) := by
          have hsum : d + depthOf (r :: rs) = d + (r.remainingQty - min left r.remainingQty).toNat
              + depthOf rs + (min left r.remainingQty).toNat := by
            rw [depthOf_cons, ← hkeep]
            omega
          rw [h, hsum, ofNat_sub_qty]
        have hrest := @ih (count + 1) (left - min left r.remainingQty) _ _ hvol
        by_cases hz : r.remainingQty - min left r.remainingQty = 0
        · rw [fillQueue_exhaust hpos hz]
          rw [quantity_zero.mp hz, Nat.add_zero] at hrest
          exact hrest
        · rw [fillQueue_leaves hpos hz]
          refine hrest.trans ?_
          rw [depthOf_cons, Nat.add_assoc]
      · rw [fillQueue_done hpos]
        exact h

/-- Sweeping keeps the caches of a side exact. -/
theorem sweep_exact {now : Nat → Timestamp} {taker : OrderId} {beyond : Price → Bool}
    {count : Nat} {left : Quantity} {rungs : List Rung} (h : ∀ lv ∈ rungs, lv.Exact) :
    ∀ lv ∈ (sweep now taker beyond count left rungs).rungs, lv.Exact := by
  induction rungs generalizing count left with
  | nil => exact h
  | cons lv rungs ih =>
      have hrest := fun count left => @ih count left
        fun x hx => h x (List.mem_cons_of_mem _ hx)
      by_cases hgo : left > 0 ∧ beyond lv.price = false
      · by_cases hnil : (fillQueue now taker lv.price count left lv.totalVolume
            lv.orders).orders = []
        · rw [sweep_emptied hgo rfl hnil]
          exact hrest _ _
        · rw [sweep_kept hgo rfl hnil]
          rintro x hx
          rcases List.mem_cons.mp hx with rfl | hx
          · have hlv : lv.totalVolume = UInt32.ofNat (0 + depthOf lv.orders) := by
              rw [Nat.zero_add]
              exact h lv List.mem_cons_self
            refine (fillQueue_volume hlv).trans ?_
            rw [Nat.zero_add]
            rfl
          · exact hrest _ _ x hx
      · rw [sweep_stop hgo]
        exact h

/-- Resting an order keeps the caches of a side exact. -/
theorem insertOrder_exact {side : Side} {price : Price} {r : RestingOrder}
    {rungs : List Rung} (h : ∀ lv ∈ rungs, lv.Exact) :
    ∀ lv ∈ insertOrder side price r rungs, lv.Exact := by
  have hnew : Rung.Exact ⟨price, r.remainingQty, [r]⟩ := by
    show r.remainingQty = UInt32.ofNat (r.remainingQty.toNat + 0)
    rw [Nat.add_zero, UInt32.ofNat_toNat]
  induction rungs with
  | nil =>
      intro lv hlv
      rw [List.mem_singleton.mp hlv]
      exact hnew
  | cons lv rungs ih =>
      have hlv := h lv List.mem_cons_self
      have hrungs := fun x hx => h x (List.mem_cons_of_mem lv hx)
      rw [insertOrder]
      split
      · exact List.forall_mem_cons.mpr ⟨hnew, h⟩
      · split
        · refine List.forall_mem_cons.mpr ⟨?_, hrungs⟩
          show lv.totalVolume + r.remainingQty = UInt32.ofNat (depthOf (lv.orders ++ [r]))
          rw [hlv, ofNat_add_qty, depthOf_append]
          rfl
        · exact List.forall_mem_cons.mpr ⟨hlv, ih hrungs⟩

/-- Taking an order out of a queue takes its remainder out of the depth. -/
theorem depthOf_filter {rs : List RestingOrder} {r : RestingOrder}
    (hnd : (rs.map RestingOrder.id).Nodup) (hr : r ∈ rs) :
    depthOf (rs.filter (fun x => x.id ≠ r.id)) + r.remainingQty.toNat = depthOf rs := by
  induction rs with
  | nil => cases hr
  | cons x rs ih =>
      rw [List.map_cons, List.nodup_cons] at hnd
      rcases List.mem_cons.mp hr with rfl | hr
      · have hself : rs.filter (fun x => x.id ≠ r.id) = rs := by
          refine List.filter_eq_self.mpr fun x hx => ?_
          have hne : x.id ≠ r.id := fun heq => hnd.1 (heq ▸ List.mem_map_of_mem hx)
          simpa using hne
        rw [List.filter_cons_of_neg (by simp), hself, depthOf_cons, Nat.add_comm]
      · have hne : x.id ≠ r.id := fun heq => hnd.1 (heq ▸ List.mem_map_of_mem hr)
        rw [List.filter_cons_of_pos (by simpa using hne), depthOf_cons, depthOf_cons,
          Nat.add_assoc, ih hnd.2 hr]

/-- Taking out an order that is not larger than the cache keeps it exact. -/
theorem without_exact {lv lv' : Rung} {r : RestingOrder} (h : lv.Exact)
    (hnd : (lv.orders.map RestingOrder.id).Nodup) (hr : r ∈ lv.orders)
    (hle : r.remainingQty.toNat ≤ lv.depth % 2 ^ 32) (hkeep : lv.without r = some lv') :
    lv'.Exact := by
  obtain ⟨-, rfl⟩ := without_eq hkeep
  have hvol : r.remainingQty ≤ lv.totalVolume := by
    rw [h, UInt32.le_iff_toNat_le, UInt32.toNat_ofNat']
    exact hle
  show clampedVolume lv.totalVolume r.remainingQty = UInt32.ofNat (depthOf _)
  rw [clampedVolume, if_pos hvol, h, Rung.depth, ← depthOf_filter hnd hr, ofNat_sub_qty]

/-! ## When the cache stays exact -/

/-- The call cancels an order that is larger than what 32 bits show of its
    level's quantity. -/
def OrderBook.Drifts (s : OrderBook) (c : Call) : Prop :=
  match c.op with
  | .addOrder _ _ _ _ _ => False
  | .cancelOrder id => ∃ lv ∈ s.levels .buy ++ s.levels .sell, ∃ r ∈ lv.orders,
      r.id = id ∧ lv.depth % 2 ^ 32 < r.remainingQty.toNat

instance (s : OrderBook) (c : Call) : Decidable (s.Drifts c) :=
  match c with
  | ⟨.addOrder _ _ _ _ _, _⟩ => inferInstanceAs (Decidable False)
  | ⟨.cancelOrder id, _⟩ => inferInstanceAs (Decidable
      (∃ lv ∈ s.levels .buy ++ s.levels .sell, ∃ r ∈ lv.orders,
        r.id = id ∧ lv.depth % 2 ^ 32 < r.remainingQty.toNat))

/-- The caches of a ladder. -/
def Ladder.Exact (a : Ladder) : Prop := ∀ side, ∀ lv ∈ a.rungs side, lv.Exact

theorem Ladder.Exact.setRungs {a : Ladder} (h : a.Exact) (side : Side) {rungs : List Rung}
    (hrungs : ∀ lv ∈ rungs, lv.Exact) : (a.setRungs side rungs).Exact := by
  intro side' lv hlv
  by_cases hs : side' = side
  · subst hs
    rw [Ladder.setRungs_rungs_self] at hlv
    exact hrungs lv hlv
  · rw [Ladder.setRungs_rungs_ne a hs] at hlv
    exact h side' lv hlv

/-- The ids of one level are distinct. -/
theorem Ladder.WF.ids_level {a : Ladder} (h : a.WF) {side : Side} {lv : Rung}
    (hlv : lv ∈ a.rungs side) : (lv.orders.map RestingOrder.id).Nodup := by
  refine (h.ids_side side).sublist (List.Sublist.map _ ?_)
  exact (List.sublist_flatten_of_mem (List.mem_map_of_mem hlv)).trans
    (List.sublist_append_left _ _)

/-- **STEP**: a call that does not drift keeps the caches exact. -/
theorem Ladder.Exact.step {s : OrderBook} {a : Ladder}
    (hlevels : ∀ side, s.levels side = a.rungs side) (hwf : a.WF) (h : a.Exact)
    {c : Call} (hc : ¬ s.Drifts c) :
    (Ladder.step c a).2.Exact := by
  obtain ⟨op, now⟩ := c
  cases op with
  | cancelOrder id =>
      show (Ladder.cancelOrder id a).2.Exact
      rw [Ladder.cancelOrder]
      split
      · intro side lv' hlv'
        rcases cancelIn_mem hlv' with ⟨hlv, -⟩ | ⟨lv, hlv, r, hr, hid, hkeep⟩
        · exact h side lv' hlv
        · refine without_exact (h side lv hlv) (hwf.ids_level hlv) hr ?_ hkeep
          by_contra hlt
          refine hc ⟨lv, ?_, r, hr, hid, Nat.lt_of_not_le hlt⟩
          rw [hlevels, hlevels, List.mem_append]
          cases side with
          | buy => exact Or.inl hlv
          | sell => exact Or.inr hlv
      · exact h
  | addOrder id side price qty type =>
      have hswept : (a.afterSweep side (a.swept now id side price qty type)).Exact :=
        h.setRungs side.opposite (sweep_exact (h side.opposite))
      show (Ladder.addOrder now id side price qty type a).2.Exact
      have hcase := addOrder_cases now id side price qty type a
      generalize Ladder.addOrder now id side price qty type a = v at hcase ⊢
      obtain ⟨out, b⟩ := v
      cases hcase with
      | rejected => exact h
      | refused => exact h
      | leaked => exact hswept
      | finished => exact hswept
      | rested => exact hswept.setRungs side (insertOrder_exact (h side))

/-- The caches are what `getBestBid` and `getBestAsk` report, and what really
    rests, where 32 bits hold it. -/
structure TrueDepth (s : OrderBook) : Prop where
  levels : ∀ side, ∀ lv ∈ s.levels side, lv.depth < 2 ^ 32 → lv.totalVolume.toNat = lv.depth
  best   : ∀ side lv, (s.levels side).head? = some lv → lv.depth < 2 ^ 32 →
    ∃ qty, OrderBook.bestOf side s = .ok (some (lv.price, qty)) s
      ∧ qty.toNat = lv.depth ∧ 0 < qty

theorem Rep.trueDepth {s : OrderBook} {q : LevelPtr → List OrderPtr} {a : Ladder}
    (h : Rep s q a) (hwf : a.WF) (hexact : a.Exact) : TrueDepth s where
  levels := fun side lv hlv hlt => by
    rw [h.levels_eq] at hlv
    rw [hexact side lv hlv, UInt32.toNat_ofNat_of_lt' hlt]
  best := fun side lv hhead hlt => by
    have hlv : lv ∈ a.rungs side := by
      rw [← h.levels_eq]
      exact List.mem_of_mem_head? hhead
    have hqty : lv.totalVolume.toNat = lv.depth := by
      rw [hexact side lv hlv, UInt32.toNat_ofNat_of_lt' hlt]
    refine ⟨lv.totalVolume, ?_, hqty, ?_⟩
    · rw [h.bestOf, ← h.levels_eq, hhead]
      rfl
    · -- a level has an order, and every order has a remainder
      obtain ⟨r, rs, hrs⟩ := List.exists_cons_of_ne_nil ((hwf.side side).nonempty lv hlv)
      obtain ⟨hpos, -⟩ := (hwf.side side).live lv hlv r (by simp [hrs])
      refine quantity_pos.mpr ?_
      rw [hqty, Rung.depth, hrs, depthOf_cons]
      exact Nat.add_pos_left (quantity_pos.mp hpos) _

/-- **NO DRIFT**: along every run in which no call cancels an order larger than
    what 32 bits show of its level, every level reports its true quantity
    whenever 32 bits hold it, whatever it was earlier. -/
theorem reached_trueDepth (maxOrders maxLevels : Nat) (calls : List Call)
    (h : Along OrderBook.step (fun c s => ¬ s.Drifts c) calls
      (OrderBook.new maxOrders maxLevels)) :
    ∀ pre, pre <+: calls → TrueDepth (OrderBook.reached maxOrders maxLevels pre) := by
  rintro pre ⟨rest, rfl⟩
  obtain ⟨q, a, hrep, hwf, hexact⟩ := run_invariant_along
    (I := fun s => ∃ q a, Rep s q a ∧ a.WF ∧ a.Exact) (fun c s hc ⟨q, a, hrep, hwf, hexact⟩ => by
      obtain ⟨-, q', hrep'⟩ := step_refines hrep c
      exact ⟨q', _, hrep', hwf.step c, hexact.step hrep.levels_eq hwf hc⟩) h.of_append
    ⟨_, _, Rep.new maxOrders maxLevels, Ladder.WF.empty maxOrders maxLevels,
      fun _ _ hlv => absurd hlv List.not_mem_nil⟩
  exact hrep.trueDepth hwf hexact

/-- A level that was larger than 2^32 and came back down, by a cancellation that
    does not drift. -/
theorem reached_trueDepth_wrapped : TrueDepth (OrderBook.reached defaultMaxOrders defaultMaxLevels
    [⟨.addOrder 1 .buy 100 4294967295 .limit, fun _ => 0⟩,
      ⟨.addOrder 2 .buy 100 6 .limit, fun _ => 0⟩,
      ⟨.addOrder 3 .sell 100 4294967294 .limit, fun _ => 0⟩, ⟨.cancelOrder 2, fun _ => 0⟩]) :=
  reached_trueDepth defaultMaxOrders defaultMaxLevels _ (by decide +kernel) _ List.prefix_rfl

/-- A level of 2^32 - 1 and 6: cancelling the large order leaves 6, and a cache
    of zero. -/
theorem default_depth_drifts : ¬ TrueDepth (OrderBook.reached defaultMaxOrders defaultMaxLevels
    [⟨.addOrder 1 .buy 100 4294967295 .limit, fun _ => 0⟩,
      ⟨.addOrder 2 .buy 100 6 .limit, fun _ => 0⟩, ⟨.cancelOrder 1, fun _ => 0⟩]) := by
  intro h
  have hlevel := h.levels .buy ⟨100, 0, [⟨2, 6, 6⟩]⟩ (by decide +kernel) (by decide)
  exact absurd hlevel (by decide)

end Lob
