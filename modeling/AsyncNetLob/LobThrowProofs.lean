import AsyncNetLob.LobBookInvariantProofs
import AsyncNetLob.LobReference

/-! # When `addOrder` throws, and what is left then

    A call throws at one of two allocations.  At the first one nothing has
    happened yet.  The second one, of a level for a remainder, comes after
    the matching phase; but a remainder after any fill means that a level of
    the other side was emptied and its slot returned, so whenever that
    allocation fails the matching phase has not touched the book. -/

namespace Lob

open StateExcept SortedMap LinkedSegment MachineRun

/-- A level for this side and price is needed and cannot be had: no resting
    order can be taken, none of the own side has the price, no slot is free. -/
structure OrderBook.NoLevelFor (s : OrderBook) (side : Side) (price : Price) : Prop where
  other : ∀ x, s.Resting x → x.side = side.opposite → ¬ side.Accepts price x.price
  own   : (s.levelMap side).find? price = none
  full  : s.levelPool.freeList = []

/-- The condition under which `addOrder` throws. -/
def OrderBook.Throws (s : OrderBook) (id : OrderId) (side : Side) (price : Price)
    (qty : Quantity) (type : OrderType) : Prop :=
  qty > 0 ∧ s.orderMap.lookup id = none
    ∧ (s.orderPool.freeList = [] ∨ type = .limit ∧ s.NoLevelFor side price)

/-- The same condition on a ladder. -/
structure Ladder.NoLevelFor (a : Ladder) (side : Side) (price : Price) : Prop where
  other : ∀ lv ∈ a.rungs side.opposite, side.opposite.comparator price lv.price
  own   : ¬ a.HasLevel side price
  full  : a.levelSlots ≤ a.levelCount

theorem not_accepts {side : Side} {limit price : Price} :
    ¬ side.Accepts limit price ↔ side.opposite.comparator limit price := by
  cases side
  · exact UInt64.not_le
  · exact UInt64.not_le

section Conditions

variable {s : OrderBook} {q : LevelPtr → List OrderPtr} {a : Ladder} {side : Side}
  {price : Price}

/-- The two conditions agree: every level has an order, and every order a
    level. -/
theorem Rep.noLevelFor_iff (h : Rep s q a) (hwf : a.WF) :
    s.NoLevelFor side price ↔ a.NoLevelFor side price := by
  constructor
  · rintro ⟨hother, hown, hfull⟩
    refine ⟨?_, fun hhas => h.hasLevel_iff.mp hhas hown, h.levelPool_empty_iff.mp hfull⟩
    intro lv hlv
    rw [← h.view] at hlv
    obtain ⟨⟨k, l⟩, he, rfl⟩ := List.mem_map.mp hlv
    have hinv := h.repInv hwf
    obtain ⟨-, -, -, hne, -⟩ := hinv.level he
    obtain ⟨o, ho⟩ := List.exists_mem_of_ne_nil _ hne
    obtain ⟨x, hx, -, hprice, hside, -, -, -, hid⟩ := hinv.order he ho
    have hno := hother x ⟨o, hid, hx⟩ hside
    rwa [not_accepts, hprice] at hno
  · rintro ⟨hother, hown, hfull⟩
    refine ⟨?_, ?_, h.levelPool_empty_iff.mpr hfull⟩
    · intro x hx hside
      obtain ⟨l, o, he, -⟩ := h.core.resting_level hx
      rw [not_accepts]
      rw [hside] at he
      have hmem : s.viewLevel q (x.price, l) ∈ a.rungs side.opposite := by
        rw [← h.view]
        exact List.mem_map_of_mem he
      exact hother _ hmem
    · by_contra hne
      exact hown (h.hasLevel_iff.mpr hne)

/-- A matching phase that stops before the first level changes nothing. -/
theorem matchOrder_idle {t : OrderPtr} {τ : Order} {resting : Side}
    (hsw : Sweeping s q t τ) (now : Nat → Timestamp) {beyond : PriceLevel → Order → Bool}
    (hb : ∀ lv x, beyond lv x = beyondLimit resting x.price x.type lv.price)
    (hlimit : τ.type = .limit)
    (hfirst : ∀ e ∈ (s.levelMap resting).entries, resting.comparator τ.price e.1) :
    OrderBook.matchOrder now resting beyond t [] s = .ok [] s := by
  rw [OrderBook.matchOrder, bind_ok (get_ok s), SMap.first?]
  cases hent : (s.levelMap resting).entries with
  | nil => rfl
  | cons e rest =>
      obtain ⟨k, l⟩ := e
      have he : (k, l) ∈ (s.levelMap resting).entries := by
        rw [hent]
        exact List.mem_cons_self
      obtain ⟨lv, hlv, hkey⟩ := hsw.core.live_level he
      have hderef : OrderBook.derefLevel resting k s = .ok l s := by
        rw [OrderBook.derefLevel, bind_ok (get_ok s), SMap.find?_split (A := []) hent]
        rfl
      have hstop : beyond lv τ = true := by
        rw [hb, hkey, beyondLimit, hlimit]
        simpa using hfirst _ he
      rw [List.head?_cons, Option.map_some, OrderBook.matchLevels,
        bind_ok (liftM_ok (readOrder_ok hsw.taker))]
      by_cases hpos : τ.remainingQty > 0
      · rw [if_pos hpos, bind_ok hderef, bind_ok (liftM_ok (readLevel_ok hlv)),
          bind_ok (liftM_ok (readOrder_ok hsw.taker)), if_pos hstop]
        rfl
      · rw [if_neg hpos]
        rfl

end Conditions

section Throws

variable {s : OrderBook} {q : LevelPtr → List OrderPtr} {a : Ladder} {id : OrderId}
  {side : Side} {price : Price} {qty : Quantity} {type : OrderType}

/-- The second allocation throws in the state the first one left. -/
theorem Rep.throw_second (h : Rep s q a) (now : Nat → Timestamp) {t : OrderPtr}
    {p : ObjectPool Order} (hqty : qty > 0) (hid : s.orderMap.lookup id = none)
    (hlevel : a.NoLevelFor side price)
    (hp : s.orderPool.allocate (Order.new id price qty side .limit 0) = some (t, p))
    {beyond : PriceLevel → Order → Bool}
    (hb : ∀ lv x, beyond lv x = beyondLimit side.opposite x.price x.type lv.price) :
    (do let matched ← OrderBook.matchOrder now side.opposite beyond t []
        OrderBook.restOrRelease side id .limit t
        return matched : BookM (List MatchEvent)) { s with orderPool := p }
      = .error .poolExhausted { s with orderPool := p } := by
  obtain ⟨hrep, hsw⟩ := h.allocate hp
  have hfirst : ∀ e ∈ (({ s with orderPool := p } : OrderBook).levelMap
      side.opposite).entries, side.opposite.comparator price e.1 := by
    intro e he
    have hmem : ({ s with orderPool := p } : OrderBook).viewLevel q e
        ∈ a.rungs side.opposite := by
      have hview : _ = a.rungs side.opposite := hrep.view side.opposite
      rw [← hview]
      exact List.mem_map_of_mem he
    exact hlevel.other _ hmem
  have hidle := matchOrder_idle hsw now hb rfl hfirst
  have hend := hrep.restOrRelease hsw (show _ = id from rfl) (show _ = price from rfl)
    (show _ = qty from rfl) (show _ = OrderType.limit from rfl) (show _ = side from rfl) hid
  have hno : ¬ (({ a with orderSlots := a.orderSlots - 1 } : Ladder).HasLevel side price
      ∨ ({ a with orderSlots := a.orderSlots - 1 } : Ladder).levelCount
        < ({ a with orderSlots := a.orderSlots - 1 } : Ladder).levelSlots) := by
    rintro (hhas | hlt)
    · exact hlevel.own hhas
    · exact absurd hlevel.full (Nat.not_le_of_lt hlt)
  rw [if_pos ⟨hqty, rfl⟩, if_neg hno] at hend
  rw [bind_ok hidle, bind_error hend]

/-- What is left when `addOrder` throws: the book as it was, or the book less
    the slot taken for the order. -/
inductive ThrowLeft (s : OrderBook) (x : Order) : OrderBook → Prop
  | first (h : s.orderPool.freeList = []) : ThrowLeft s x s
  | second {t : OrderPtr} {p : ObjectPool Order}
      (h : s.orderPool.allocate x = some (t, p)) : ThrowLeft s x { s with orderPool := p }

/-- Where the condition holds, the call throws. -/
theorem Rep.addOrder_throws (h : Rep s q a) (hwf : a.WF) (now : Nat → Timestamp)
    (hthrows : s.Throws id side price qty type) :
    ∃ s', OrderBook.addOrder now id side price qty type s = .error .poolExhausted s'
      ∧ ThrowLeft s (Order.new id price qty side type 0) s' := by
  obtain ⟨hqty, hid, hwhy⟩ := hthrows
  have hbad : ¬ (qty = 0 ∨ s.orderMap.lookup id ≠ none) := by
    rintro (hz | hne)
    · rw [quantity_pos, quantity_zero.mp hz] at hqty
      exact absurd hqty (Nat.lt_irrefl 0)
    · exact hne hid
  rw [OrderBook.addOrder, bind_ok (get_ok s), if_neg hbad]
  cases hp : s.orderPool.allocate (Order.new id price qty side type 0) with
  | none =>
      have halloc : (liftM (allocateOrder (Order.new id price qty side type 0)) :
          BookM OrderPtr) s = .error .poolExhausted s := by
        rw [liftM_heap]
        simp only [allocateOrder, hp]
      rw [bind_error halloc]
      exact ⟨s, rfl, .first (ObjectPool.allocate_eq_none.mp hp)⟩
  | some tp =>
      obtain ⟨t, p⟩ := tp
      have halloc : (liftM (allocateOrder (Order.new id price qty side type 0)) :
          BookM OrderPtr) s = .ok t { s with orderPool := p } := by
        rw [liftM_heap]
        simp only [allocateOrder, hp]
      have hfree : s.orderPool.freeList ≠ [] := by
        rw [(ObjectPool.allocate_eq_some hp).2.1]
        exact List.cons_ne_nil _ _
      obtain ⟨rfl, hlevel⟩ := hwhy.resolve_left hfree
      rw [h.noLevelFor_iff hwf] at hlevel
      rw [bind_ok halloc]
      refine ⟨{ s with orderPool := p }, ?_, .second hp⟩
      cases side with
      | buy => exact h.throw_second now hqty hid hlevel hp (fun _ _ => rfl)
      | sell => exact h.throw_second now hqty hid hlevel hp (fun _ _ => rfl)

/-- Where it does not, the call returns. -/
theorem Rep.addOrder_returns (h : Rep s q a) (hwf : a.WF) (now : Nat → Timestamp)
    (hreturns : ¬ s.Throws id side price qty type) :
    ∃ es s', OrderBook.addOrder now id side price qty type s = .ok es s' := by
  obtain ⟨hout, -⟩ := h.addOrder now id side price qty type
  have hcase := addOrder_cases now id side price qty type a
  cases hrun : OrderBook.addOrder now id side price qty type s with
  | ok es s' => exact ⟨es, s', rfl⟩
  | error f s' =>
      exfalso
      rw [hrun] at hout
      have hthrew : (Ladder.addOrder now id side price qty type a).1 = .threw f := hout.symm
      have hnew : ¬ a.Rests id → s.orderMap.lookup id = none := by
        intro hr
        by_contra hne
        exact hr (h.rests_iff.mpr hne)
      have hpos : qty ≠ 0 → qty > 0 := by
        intro hz
        rw [Ne, quantity_zero] at hz
        exact quantity_pos.mpr (Nat.pos_of_ne_zero hz)
      generalize Ladder.addOrder now id side price qty type a = v at hcase hthrew
      obtain ⟨out, b⟩ := v
      cases hcase with
      | rejected => cases hthrew
      | rested => cases hthrew
      | finished => cases hthrew
      | refused hqty hid hfull =>
          exact hreturns ⟨hpos hqty, hnew hid,
            Or.inl (h.orderPool_empty_iff.mpr hfull)⟩
      | leaked hqty hid hroom hleft hlimit hlevel hfull =>
          obtain ⟨hidle, hother⟩ := AddCase.leaked_idle hwf hlimit hleft hfull
          refine hreturns ⟨hpos hqty, hnew hid, Or.inr ⟨hlimit, ?_⟩⟩
          refine (h.noLevelFor_iff hwf).mpr ⟨hother, ?_, ?_⟩
          · rintro ⟨lv, hlv, hprice⟩
            refine hlevel ⟨lv, ?_, hprice⟩
            rw [Ladder.afterSweep_own]
            exact hlv
          · rw [Ladder.levelCount_eq _ side, Ladder.afterSweep_own,
              Ladder.afterSweep_opposite, hidle] at hfull
            rw [Ladder.levelCount_eq _ side]
            exact hfull

end Throws

/-- Nothing that rests, and no counter, has changed. -/
structure Untouched (s s' : OrderBook) : Prop where
  bids     : s'.bids = s.bids
  asks     : s'.asks = s.asks
  /-- Every level keeps its header, `totalVolume` included. -/
  levels   : s'.levelPool = s.levelPool
  /-- Every resting order keeps its links and its quantities. -/
  orders   : ∀ id o, s.orderMap.lookup id = some o → s'.order? o = s.order? o
  orderMap : s'.orderMap = s.orderMap
  trades   : s'.totalTradesCount = s.totalTradesCount
  volume   : s'.totalVolumeTraded = s.totalVolumeTraded

theorem ThrowLeft.untouched {s s' : OrderBook} {x : Order} {q : LevelPtr → List OrderPtr}
    (hc : Core s q) (h : ThrowLeft s x s') : Untouched s s' := by
  cases h with
  | first => exact ⟨rfl, rfl, rfl, fun _ _ _ => rfl, rfl, rfl, rfl⟩
  | @second t p hp =>
      obtain ⟨hfree, -, -, hslots⟩ := ObjectPool.allocate_eq_some hp
      refine ⟨rfl, rfl, rfl, fun id o hid => ?_, rfl, rfl, rfl⟩
      obtain ⟨side, k, l, y, -, -, hy, -⟩ := hc.mapped hid
      have hne : o ≠ t := by
        rintro rfl
        have hy' : s.orderPool.poolStorage o = some y := hy
        rw [hfree] at hy'
        cases hy'
      show p.poolStorage o = _
      rw [hslots, if_neg hne]
      rfl

/-- **A CALL THAT THROWS HAS TRADED NOTHING**: it throws exactly under the
    condition, with the exception of the pool, and leaves everything that
    rests as it was. -/
theorem reached_addOrder_throws (maxOrders maxLevels : Nat) (calls : List Call)
    (now : Nat → Timestamp) (id : OrderId) (side : Side) (price : Price) (qty : Quantity)
    (type : OrderType) : let s := OrderBook.reached maxOrders maxLevels calls
    ((∃ f s', OrderBook.addOrder now id side price qty type s = .error f s')
        ↔ s.Throws id side price qty type)
      ∧ ∀ f s', OrderBook.addOrder now id side price qty type s = .error f s' →
        f = .poolExhausted ∧ Untouched s s' := by
  intro s
  obtain ⟨q, hrep⟩ := Rep.reached maxOrders maxLevels calls
  have hwf := Ladder.WF.reached maxOrders maxLevels calls
  have hthrown : ∀ f s', OrderBook.addOrder now id side price qty type s = .error f s' →
      s.Throws id side price qty type := by
    intro f s' hrun
    by_contra hno
    obtain ⟨es, s'', hok⟩ := hrep.addOrder_returns hwf now hno
    rw [hrun] at hok
    cases hok
  refine ⟨⟨fun ⟨f, s', hrun⟩ => hthrown f s' hrun, fun hthrows => ?_⟩, ?_⟩
  · obtain ⟨s', hrun, -⟩ := hrep.addOrder_throws hwf now hthrows
    exact ⟨_, s', hrun⟩
  · intro f s' hrun
    obtain ⟨s'', hrun', hleft⟩ := hrep.addOrder_throws hwf now (hthrown f s' hrun)
    rw [hrun] at hrun'
    cases hrun'
    exact ⟨rfl, hleft.untouched hrep.core⟩

end Lob
