import AsyncNetLob.LobBookInvariantProofs
import AsyncNetLob.LobHoldingProofs

/-! # The quantity ledger

    An accepted order trades as taker in its own call and as maker in later ones
    while it rests; what it submitted is what it traded and what is left of it
    (`Ledger.balance`).

    `OrderBook.life` follows one order through a run, from the call that adds it
    to the end of its life: it is cancelled, filled, discarded (if it is not a
    LIMIT order), or still rests when the run ends.  What is left of it is read in
    the memory of the book. -/

namespace Lob

open StateExcept SortedMap MachineRun GreedyFill

/-- How the life of an order ends, with what is left of it. -/
inductive Fate where
  | resting (left : Quantity)
  | cancelled (left : Quantity)
  | discarded (left : Quantity)
  | filled
  deriving DecidableEq

def Fate.leftover : Fate → ℕ
  | .resting left => left.toNat
  | .cancelled left => left.toNat
  | .discarded left => left.toNat
  | .filled => 0

namespace OrderBook

/-- `remainingQty` of the order with an id, where it rests. -/
def remaining (s : OrderBook) (id : OrderId) : Quantity :=
  (((s.orderMap.lookup id).bind s.order?).map Order.remainingQty).getD 0

/-- `remainingQty` of the incoming order of `addOrder` when its matching function
    returns. -/
def remainder (now : Nat → Timestamp) (id : OrderId) (side : Side) (price : Price)
    (qty : Quantity) (type : OrderType) : BookM Quantity := do
  let incomingOrder ← allocateOrder (Order.new id price qty side type 0)
  let _ ← match side with
    | .buy => matchBuyOrder now incomingOrder []
    | .sell => matchSellOrder now incomingOrder []
  return (← readOrder incomingOrder).remainingQty

/-- What `addOrder` discards of an order that is not a LIMIT order. -/
def discarded (s : OrderBook) (now : Nat → Timestamp) (id : OrderId) (side : Side)
    (price : Price) (qty : Quantity) (type : OrderType) : Quantity :=
  match remainder now id side price qty type s with
  | .ok left _ => left
  | .error _ _ => 0

/-- Follow a resting order through some calls: what it trades as a maker while it
    rests, and its fate. -/
def follow (id : OrderId) : List Call → OrderBook → ℕ × Fate
  | [], s => (0, .resting (s.remaining id))
  | c :: calls, s =>
      if c.op = .cancelOrder id then (0, .cancelled (s.remaining id))
      else if (step c s).2.orderMap.lookup id = none then
        (madeQty id (step c s).1.returned, .filled)
      else
        (madeQty id (step c s).1.returned + (follow id calls (step c s).2).1,
          (follow id calls (step c s).2).2)

/-- Follow an accepted order from the call that adds it: what it trades, and its
    fate. -/
def life (now : Nat → Timestamp) (id : OrderId) (side : Side) (price : Price)
    (qty : Quantity) (type : OrderType) (calls : List Call) (s : OrderBook) : ℕ × Fate :=
  let v := step ⟨.addOrder id side price qty type, now⟩ s
  let taken := takenQty id v.1.returned
  if type ≠ .limit then (taken, .discarded (s.discarded now id side price qty type))
  else if v.2.orderMap.lookup id = none then (taken, .filled)
  else (taken + (follow id calls v.2).1, (follow id calls v.2).2)

end OrderBook

section Book

variable {s : OrderBook} {q : LevelPtr → List OrderPtr} {a : Ladder}

/-- Every lot is a resting order. -/
theorem Rep.lot_resting (h : Rep s q a) {side : Side} {y : Lot} (hy : y ∈ lots (a.rungs side)) :
    ∃ x, s.Resting x ∧ x.id = y.1.id ∧ x.price = y.1.price ∧ x.side = side
      ∧ x.remainingQty.toNat = y.2 := by
  obtain ⟨lv, hlv, r, hr, rfl⟩ := mem_lots.mp hy
  rw [← h.view] at hlv
  obtain ⟨⟨k, l⟩, he, rfl⟩ := List.mem_map.mp hlv
  obtain ⟨o, ho, hview⟩ := List.mem_filterMap.mp hr
  obtain ⟨x, hx, rfl⟩ := Option.map_eq_some_iff.mp hview
  obtain ⟨hrests, hid⟩ := h.core.resting he ho hx
  exact ⟨x, ⟨o, hid, hx⟩, rfl, hrests.price, hrests.side, rfl⟩

/-- A resting id holds what remains of its order. -/
theorem Rep.remaining_eq (h : Rep s q a) (hwf : a.WF) {id : OrderId} (hid : a.Rests id) :
    (s.remaining id).toNat = a.held id := by
  obtain ⟨side, y, hy, rfl⟩ := rests_lots.mp hid
  obtain ⟨x, ⟨o, hlook, hx⟩, hxid, -, -, hrem⟩ := h.lot_resting hy
  rw [hwf.held_lot hy, ← hrem, OrderBook.remaining, ← hxid, hlook, Option.bind_some, hx]
  rfl

/-- The remainder of the incoming order is what the sweep leaves. -/
theorem Rep.discarded_eq (h : Rep s q a) (hroom : a.orderCount < a.orderSlots)
    (now : Nat → Timestamp) (id : OrderId) (side : Side) (price : Price) (qty : Quantity)
    (type : OrderType) : s.discarded now id side price qty type
      = (a.swept now id side price qty type).left := by
  cases hp : s.orderPool.allocate (Order.new id price qty side type 0) with
  | none =>
      have hfull := h.orderPool_empty_iff.mp (ObjectPool.allocate_eq_none.mp hp)
      omega
  | some tp =>
      obtain ⟨t, p⟩ := tp
      obtain ⟨hrep, hsw⟩ := h.allocate hp
      -- either matching function runs as the sweep from the allocated order
      have hmatch : ∀ beyond : PriceLevel → Order → Bool,
          (∀ lv x, beyond lv x = beyondLimit side.opposite x.price x.type lv.price) →
          ∃ s₁ x, OrderBook.matchOrder now side.opposite beyond t [] { s with orderPool := p }
              = .ok (a.swept now id side price qty type).events s₁
            ∧ s₁.order? t = some x
            ∧ x.remainingQty = (a.swept now id side price qty type).left := by
        intro beyond hb
        obtain ⟨s₁, q₁, hrun, -, hsw₁⟩ := hrep.matchOrder hsw now hb
          (m := a.swept now id side price qty type) rfl
        exact ⟨s₁, _, hrun, hsw₁.taker, rfl⟩
      have hrem : ∃ s₁, OrderBook.remainder now id side price qty type s
          = .ok (a.swept now id side price qty type).left s₁ := by
        rw [OrderBook.remainder, bind_ok (allocateOrder_run hp)]
        cases side with
        | buy =>
            obtain ⟨s₁, x, hrun, hx, hleft⟩ := hmatch
              (fun askLevel buyOrder => buyOrder.type = .limit && askLevel.price > buyOrder.price)
              fun _ _ => rfl
            rw [← hleft]
            exact ⟨s₁, (bind_ok hrun).trans (bind_ok (liftM_ok (readOrder_ok hx)))⟩
        | sell =>
            obtain ⟨s₁, x, hrun, hx, hleft⟩ := hmatch
              (fun bidLevel sellOrder =>
                sellOrder.type = .limit && bidLevel.price < sellOrder.price)
              fun _ _ => rfl
            rw [← hleft]
            exact ⟨s₁, (bind_ok hrun).trans (bind_ok (liftM_ok (readOrder_ok hx)))⟩
      obtain ⟨s₁, hrem⟩ := hrem
      rw [OrderBook.discarded, hrem]

/-- **A RESTING ORDER** trades and keeps what it holds. -/
theorem follow_balance (h : Rep s q a) (hwf : a.WF) {id : OrderId} (hid : a.Rests id)
    (calls : List Call) : (OrderBook.follow id calls s).1
      + (OrderBook.follow id calls s).2.leftover = a.held id := by
  induction calls generalizing s q a with
  | nil => exact (Nat.zero_add _).trans (h.remaining_eq hwf hid)
  | cons c calls ih =>
      rw [OrderBook.follow]
      by_cases hc : c.op = .cancelOrder id
      · rw [if_pos hc]
        exact (Nat.zero_add _).trans (h.remaining_eq hwf hid)
      · obtain ⟨hout, q', hrep⟩ := step_refines h c
        have hstep := Ladder.held_step hwf hc hid
        rw [← hout] at hstep
        rw [if_neg hc]
        by_cases hgone : (OrderBook.step c s).2.orderMap.lookup id = none
        · rw [if_pos hgone]
          rw [Ladder.held_zero (hrep.lookup_none.mp hgone)] at hstep
          exact hstep
        · rw [if_neg hgone]
          have hrest := ih hrep (hwf.step c) (hrep.rests_iff.mpr hgone)
          dsimp only
          omega

/-! ## Events -/

/-- An event of a call: the call adds the taker, and the maker rests on the other
    side at the price of the event. -/
structure OrderBook.Trades (s : OrderBook) (c : Call) (e : MatchEvent) : Prop where
  quantity : 1 ≤ e.matchQuantity
  distinct : e.makerOrderId ≠ e.takerOrderId
  opposite : ∃ side price qty type, c.op = .addOrder e.takerOrderId side price qty type
    ∧ ∃ x, s.Resting x ∧ x.id = e.makerOrderId ∧ x.side = side.opposite
      ∧ x.price = e.matchPrice

/-- Events are returned only for a new id, and fill lots of the other side. -/
theorem Ladder.event_step (hwf : a.WF) {c : Call} {e : MatchEvent}
    (he : e ∈ (Ladder.step c a).1.returned) : 1 ≤ e.matchQuantity ∧ ¬ a.Rests e.takerOrderId
      ∧ ∃ side price qty type, c.op = .addOrder e.takerOrderId side price qty type
        ∧ ∃ y ∈ lots (a.rungs side.opposite), y.1.id = e.makerOrderId
          ∧ y.1.price = e.matchPrice := by
  obtain ⟨op, now⟩ := c
  cases op with
  | cancelOrder id =>
      have hnil : (Ladder.cancelOrder id a).1.returned = [] := by
        rw [Ladder.cancelOrder]
        split <;> rfl
      have hmem : e ∈ (Ladder.cancelOrder id a).1.returned := he
      rw [hnil] at hmem
      cases hmem
  | addOrder id side price qty type =>
      have hmem : e ∈ (Ladder.addOrder now id side price qty type a).1.returned := he
      have hcase := addOrder_cases now id side price qty type a
      have hfact : ¬ a.Rests id → e ∈ (a.swept now id side price qty type).events →
          1 ≤ e.matchQuantity ∧ ¬ a.Rests e.takerOrderId
            ∧ ∃ side' price' qty' type', Op.addOrder id side price qty type
                = .addOrder e.takerOrderId side' price' qty' type'
              ∧ ∃ y ∈ lots (a.rungs side'.opposite), y.1.id = e.makerOrderId
                ∧ y.1.price = e.matchPrice := by
        intro hid hswept
        obtain ⟨htaker, hqty, y, hy, hmaker⟩ :=
          (hwf.swept_lots now id side price qty type).event hwf hswept
        rw [htaker]
        exact ⟨hqty, hid, side, price, qty, type, rfl, y, List.mem_of_mem_filter hy, hmaker⟩
      generalize Ladder.addOrder now id side price qty type a = v at hcase hmem
      obtain ⟨out, b⟩ := v
      cases hcase with
      | rejected => cases hmem
      | refused => cases hmem
      | leaked => cases hmem
      | finished _ hid => exact hfact hid hmem
      | rested _ hid => exact hfact hid hmem

theorem Rep.trades_of (h : Rep s q a) (hwf : a.WF) {c : Call} {e : MatchEvent}
    (he : e ∈ (OrderBook.step c s).1.returned) : s.Trades c e := by
  rw [(step_refines h c).1] at he
  obtain ⟨hqty, htaker, side, price, qty, type, hop, y, hy, hid, hprice⟩ :=
    Ladder.event_step hwf he
  refine ⟨hqty, ?_, side, price, qty, type, hop, ?_⟩
  · intro heq
    exact htaker (rests_lots.mpr ⟨_, y, hy, hid.trans heq⟩)
  · obtain ⟨x, hx, hxid, hxprice, hside, -⟩ := h.lot_resting hy
    exact ⟨x, hx, hxid.trans hid, hside, hxprice.trans hprice⟩

/-! ## Accepted orders -/

/-- A call that adds an order: it has a quantity, its id is free, and nothing is
    thrown. -/
structure OrderBook.Accepted (s : OrderBook) (now : Nat → Timestamp) (id : OrderId)
    (side : Side) (price : Price) (qty : Quantity) (type : OrderType) : Prop where
  quantity : 0 < qty
  fresh    : s.orderMap.lookup id = none
  returns  : ∀ f, (OrderBook.step ⟨.addOrder id side price qty type, now⟩ s).1 ≠ .threw f

theorem OrderBook.Accepted.of_events {s : OrderBook} {now : Nat → Timestamp} {id : OrderId}
    {side : Side} {price : Price} {qty : Quantity} {type : OrderType} {es : List MatchEvent}
    (hqty : 0 < qty) (hfresh : s.orderMap.lookup id = none)
    (hout : (OrderBook.step ⟨.addOrder id side price qty type, now⟩ s).1 = .events es) :
    s.Accepted now id side price qty type :=
  ⟨hqty, hfresh, fun f h => by cases hout.symm.trans h⟩

/-- **THE LIFE** of an accepted order accounts for its quantity. -/
theorem Rep.life_balance (h : Rep s q a) (hwf : a.WF) {now : Nat → Timestamp} {id : OrderId}
    {side : Side} {price : Price} {qty : Quantity} {type : OrderType}
    (hacc : s.Accepted now id side price qty type) (calls : List Call) :
    qty.toNat = (s.life now id side price qty type calls).1
      + (s.life now id side price qty type calls).2.leftover := by
  obtain ⟨hout, q', hrep⟩ := step_refines h ⟨.addOrder id side price qty type, now⟩
  have hwf' := hwf.step ⟨.addOrder id side price qty type, now⟩
  have hfresh := h.lookup_none.mp hacc.fresh
  have hqty : qty ≠ 0 := mt quantity_zero.mp (quantity_pos.mp hacc.quantity).ne'
  obtain ⟨hroom, htaken, hheld⟩ :=
    Ladder.held_accepted hwf hqty hfresh fun f => hout ▸ hacc.returns f
  rw [OrderBook.life, hout]
  by_cases htype : type = .limit
  · rw [if_neg (not_not.mpr htype)]
    by_cases hgone : (OrderBook.step ⟨.addOrder id side price qty type, now⟩ s).2.orderMap.lookup id
        = none
    · rw [if_pos hgone, ← htaken, ← hheld htype]
      exact congrArg _ (Ladder.held_zero (hrep.lookup_none.mp hgone))
    · rw [if_neg hgone, ← htaken, ← hheld htype]
      have hlater := follow_balance hrep hwf' (hrep.rests_iff.mpr hgone) calls
      exact (congrArg _ hlater.symm).trans (Nat.add_assoc _ _ _).symm
  · rw [if_pos htype, ← htaken, ← h.discarded_eq hroom]
    rfl

end Book

/-! ## The ledger of a run -/

/-- The events returned in a run, in order. -/
def OrderBook.history (maxOrders maxLevels : Nat) (calls : List Call) : List MatchEvent :=
  (OrderBook.run calls (OrderBook.new maxOrders maxLevels)).1.flatMap Outcome.returned

/-- The quantities of a run from the empty book. -/
structure Ledger (maxOrders maxLevels : Nat) (calls : List Call) : Prop where
  /-- An accepted order accounts for its quantity over the rest of the run. -/
  balance : ∀ {before after now id side price qty type},
    calls = before ++ ⟨.addOrder id side price qty type, now⟩ :: after →
    (OrderBook.reached maxOrders maxLevels before).Accepted now id side price qty type →
    qty.toNat
      = ((OrderBook.reached maxOrders maxLevels before).life now id side price qty type after).1
        + ((OrderBook.reached maxOrders maxLevels before).life now id side price qty type
          after).2.leftover
  /-- Every event is a trade between two orders live in its call. -/
  events : ∀ {before c after}, calls = before ++ c :: after →
    ∀ e ∈ (OrderBook.step c (OrderBook.reached maxOrders maxLevels before)).1.returned,
      (OrderBook.reached maxOrders maxLevels before).Trades c e
  /-- After every call the counters show what was returned so far. -/
  counters : ∀ {before after}, calls = before ++ after →
    (OrderBook.reached maxOrders maxLevels before).totalTradesCount
        = UInt64.ofNat (OrderBook.history maxOrders maxLevels before).length
      ∧ (OrderBook.reached maxOrders maxLevels before).totalVolumeTraded
        = UInt64.ofNat (tradedQty (OrderBook.history maxOrders maxLevels before))

/-- **THE QUANTITY LEDGER** of every run, also one in which calls throw. -/
theorem reached_ledger (maxOrders maxLevels : Nat) (calls : List Call) :
    Ledger maxOrders maxLevels calls where
  balance := fun {before after now id side price qty type} _ hacc => by
    obtain ⟨q, hrep⟩ := Rep.reached maxOrders maxLevels before
    exact hrep.life_balance (Ladder.WF.reached maxOrders maxLevels before) hacc after
  events := fun {before c after} _ e he => by
    obtain ⟨q, hrep⟩ := Rep.reached maxOrders maxLevels before
    exact hrep.trades_of (Ladder.WF.reached maxOrders maxLevels before) he
  counters := fun {before after} _ => by
    obtain ⟨houts, q, hrep⟩ := new_refines maxOrders maxLevels before
    obtain ⟨htrades, hvolume⟩ :=
      Ladder.counters_run (Ladder.WF.empty maxOrders maxLevels) before
    rw [OrderBook.history, houts, OrderBook.reached, hrep.trades, hrep.volume, htrades, hvolume]
    exact ⟨congrArg _ (Nat.zero_add _), congrArg _ (Nat.zero_add _)⟩

-- a bid of 100 trades 40 as maker and is cancelled
example : (OrderBook.new defaultMaxOrders defaultMaxLevels).life (fun _ => 0) 10 .buy 150 100
    OrderType.limit [⟨.addOrder 20 .sell 150 40 .limit, fun _ => 0⟩, ⟨.cancelOrder 10, fun _ => 0⟩]
      = (40, Fate.cancelled 60) := by decide +kernel

end Lob
