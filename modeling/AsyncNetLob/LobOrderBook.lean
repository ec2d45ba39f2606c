import AsyncNetLob.LobHeap
import AsyncNetLob.SortedMapProofs
import AsyncNetLob.MachineRunProofs
import Mathlib.Data.List.AList

/-! # `OrderBook`

    The matching engine of `OrderBook.cpp`, statement by statement, over the
    heap of its two pools.  `bids_` and `asks_` are maps ordered by the
    comparator of their side, `orderMap_` is an association list with distinct
    keys (nothing depends on the iteration order of the hash map).

    The matching functions of the two sides differ in the map they walk and in
    the test that stops a LIMIT order; both are `matchOrder` at those two
    values.  A map iterator is the key it stands on, and dereferencing a key
    that left the map is a fault.

    Loops run on fuel: more iterations over makers than there are order slots,
    or over levels than there are level slots, is the fault `diverged`.

    The clock is an argument of `addOrder`: `now k` is what it shows at the
    `k`-th fill of the call.  `printBook` is in `LobPrint`. -/

namespace Lob

open StateExcept SortedMap MachineRun

def defaultMaxOrders : Nat := 100000
def defaultMaxLevels : Nat := 10000

structure OrderBook extends Heap where
  /-- Bids stored in descending order (highest price first). -/
  bids : SMap Price LevelPtr Side.buy.comparator
  /-- Asks stored in ascending order (lowest price first). -/
  asks : SMap Price LevelPtr Side.sell.comparator
  /-- O(1) order lookup map. -/
  orderMap : AList (fun _ : OrderId => OrderPtr)
  totalTradesCount  : UInt64
  totalVolumeTraded : UInt64

/-- `OrderBook::OrderBook`, for the capacities of the two pools. -/
def OrderBook.new (maxOrders maxLevels : Nat) : OrderBook where
  orderPool := ObjectPool.new Order maxOrders
  levelPool := ObjectPool.new PriceLevel maxLevels
  bids := SMap.empty
  asks := SMap.empty
  orderMap := ∅
  totalTradesCount := 0
  totalVolumeTraded := 0

abbrev BookM := EStateM Fault OrderBook

/-- A statement that only touches the heap. -/
def onHeap {α : Type} (x : HeapM α) : BookM α :=
  lens OrderBook.toHeap (fun s h => { s with toHeap := h }) x

instance : MonadLift HeapM BookM := ⟨onHeap⟩

/-- A heap statement inside a book program runs on the heap of the book. -/
theorem liftM_heap {α : Type} (x : HeapM α) (s : OrderBook) :
    (liftM x : BookM α) s = match x s.toHeap with
      | .ok a h => .ok a { s with toHeap := h }
      | .error e h => .error e { s with toHeap := h } := by
  show onHeap x s = _
  unfold onHeap
  cases h : x s.toHeap with
  | ok a h' => exact lens_ok h
  | error e h' => exact lens_error h

namespace OrderBook

/-- `bids_` or `asks_`. -/
def levelMap (s : OrderBook) :
    (side : Side) → SMap Price LevelPtr side.comparator
  | .buy => s.bids
  | .sell => s.asks

def setLevelMap (s : OrderBook) :
    (side : Side) → SMap Price LevelPtr side.comparator → OrderBook
  | .buy, m => { s with bids := m }
  | .sell, m => { s with asks := m }

/-! ## Map iterators -/

/-- `it->second`. -/
def derefLevel (side : Side) (it : Price) : BookM LevelPtr := do
  match ((← get).levelMap side).find? it with
  | some level => return level
  | none => throw .badIterator

/-- `++it`. -/
def nextLevel (side : Side) (it : Price) : BookM (Option Price) := do
  return ((← get).levelMap side).next? it

/-- `it = map.erase(it)`. -/
def eraseLevel (side : Side) (it : Price) : BookM (Option Price) := do
  let s ← get
  set (s.setLevelMap side ((s.levelMap side).erase it))
  return (s.levelMap side).next? it

/-! ## Levels -/

/-- `OrderBook::getOrCreatePriceLevel`. -/
def getOrCreatePriceLevel (side : Side) (price : Price) : BookM LevelPtr := do
  match ((← get).levelMap side).find? price with
  | some level => return level
  | none => do
      let newLevel ← allocateLevel (PriceLevel.new price)
      modify fun s => s.setLevelMap side ((s.levelMap side).insert price newLevel)
      return newLevel

/-- `OrderBook::removePriceLevelIfEmpty`. -/
def removePriceLevelIfEmpty (side : Side) (price : Price)
    (level : Option LevelPtr) : BookM Unit := do
  match level with
  | none => return
  | some level =>
      if (← readLevel level).empty then do
        modify fun s => s.setLevelMap side ((s.levelMap side).erase price)
        deallocateLevel (some level)
      else return

/-! ## Matching -/

/-- One fill of a maker: both remainders and the level's volume shrink, and
    the trade is recorded.  `count` trades were recorded before in this
    call. -/
def recordTrade (now : Nat → Timestamp) (taker : OrderPtr) (level : LevelPtr)
    (maker : OrderPtr) (count : Nat) : BookM MatchEvent := do
  let fillQty := min (← readOrder taker).remainingQty (← readOrder maker).remainingQty
  updateOrder taker fun o => { o with remainingQty := o.remainingQty - fillQty }
  updateOrder maker fun o => { o with remainingQty := o.remainingQty - fillQty }
  updateLevel level fun l => { l with totalVolume := l.totalVolume - fillQty }
  let event : MatchEvent := {
    makerOrderId := (← readOrder maker).id
    takerOrderId := (← readOrder taker).id
    matchPrice := (← readLevel level).price
    matchQuantity := fillQty
    timestamp := now count }
  modify fun s => { s with
    totalTradesCount := s.totalTradesCount + 1
    totalVolumeTraded := s.totalVolumeTraded + fillQty.toUInt64 }
  return event

/-- An exhausted maker leaves the book. -/
def retireIfFilled (level : LevelPtr) (maker : OrderPtr) : BookM Unit := do
  if (← readOrder maker).remainingQty = 0 then do
    let id := (← readOrder maker).id
    modify fun s => { s with orderMap := s.orderMap.erase id }
    PriceLevel.remove level (some maker)
    deallocateOrder (some maker)
  else return

/-- The body of the inner loop. -/
def fillMaker (now : Nat → Timestamp) (taker : OrderPtr) (level : LevelPtr)
    (maker : OrderPtr) (count : Nat) : BookM MatchEvent := do
  let event ← recordTrade now taker level maker count
  retireIfFilled level maker
  return event

/-- The inner loop of `matchBuyOrder` and `matchSellOrder`, over the makers of
    one level. -/
def matchMakers (now : Nat → Timestamp) (taker : OrderPtr) (level : LevelPtr) :
    Nat → Option OrderPtr → List MatchEvent → BookM (List MatchEvent)
  | 0, _, _ => throw .diverged
  | fuel + 1, makerOrder, matched => do
      match makerOrder with
      | none => return matched
      | some maker =>
          if (← readOrder taker).remainingQty > 0 then do
            let nextMaker := (← readOrder maker).next
            let event ← fillMaker now taker level maker matched.length
            matchMakers now taker level fuel nextMaker (matched ++ [event])
          else return matched

/-- The outer loop of `matchBuyOrder` and `matchSellOrder`, over the levels of
    the side `resting`; `beyond` is the test that ends it for a LIMIT order. -/
def matchLevels (now : Nat → Timestamp) (resting : Side)
    (beyond : PriceLevel → Order → Bool) (taker : OrderPtr) :
    Nat → Option Price → List MatchEvent → BookM (List MatchEvent)
  | 0, _, _ => throw .diverged
  | fuel + 1, it, matched => do
      match it with
      | none => return matched
      | some key =>
          if (← readOrder taker).remainingQty > 0 then do
            let level ← derefLevel resting key
            if beyond (← readLevel level) (← readOrder taker) then return matched
            else do
              let makerOrder := (← readLevel level).head
              let makerFuel := (← get).orderPool.capacity + 1
              let matched ← matchMakers now taker level makerFuel makerOrder matched
              if (← readLevel level).empty then do
                deallocateLevel (some level)
                let it ← eraseLevel resting key
                matchLevels now resting beyond taker fuel it matched
              else do
                let it ← nextLevel resting key
                matchLevels now resting beyond taker fuel it matched
          else return matched

/-- A matching function, for the side it takes from and its stopping test. -/
def matchOrder (now : Nat → Timestamp) (resting : Side)
    (beyond : PriceLevel → Order → Bool) (taker : OrderPtr)
    (matched : List MatchEvent) : BookM (List MatchEvent) := do
  let s ← get
  matchLevels now resting beyond taker (s.levelPool.capacity + 1)
    (s.levelMap resting).first? matched

/-- `OrderBook::matchBuyOrder`. -/
def matchBuyOrder (now : Nat → Timestamp) (buyOrder : OrderPtr)
    (matched : List MatchEvent) : BookM (List MatchEvent) :=
  matchOrder now .sell
    (fun askLevel buyOrder =>
      buyOrder.type = .limit && askLevel.price > buyOrder.price)
    buyOrder matched

/-- `OrderBook::matchSellOrder`. -/
def matchSellOrder (now : Nat → Timestamp) (sellOrder : OrderPtr)
    (matched : List MatchEvent) : BookM (List MatchEvent) :=
  matchOrder now .buy
    (fun bidLevel sellOrder =>
      sellOrder.type = .limit && bidLevel.price < sellOrder.price)
    sellOrder matched

/-! ## The public calls -/

/-- Rest a LIMIT remainder, release the slot otherwise. -/
def restOrRelease (side : Side) (id : OrderId) (type : OrderType)
    (incomingOrder : OrderPtr) : BookM Unit := do
  if (← readOrder incomingOrder).remainingQty > 0 ∧ type = .limit then do
    let level ← getOrCreatePriceLevel side (← readOrder incomingOrder).price
    PriceLevel.append level incomingOrder
    modify fun s => { s with orderMap := s.orderMap.insert id incomingOrder }
  else deallocateOrder (some incomingOrder)

/-- `OrderBook::addOrder`. -/
def addOrder (now : Nat → Timestamp) (id : OrderId) (side : Side) (price : Price)
    (qty : Quantity) (type : OrderType) : BookM (List MatchEvent) := do
  if qty = 0 ∨ (← get).orderMap.lookup id ≠ none then return []
  else do
    let incomingOrder ← allocateOrder (Order.new id price qty side type 0)
    match side with
    | .buy => do
        let matched ← matchBuyOrder now incomingOrder []
        restOrRelease .buy id type incomingOrder
        return matched
    | .sell => do
        let matched ← matchSellOrder now incomingOrder []
        restOrRelease .sell id type incomingOrder
        return matched

/-- Take an order out of its level, and the level out of the book if that
    empties it. -/
def leaveLevel (order : OrderPtr) (level : Option LevelPtr) : BookM Unit := do
  match level with
  | none => return
  | some level => do
      PriceLevel.remove level (some order)
      removePriceLevelIfEmpty (← readOrder order).side (← readOrder order).price
        (some level)

/-- `OrderBook::cancelOrder`. -/
def cancelOrder (id : OrderId) : BookM Bool := do
  match (← get).orderMap.lookup id with
  | none => return false
  | some order => do
      let level := (← readOrder order).priceLevelPtr
      leaveLevel order level
      modify fun s => { s with orderMap := s.orderMap.erase id }
      deallocateOrder (some order)
      return true

/-- `OrderBook::~OrderBook`. -/
def destructor : BookM Unit := do
  let s ← get
  s.orderMap.entries.forM fun e => onHeap (deallocateOrder (some e.2))
  modify fun s => { s with orderMap := ∅ }
  s.bids.entries.forM fun e => onHeap (deallocateLevel (some e.2))
  modify fun s => { s with bids := SMap.empty }
  s.asks.entries.forM fun e => onHeap (deallocateLevel (some e.2))
  modify fun s => { s with asks := SMap.empty }

/-! ## Top of the book -/

/-- The price and quantity of a side's first level, if it has one. -/
def bestOf (side : Side) : BookM (Option (Price × Quantity)) := do
  match ((← get).levelMap side).entries with
  | [] => return none
  | (price, level) :: _ => return some (price, (← readLevel level).totalVolume)

/-- `OrderBook::getBestBid` and `OrderBook::getBestAsk`: `none` is the return
    value `false`, which leaves the two reference arguments alone. -/
def getBestBid : BookM (Option (Price × Quantity)) := bestOf .buy
def getBestAsk : BookM (Option (Price × Quantity)) := bestOf .sell

/-- `OrderBook::getSpread`. -/
def getSpread (s : OrderBook) : Option Price :=
  match s.bids.entries, s.asks.entries with
  | (bestBid, _) :: _, (bestAsk, _) :: _ =>
      if bestAsk ≥ bestBid then some (bestAsk - bestBid) else none
  | _, _ => none

/-- `getBidLevelsCount`, `getAskLevelsCount`, `getActiveOrdersCount`. -/
def levelsCount (s : OrderBook) (side : Side) : Nat := (s.levelMap side).entries.length
def activeOrdersCount (s : OrderBook) : Nat := s.orderMap.entries.length

end OrderBook

/-! ## Calls and runs -/

/-- A call of the public interface that changes the book. -/
inductive Op where
  | addOrder (id : OrderId) (side : Side) (price : Price) (qty : Quantity)
      (type : OrderType)
  | cancelOrder (id : OrderId)
  deriving DecidableEq

/-- A call, with what the clock shows during it. -/
structure Call where
  op  : Op
  now : Nat → Timestamp

/-- What the caller sees: the returned events, the returned flag, or an
    exception it catches. -/
inductive Outcome where
  | events (es : List MatchEvent)
  | cancelled (flag : Bool)
  | threw (fault : Fault)
  deriving DecidableEq

/-- What the caller sees of a program that returned or threw. -/
def caught {α : Type} (outcome : α → Outcome) :
    EStateM.Result Fault OrderBook α → Outcome × OrderBook
  | .ok x s => (outcome x, s)
  | .error f s => (.threw f, s)

/-- Perform a call and catch what it throws. -/
def OrderBook.step (c : Call) (s : OrderBook) : Outcome × OrderBook :=
  match c.op with
  | .addOrder id side price qty type =>
      caught .events (OrderBook.addOrder c.now id side price qty type s)
  | .cancelOrder id => caught .cancelled (OrderBook.cancelOrder id s)

/-- A sequence of calls, from any book. -/
def OrderBook.run (calls : List Call) (s : OrderBook) : List Outcome × OrderBook :=
  MachineRun.run OrderBook.step calls s

end Lob
