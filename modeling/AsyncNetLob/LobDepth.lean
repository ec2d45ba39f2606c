import AsyncNetLob.CoarserLotsProofs
import AsyncNetLob.LobEffectProofs
import AsyncNetLob.LobVolumeProofs

/-! # Market by price

    The book of someone who is told of every accepted order and every cancellation,
    but of no order ids: for each side the prices, best first, each with what rests
    there.  A new order fills the levels it reaches as it would fill single orders,
    and a cancellation takes what was left of its order out of one level.

    `OrderBook.notice` is what there is to tell of a call; `DepthBook.step` does not
    look at the order book. -/

namespace Lob

open GreedyFill

/-- The prices of a side, each with the quantity that rests there. -/
abbrev Depths := List (Price × ℕ)

abbrev DepthBook := Side → Depths

/-- What is told of a call that changes the book. -/
inductive Notice where
  | order (side : Side) (price : Price) (qty : Quantity) (type : OrderType)
  | cancel (side : Side) (price : Price) (left : Quantity)
  deriving DecidableEq

/-- Add a quantity at a price. -/
def addDepth (side : Side) (price : Price) (n : ℕ) : Depths → Depths
  | [] => [(price, n)]
  | (p, m) :: levels =>
      if side.comparator price p then (price, n) :: (p, m) :: levels
      else if price = p then (p, m + n) :: levels
      else (p, m) :: addDepth side price n levels

/-- Take a quantity away at a price, and the price if nothing is left there. -/
def cutDepth (price : Price) (n : ℕ) (levels : Depths) : Depths :=
  drain (fun p => p) (fun p => if p = price then n else 0) levels

namespace DepthBook

def empty : DepthBook := fun _ => []

/-- The levels that an order may trade with. -/
def reach (d : DepthBook) (side : Side) (price : Price) (type : OrderType) : Depths :=
  (d side.opposite).filter fun x => !beyondLimit side.opposite price type x.1

/-- The levels of the other side beyond its limit. -/
def beyond (d : DepthBook) (side : Side) (price : Price) (type : OrderType) : Depths :=
  (d side.opposite).filter fun x => beyondLimit side.opposite price type x.1

/-- An accepted order: what is traded at which price, and the depths after it. -/
def order (side : Side) (price : Price) (qty : Quantity) (type : OrderType) (d : DepthBook) :
    Depths × DepthBook :=
  let within := d.reach side price type
  let other := rest qty.toNat within ++ d.beyond side price type
  let own := if type = .limit ∧ total within < qty.toNat then
      addDepth side price (qty.toNat - total within) (d side)
    else d side
  (fills qty.toNat within, Function.update (Function.update d side.opposite other) side own)

def step : Option Notice → DepthBook → Depths × DepthBook
  | none, d => ([], d)
  | some (.order side price qty type), d => d.order side price qty type
  | some (.cancel side price left), d =>
      ([], Function.update d side (cutDepth price left.toNat (d side)))

/-- Follow a sequence of notices. -/
def run (notices : List (Option Notice)) (d : DepthBook) : List Depths × DepthBook :=
  MachineRun.run step notices d

end DepthBook

/-! ## What the order book tells -/

namespace OrderBook

/-- What is told of a call. -/
def notice (c : Call) (s : OrderBook) : Option Notice :=
  match c.op with
  | .addOrder _ side price qty type =>
      if accepts c s then some (.order side price qty type) else none
  | .cancelOrder id =>
      ((s.orderMap.lookup id).bind s.order?).map fun x =>
        .cancel x.side x.price x.remainingQty

/-- What is told of the calls of a run. -/
def notices : List Call → OrderBook → List (Option Notice)
  | [], _ => []
  | c :: calls, s => notice c s :: notices calls (step c s).2

/-- The prices of a side, with what the queued orders hold. -/
def depths (s : OrderBook) (side : Side) : Depths :=
  (s.levels side).map fun lv => (lv.price, lv.depth)

end OrderBook

/-- What some events trade, price by price. -/
def byPrice (es : List MatchEvent) : Depths :=
  merge (fun p => p) (es.map fun e => (e.matchPrice, e.matchQuantity.toNat))

end Lob
