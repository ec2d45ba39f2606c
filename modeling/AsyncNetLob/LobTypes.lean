import Mathlib.Order.Defs.Unbundled

/-! # The vocabulary of the limit order book

    `Types.hpp`, `Order.hpp` and the data of `PriceLevel.hpp`.  Integers have
    the widths of the source and wrap as they do there.  A pointer is the
    index of a slot of its object pool, a nullable pointer an `Option`.

    `PriceLevel::prevLevel` and `nextLevel`, which nothing reads or writes, and
    `Status` are left out. -/

namespace Lob

abbrev OrderId := UInt64
/-- Ticks. -/
abbrev Price := UInt64
abbrev Quantity := UInt32
/-- Nanoseconds since epoch. -/
abbrev Timestamp := UInt64

/-- `Order*` and `PriceLevel*`: slots of the two pools. -/
abbrev OrderPtr := Nat
abbrev LevelPtr := Nat

inductive Side where
  | buy
  | sell
  deriving DecidableEq, Repr

inductive OrderType where
  | limit
  | market
  | cancel
  deriving DecidableEq, Repr

structure MatchEvent where
  makerOrderId  : OrderId
  takerOrderId  : OrderId
  matchPrice    : Price
  matchQuantity : Quantity
  timestamp     : Timestamp
  deriving DecidableEq, Repr

structure Order where
  id            : OrderId
  price         : Price
  quantity      : Quantity
  remainingQty  : Quantity
  side          : Side
  type          : OrderType
  timestamp     : Timestamp
  priceLevelPtr : Option LevelPtr
  prev          : Option OrderPtr
  next          : Option OrderPtr
  deriving DecidableEq, Repr

/-- `Order::Order`. -/
def Order.new (orderId : OrderId) (p : Price) (q : Quantity) (s : Side)
    (t : OrderType) (ts : Timestamp) : Order where
  id := orderId
  price := p
  quantity := q
  remainingQty := q
  side := s
  type := t
  timestamp := ts
  priceLevelPtr := none
  prev := none
  next := none

structure PriceLevel where
  price       : Price
  totalVolume : Quantity
  orderCount  : Nat
  head        : Option OrderPtr
  tail        : Option OrderPtr
  deriving DecidableEq, Repr

/-- `PriceLevel::PriceLevel`. -/
def PriceLevel.new (p : Price) : PriceLevel where
  price := p
  totalVolume := 0
  orderCount := 0
  head := none
  tail := none

/-- `PriceLevel::empty`. -/
def PriceLevel.empty (level : PriceLevel) : Bool := level.head.isNone

/-- The other side of the book. -/
def Side.opposite : Side → Side
  | .buy => .sell
  | .sell => .buy

@[simp] theorem Side.opposite_opposite (s : Side) : s.opposite.opposite = s := by
  cases s <;> rfl

@[simp] theorem Side.opposite_ne (s : Side) : s.opposite ≠ s := by
  cases s <;> decide

/-- There are two sides. -/
theorem Side.eq_opposite {s s' : Side} (h : s ≠ s') : s = s'.opposite := by
  cases s <;> cases s' <;> first | rfl | exact absurd rfl h

/-- The comparator of a side's map: `std::greater` for the bids, `std::less`
    for the asks, so that the best price comes first. -/
def Side.comparator : Side → Price → Price → Prop
  | .buy, p, q => p > q
  | .sell, p, q => p < q

instance (s : Side) : DecidableRel s.comparator := fun p q =>
  match s with
  | .buy => inferInstanceAs (Decidable (p > q))
  | .sell => inferInstanceAs (Decidable (p < q))

instance (s : Side) : IsStrictTotalOrder Price s.comparator where
  irrefl p := by
    cases s <;> exact UInt64.lt_irrefl p
  trans p q r h h' := by
    cases s with
    | buy => exact UInt64.lt_trans h' h
    | sell => exact UInt64.lt_trans h h'
  trichotomous p q h h' := by
    cases s with
    | buy => exact UInt64.le_antisymm (UInt64.not_lt.mp h) (UInt64.not_lt.mp h')
    | sell => exact UInt64.le_antisymm (UInt64.not_lt.mp h') (UInt64.not_lt.mp h)

end Lob
