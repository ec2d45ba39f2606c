import AsyncNetLob.LobLadderProofs

/-! # A naive price-time-priority book

    What an order book is for, with no structure at all: a plain list of resting
    orders.  A taker looks through the whole list for the best maker, again and
    again.

    This is a statement of purpose, not a translation; `OrderBook` is compared
    with it in `LobReferenceProofs`.  Its events carry no time. -/

namespace Lob

/-- A resting order, with the number of its acceptance. -/
structure RefOrder where
  id        : OrderId
  side      : Side
  price     : Price
  remaining : Quantity
  seq       : Nat
  deriving DecidableEq, Repr

/-- The better price, or the same price and accepted earlier. -/
def RefOrder.Before (x y : RefOrder) : Prop :=
  x.side.comparator x.price y.price ∨ x.price = y.price ∧ x.seq < y.seq

instance (x y : RefOrder) : Decidable (x.Before y) :=
  inferInstanceAs (Decidable (_ ∨ _))

/-- A price that an order with this limit accepts. -/
def Side.Accepts (side : Side) (limit price : Price) : Prop :=
  match side with
  | .buy => price ≤ limit
  | .sell => price ≥ limit

instance (side : Side) (limit price : Price) : Decidable (side.Accepts limit price) :=
  match side with
  | .buy => inferInstanceAs (Decidable (price ≤ limit))
  | .sell => inferInstanceAs (Decidable (price ≥ limit))

/-- An order of this side, price and type may trade with the resting order. -/
def RefOrder.Tradable (side : Side) (price : Price) (type : OrderType) (x : RefOrder) : Prop :=
  x.side = side.opposite ∧ x.remaining > 0 ∧ (type = .limit → side.Accepts price x.price)

instance (side : Side) (price : Price) (type : OrderType) (x : RefOrder) :
    Decidable (x.Tradable side price type) :=
  inferInstanceAs (Decidable (_ ∧ _ ∧ _))

/-- The order that no other one comes before. -/
def first : List RefOrder → Option RefOrder
  | [] => none
  | x :: xs =>
      match first xs with
      | none => some x
      | some y => if y.Before x then some y else some x

/-- The best order there is to trade with. -/
def pick (side : Side) (price : Price) (type : OrderType) (orders : List RefOrder) :
    Option RefOrder :=
  first (orders.filter fun x => x.Tradable side price type)

/-- One order loses a quantity, and leaves when nothing remains of it. -/
def fillOrder (x : RefOrder) (qty : Quantity) (orders : List RefOrder) : List RefOrder :=
  orders.filterMap fun y =>
    if y = x then
      if y.remaining - qty = 0 then none else some { y with remaining := y.remaining - qty }
    else some y

theorem first_mem {l : List RefOrder} {x : RefOrder} (h : first l = some x) : x ∈ l := by
  induction l generalizing x with
  | nil => cases h
  | cons y l ih =>
      rw [first] at h
      split at h
      · rw [Option.some.inj h]
        exact List.mem_cons_self
      · next z hz =>
          split at h
          · rw [← Option.some.inj h]
            exact List.mem_cons_of_mem _ (ih hz)
          · rw [Option.some.inj h]
            exact List.mem_cons_self

theorem pick_tradable {side : Side} {price : Price} {type : OrderType}
    {orders : List RefOrder} {x : RefOrder} (h : pick side price type orders = some x) :
    x ∈ orders ∧ x.Tradable side price type := by
  have hmem := List.mem_filter.mp (first_mem h)
  exact ⟨hmem.1, of_decide_eq_true hmem.2⟩

/-- A fill leaves less of the taker. -/
theorem fill_decreases {left remaining : Quantity} (hleft : left ≠ 0) (hrem : remaining > 0) :
    (left - min left remaining).toNat < left.toNat := by
  rw [taker_toNat]
  rw [quantity_pos] at hrem
  rw [Ne, quantity_zero] at hleft
  omega

/-- What matching gives: the events, the taker's remainder and the resting
    orders. -/
structure RefMatched where
  events : List MatchEvent
  left   : Quantity
  orders : List RefOrder

/-- Trade with the best order until nothing remains to trade or to trade with. -/
def matchAll (taker : OrderId) (side : Side) (price : Price) (type : OrderType)
    (left : Quantity) (orders : List RefOrder) : RefMatched :=
  if hleft : left = 0 then ⟨[], left, orders⟩
  else
    match hpick : pick side price type orders with
    | none => ⟨[], left, orders⟩
    | some x =>
        have := fill_decreases hleft (pick_tradable hpick).2.2.1
        let qty := min left x.remaining
        let m := matchAll taker side price type (left - qty) (fillOrder x qty orders)
        { m with events := ⟨x.id, taker, x.price, qty, 0⟩ :: m.events }
termination_by left.toNat

structure RefBook where
  orders   : List RefOrder
  accepted : Nat

namespace RefBook

def empty : RefBook := ⟨[], 0⟩

/-- An order with this id rests. -/
def Rests (b : RefBook) (id : OrderId) : Prop := ∃ x ∈ b.orders, x.id = id

instance (b : RefBook) (id : OrderId) : Decidable (b.Rests id) :=
  inferInstanceAs (Decidable (∃ x ∈ b.orders, x.id = id))

def addOrder (id : OrderId) (side : Side) (price : Price) (qty : Quantity)
    (type : OrderType) (b : RefBook) : Outcome × RefBook :=
  if qty = 0 ∨ b.Rests id then (.events [], b)
  else
    let m := matchAll id side price type qty b.orders
    let rests := if m.left > 0 ∧ type = .limit then [⟨id, side, price, m.left, b.accepted⟩] else []
    (.events m.events, ⟨m.orders ++ rests, b.accepted + 1⟩)

def cancelOrder (id : OrderId) (b : RefBook) : Outcome × RefBook :=
  if b.Rests id then (.cancelled true, { b with orders := b.orders.filter (fun x => x.id ≠ id) })
  else (.cancelled false, b)

/-- Perform a call; the clock is not looked at. -/
def step (c : Call) (b : RefBook) : Outcome × RefBook :=
  match c.op with
  | .addOrder id side price qty type => addOrder id side price qty type b
  | .cancelOrder id => cancelOrder id b

def run (calls : List Call) (b : RefBook) : List Outcome × RefBook :=
  MachineRun.run step calls b

/-- The queue at a price: ids and remainders, in the order of acceptance. -/
def queueAt (b : RefBook) (side : Side) (price : Price) : List (OrderId × Quantity) :=
  (b.orders.filter fun x => x.side = side ∧ x.price = price).map fun x => (x.id, x.remaining)

end RefBook

end Lob
