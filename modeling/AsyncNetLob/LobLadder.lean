import AsyncNetLob.LobOrderBook
import Mathlib.Algebra.GroupWithZero.Nat

/-! # The book as a value

    A `Ladder` says what an order book IS without saying where it lies: for
    each side the price levels in order of priority, for each level its cached
    volume and its queue.  There are no slots, links or maps; a call is a
    total function, and its loops are recursions over the two lists.

    Of the pools only the number of slots matters.  `orderSlots` counts the
    order slots that are free or hold a resting order, `levelSlots` those of
    the levels, so "the free list is empty" is "as many orders rest as there
    are slots".  While a call holds a slot for its incoming order that slot is
    in neither group; a call that gives it back adds it again.

    The trade counters do not wrap here. -/

namespace Lob

/-- An order that rests, or is about to, without its links. -/
structure RestingOrder where
  id           : OrderId
  quantity     : Quantity
  remainingQty : Quantity
  deriving DecidableEq, Repr

/-- A price level: its cached volume and its queue, first in first out. -/
structure Rung where
  price       : Price
  totalVolume : Quantity
  orders      : List RestingOrder
  deriving DecidableEq, Repr

/-- The number of orders on some rungs. -/
def ordersIn (rungs : List Rung) : Nat := (rungs.map (fun r => r.orders.length)).sum

structure Ladder where
  rungs      : Side → List Rung
  orderSlots : Nat
  levelSlots : Nat
  trades     : Nat
  volume     : Nat

/-- The quantity of some events, not wrapped. -/
def tradedQty (es : List MatchEvent) : Nat := (es.map (·.matchQuantity.toNat)).sum

@[simp] theorem ordersIn_nil : ordersIn [] = 0 := rfl

@[simp] theorem ordersIn_cons (r : Rung) (rs : List Rung) :
    ordersIn (r :: rs) = r.orders.length + ordersIn rs := rfl

@[simp] theorem ordersIn_append (rs rs' : List Rung) :
    ordersIn (rs ++ rs') = ordersIn rs + ordersIn rs' := by
  simp [ordersIn]

@[simp] theorem tradedQty_nil : tradedQty [] = 0 := rfl

@[simp] theorem tradedQty_cons (e : MatchEvent) (es : List MatchEvent) :
    tradedQty (e :: es) = e.matchQuantity.toNat + tradedQty es := rfl

@[simp] theorem tradedQty_append (es es' : List MatchEvent) :
    tradedQty (es ++ es') = tradedQty es + tradedQty es' := by
  simp [tradedQty]

/-! ## Matching -/

/-- What filling from a queue gives: the events, the taker's remainder, the
    level's volume and what is left of the queue. -/
structure Filled where
  events      : List MatchEvent
  left        : Quantity
  totalVolume : Quantity
  orders      : List RestingOrder

/-- Fill a taker from a queue, after `count` earlier fills of the call. -/
def fillQueue (now : Nat → Timestamp) (taker : OrderId) (price : Price) :
    Nat → Quantity → Quantity → List RestingOrder → Filled
  | _, left, volume, [] => ⟨[], left, volume, []⟩
  | count, left, volume, r :: rs =>
      if left > 0 then
        let fillQty := min left r.remainingQty
        let f := fillQueue now taker price (count + 1) (left - fillQty)
          (volume - fillQty) rs
        { f with
          events := ⟨r.id, taker, price, fillQty, now count⟩ :: f.events
          orders := if r.remainingQty - fillQty = 0 then f.orders
            else { r with remainingQty := r.remainingQty - fillQty } :: f.orders }
      else ⟨[], left, volume, r :: rs⟩

/-- What sweeping the levels of a side gives. -/
structure Swept where
  events : List MatchEvent
  left   : Quantity
  rungs  : List Rung

/-- Fill a taker from levels, best first, up to the first price `beyond` its
    limit; emptied levels disappear. -/
def sweep (now : Nat → Timestamp) (taker : OrderId) (beyond : Price → Bool) :
    Nat → Quantity → List Rung → Swept
  | _, left, [] => ⟨[], left, []⟩
  | count, left, r :: rs =>
      if left > 0 ∧ beyond r.price = false then
        let f := fillQueue now taker r.price count left r.totalVolume r.orders
        let m := sweep now taker beyond (count + f.events.length) f.left rs
        { m with
          events := f.events ++ m.events
          rungs := if f.orders = [] then m.rungs
            else ⟨r.price, f.totalVolume, f.orders⟩ :: m.rungs }
      else ⟨[], left, r :: rs⟩

section Fills

variable {now : Nat → Timestamp} {taker : OrderId} {price : Price} {count : Nat}
  {left volume : Quantity} {r : RestingOrder} {rs : List RestingOrder}

/-- A fill exhausts the first maker. -/
theorem fillQueue_exhaust (h : left > 0)
    (hz : r.remainingQty - min left r.remainingQty = 0) :
    fillQueue now taker price count left volume (r :: rs)
      = { fillQueue now taker price (count + 1) (left - min left r.remainingQty)
            (volume - min left r.remainingQty) rs with
          events := ⟨r.id, taker, price, min left r.remainingQty, now count⟩
            :: (fillQueue now taker price (count + 1) (left - min left r.remainingQty)
              (volume - min left r.remainingQty) rs).events } := by
  rw [fillQueue, if_pos h]
  simp only [if_pos hz]

/-- A fill leaves a remainder of the first maker. -/
theorem fillQueue_leaves (h : left > 0)
    (hz : r.remainingQty - min left r.remainingQty ≠ 0) :
    fillQueue now taker price count left volume (r :: rs)
      = { fillQueue now taker price (count + 1) (left - min left r.remainingQty)
            (volume - min left r.remainingQty) rs with
          events := ⟨r.id, taker, price, min left r.remainingQty, now count⟩
            :: (fillQueue now taker price (count + 1) (left - min left r.remainingQty)
              (volume - min left r.remainingQty) rs).events
          orders := { r with remainingQty := r.remainingQty - min left r.remainingQty }
            :: (fillQueue now taker price (count + 1) (left - min left r.remainingQty)
              (volume - min left r.remainingQty) rs).orders } := by
  rw [fillQueue, if_pos h]
  simp only [if_neg hz]

/-- An exhausted taker fills nothing. -/
theorem fillQueue_done (h : ¬ left > 0) :
    fillQueue now taker price count left volume rs = ⟨[], left, volume, rs⟩ := by
  cases rs with
  | nil => rfl
  | cons r rs => rw [fillQueue, if_neg h]

/-- A fill adds no order. -/
theorem fillQueue_ids : ((fillQueue now taker price count left volume rs).orders.map
    RestingOrder.id).Sublist (rs.map RestingOrder.id) := by
  induction rs generalizing count left volume with
  | nil => exact List.Sublist.refl _
  | cons r rs ih =>
      by_cases h : left > 0
      · by_cases hz : r.remainingQty - min left r.remainingQty = 0
        · rw [fillQueue_exhaust h hz]
          exact ih.cons _
        · rw [fillQueue_leaves h hz]
          exact ih.cons_cons _
      · rw [fillQueue_done h]

end Fills

section Rounds

variable {now : Nat → Timestamp} {taker : OrderId} {beyond : Price → Bool}
  {count : Nat} {left : Quantity} {r : Rung} {rs : List Rung} {f : Filled}

/-- The sweep ends before a level. -/
theorem sweep_stop (h : ¬ (left > 0 ∧ beyond r.price = false)) :
    sweep now taker beyond count left (r :: rs) = ⟨[], left, r :: rs⟩ := by
  rw [sweep, if_neg h]

/-- The sweep empties a level. -/
theorem sweep_emptied (h : left > 0 ∧ beyond r.price = false)
    (hf : fillQueue now taker r.price count left r.totalVolume r.orders = f)
    (hnil : f.orders = []) : sweep now taker beyond count left (r :: rs)
      = ⟨f.events ++ (sweep now taker beyond (count + f.events.length) f.left rs).events,
          (sweep now taker beyond (count + f.events.length) f.left rs).left,
          (sweep now taker beyond (count + f.events.length) f.left rs).rungs⟩ := by
  rw [sweep, if_pos h, hf]
  simp only [if_pos hnil]

/-- The sweep leaves orders in a level. -/
theorem sweep_kept (h : left > 0 ∧ beyond r.price = false)
    (hf : fillQueue now taker r.price count left r.totalVolume r.orders = f)
    (hne : f.orders ≠ []) : sweep now taker beyond count left (r :: rs)
      = ⟨f.events ++ (sweep now taker beyond (count + f.events.length) f.left rs).events,
          (sweep now taker beyond (count + f.events.length) f.left rs).left,
          ⟨r.price, f.totalVolume, f.orders⟩
            :: (sweep now taker beyond (count + f.events.length) f.left rs).rungs⟩ := by
  rw [sweep, if_pos h, hf]
  simp only [if_neg hne]

/-- A sweep adds no order. -/
theorem sweep_ids : (((sweep now taker beyond count left rs).rungs.flatMap
    Rung.orders).map RestingOrder.id).Sublist
      ((rs.flatMap Rung.orders).map RestingOrder.id) := by
  induction rs generalizing count left with
  | nil => exact List.Sublist.refl _
  | cons r rs ih =>
      by_cases h : left > 0 ∧ beyond r.price = false
      · generalize hf : fillQueue now taker r.price count left r.totalVolume r.orders = f
        have hids : (f.orders.map RestingOrder.id).Sublist (r.orders.map RestingOrder.id) :=
          hf ▸ fillQueue_ids
        rw [List.flatMap_cons, List.map_append]
        by_cases hnil : f.orders = []
        · rw [sweep_emptied h hf hnil]
          exact ih.trans (List.sublist_append_right _ _)
        · rw [sweep_kept h hf hnil, List.flatMap_cons, List.map_append]
          exact hids.append ih
      · rw [sweep_stop h]

end Rounds

/-- A price of the side `resting` that an order with this limit cannot take. -/
def beyondLimit (resting : Side) (limit : Price) (type : OrderType)
    (price : Price) : Bool :=
  type = .limit && decide (resting.comparator limit price)

/-! ## Resting and cancelling -/

/-- Queue an order at its price. -/
def insertOrder (side : Side) (price : Price) (r : RestingOrder) :
    List Rung → List Rung
  | [] => [⟨price, r.remainingQty, [r]⟩]
  | lv :: rest =>
      if side.comparator price lv.price then
        ⟨price, r.remainingQty, [r]⟩ :: lv :: rest
      else if price = lv.price then
        { lv with totalVolume := lv.totalVolume + r.remainingQty,
                  orders := lv.orders ++ [r] } :: rest
      else lv :: insertOrder side price r rest

section Insert

variable {side : Side} {price : Price} {A B : List Rung}

/-- Levels with better prices are passed. -/
theorem insertOrder_append (r : RestingOrder)
    (hA : ∀ lv ∈ A, side.comparator lv.price price) :
    insertOrder side price r (A ++ B) = A ++ insertOrder side price r B := by
  induction A with
  | nil => rfl
  | cons lv A ih =>
      have hlv := hA lv List.mem_cons_self
      have hne : price ≠ lv.price := by
        rintro rfl
        exact irrefl_of side.comparator _ hlv
      rw [List.cons_append, insertOrder, if_neg (asymm_of side.comparator hlv), if_neg hne,
        ih (fun lv' h => hA lv' (List.mem_cons_of_mem _ h)), List.cons_append]

/-- An order joins the queue of the level at its price. -/
theorem insertOrder_join {lv : Rung} (r : RestingOrder) (hprice : lv.price = price)
    (hA : ∀ lv ∈ A, side.comparator lv.price price) :
    insertOrder side price r (A ++ lv :: B)
      = A ++ { lv with totalVolume := lv.totalVolume + r.remainingQty,
                       orders := lv.orders ++ [r] } :: B := by
  rw [insertOrder_append r hA, insertOrder, if_pos hprice.symm, hprice,
    if_neg (irrefl_of side.comparator price)]

/-- An order opens a level at a new price. -/
theorem insertOrder_open (r : RestingOrder)
    (hA : ∀ lv ∈ A, side.comparator lv.price price)
    (hB : ∀ lv ∈ B, side.comparator price lv.price) :
    insertOrder side price r (A ++ B) = A ++ ⟨price, r.remainingQty, [r]⟩ :: B := by
  rw [insertOrder_append r hA]
  cases B with
  | nil => rfl
  | cons lv B => rw [insertOrder, if_pos (hB lv List.mem_cons_self)]

end Insert

/-- A level without one of its orders, or no level if that was the last. -/
def Rung.without (lv : Rung) (r : RestingOrder) : Option Rung :=
  let orders := lv.orders.filter (fun x => x.id ≠ r.id)
  if orders = [] then none
  else some ⟨lv.price, clampedVolume lv.totalVolume r.remainingQty, orders⟩

/-- Take the order with an id out of the levels of a side. -/
def cancelIn (id : OrderId) (rungs : List Rung) : List Rung :=
  rungs.filterMap fun lv =>
    match lv.orders.find? (fun x => x.id = id) with
    | some r => lv.without r
    | none => some lv

@[simp] theorem cancelIn_append (id : OrderId) (A B : List Rung) :
    cancelIn id (A ++ B) = cancelIn id A ++ cancelIn id B :=
  List.filterMap_append

/-- Cancelling does not touch levels in which the id does not rest. -/
theorem cancelIn_absent {id : OrderId} {rungs : List Rung}
    (h : ∀ lv ∈ rungs, ∀ r ∈ lv.orders, r.id ≠ id) : cancelIn id rungs = rungs := by
  refine (List.filterMap_congr fun lv hlv => ?_).trans (List.filterMap_some)
  have hnone : lv.orders.find? (fun x => x.id = id) = none := by
    rw [List.find?_eq_none]
    intro r hr
    simpa using h lv hlv r hr
  rw [hnone]

/-- Cancelling takes the order out of its level. -/
theorem cancelIn_present {lv : Rung} {r : RestingOrder} {rungs : List Rung}
    {A B : List RestingOrder} (ho : lv.orders = A ++ r :: B)
    (hA : ∀ x ∈ A, x.id ≠ r.id) (hB : ∀ x ∈ B, x.id ≠ r.id) :
    cancelIn r.id (lv :: rungs)
      = (if A ++ B = [] then [] else [⟨lv.price, clampedVolume lv.totalVolume r.remainingQty,
          A ++ B⟩]) ++ cancelIn r.id rungs := by
  have hfind : lv.orders.find? (fun x => x.id = r.id) = some r := by
    have hnone : A.find? (fun x => x.id = r.id) = none := by
      rw [List.find?_eq_none]
      intro x hx
      simpa using hA x hx
    rw [ho, List.find?_append, hnone]
    simp
  have hfilter : lv.orders.filter (fun x => x.id ≠ r.id) = A ++ B := by
    rw [ho, List.filter_append, List.filter_cons]
    rw [List.filter_eq_self.mpr (fun x hx => by simpa using hA x hx),
      List.filter_eq_self.mpr (fun x hx => by simpa using hB x hx)]
    simp
  show List.filterMap _ (lv :: rungs) = _
  rw [List.filterMap_cons, hfind]
  simp only [Rung.without, hfilter]
  by_cases hnil : A ++ B = []
  · rw [if_pos hnil, if_pos hnil]
    rfl
  · rw [if_neg hnil, if_neg hnil]
    rfl

namespace Ladder

/-- All resting orders of a side, in order of priority. -/
def queue (a : Ladder) (side : Side) : List RestingOrder :=
  (a.rungs side).flatMap Rung.orders

def orderCount (a : Ladder) : Nat := ordersIn (a.rungs .buy) + ordersIn (a.rungs .sell)

def levelCount (a : Ladder) : Nat := (a.rungs .buy).length + (a.rungs .sell).length

/-- Some order with this id rests. -/
def Rests (a : Ladder) (id : OrderId) : Prop := ∃ side, ∃ r ∈ a.queue side, r.id = id

/-- A level with this price is on this side. -/
def HasLevel (a : Ladder) (side : Side) (price : Price) : Prop :=
  ∃ lv ∈ a.rungs side, lv.price = price

instance (a : Ladder) (id : OrderId) : Decidable (a.Rests id) :=
  decidable_of_iff ((∃ r ∈ a.queue .buy, r.id = id) ∨ ∃ r ∈ a.queue .sell, r.id = id)
    ⟨fun h => h.elim (fun h => ⟨.buy, h⟩) (fun h => ⟨.sell, h⟩), fun ⟨side, h⟩ => by
      cases side
      · exact Or.inl h
      · exact Or.inr h⟩

instance (a : Ladder) (side : Side) (price : Price) :
    Decidable (a.HasLevel side price) :=
  inferInstanceAs (Decidable (∃ lv ∈ a.rungs side, lv.price = price))

def setRungs (a : Ladder) (side : Side) (rungs : List Rung) : Ladder :=
  { a with rungs := Function.update a.rungs side rungs }

/-- The empty book. -/
def empty (maxOrders maxLevels : Nat) : Ladder where
  rungs := fun _ => []
  orderSlots := maxOrders
  levelSlots := maxLevels
  trades := 0
  volume := 0

/-- The matching phase of a call: a slot is held for the incoming order. -/
def swept (a : Ladder) (now : Nat → Timestamp) (id : OrderId) (side : Side)
    (price : Price) (qty : Quantity) (type : OrderType) : Swept :=
  sweep now id (beyondLimit side.opposite price type) 0 qty (a.rungs side.opposite)

def afterSweep (a : Ladder) (side : Side) (m : Swept) : Ladder :=
  { a.setRungs side.opposite m.rungs with
    orderSlots := a.orderSlots - 1
    trades := a.trades + m.events.length
    volume := a.volume + tradedQty m.events }

/-- Give the slot of the incoming order back: it is free, or holds the order
    that now rests. -/
def giveBack (a : Ladder) : Ladder := { a with orderSlots := a.orderSlots + 1 }

/-- `addOrder` on a book that is a value. -/
def addOrder (now : Nat → Timestamp) (id : OrderId) (side : Side) (price : Price)
    (qty : Quantity) (type : OrderType) (a : Ladder) : Outcome × Ladder :=
  if qty = 0 ∨ a.Rests id then (.events [], a)
  else if a.orderSlots ≤ a.orderCount then (.threw .poolExhausted, a)
  else
    let m := a.swept now id side price qty type
    let b := a.afterSweep side m
    if m.left > 0 ∧ type = .limit then
      if b.HasLevel side price ∨ b.levelCount < b.levelSlots then
        (.events m.events, (b.setRungs side
          (insertOrder side price ⟨id, qty, m.left⟩ (b.rungs side))).giveBack)
      -- the throw skips the deallocation: the held slot is never given back
      else (.threw .poolExhausted, b)
    else (.events m.events, b.giveBack)

/-- `cancelOrder` on a book that is a value. -/
def cancelOrder (id : OrderId) (a : Ladder) : Outcome × Ladder :=
  if a.Rests id then
    (.cancelled true, { a with rungs := fun side => cancelIn id (a.rungs side) })
  else (.cancelled false, a)

/-- Perform a call. -/
def step (c : Call) (a : Ladder) : Outcome × Ladder :=
  match c.op with
  | .addOrder id side price qty type => addOrder c.now id side price qty type a
  | .cancelOrder id => cancelOrder id a

/-- A sequence of calls. -/
def run (calls : List Call) (a : Ladder) : List Outcome × Ladder :=
  MachineRun.run step calls a

@[simp] theorem setRungs_rungs_self (a : Ladder) (side : Side) (rs : List Rung) :
    (a.setRungs side rs).rungs side = rs := by
  simp [setRungs]

@[simp] theorem setRungs_rungs_ne (a : Ladder) {side side' : Side}
    (h : side' ≠ side) (rs : List Rung) :
    (a.setRungs side rs).rungs side' = a.rungs side' := by
  simp [setRungs, h]

@[simp] theorem setRungs_setRungs (a : Ladder) (side : Side) (rs rs' : List Rung) :
    (a.setRungs side rs).setRungs side rs' = a.setRungs side rs' := by
  simp [setRungs]

end Ladder

end Lob
