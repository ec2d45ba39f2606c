import AsyncNetLob.CheapestFillProofs
import AsyncNetLob.LobExecutionProofs
import AsyncNetLob.LobReferenceProofs
import AsyncNetLob.LobTracelessProofs
import Mathlib.Algebra.Order.Monoid.OrderDual

/-! # Maximal and best execution

    An accepted order trades as much as the resting orders it may trade with hold,
    up to its quantity, and no other way of taking that total from them is cheaper
    for a buyer or dearer for a seller.

    The lots within reach come in order of price, so this is a fact about greedy
    fills (`fills_cheapest`): for a seller in the dual order of the naturals. -/

namespace Lob

open GreedyFill

/-! ## The makers -/

/-- The orders that `orderMap_` knows. -/
def OrderBook.restingOrders (s : OrderBook) : List Order :=
  s.orderMap.entries.filterMap fun e => s.order? e.2

/-- The resting orders that an order of this side, price and type may trade with. -/
def OrderBook.tradable (s : OrderBook) (side : Side) (price : Price) (type : OrderType) :
    List Order :=
  s.restingOrders.filter fun x =>
    x.side = side.opposite ∧ (type = .limit → side.Accepts price x.price)

/-- A way of taking a total from some orders: no more from each than remains of it. -/
structure Allocation (makers : List Order) (q : ℕ) (take : OrderId → ℕ) : Prop where
  within : ∀ x ∈ makers, take x.id ≤ x.remainingQty.toNat
  total  : (makers.map fun x => take x.id).sum = q

/-- What an allocation costs. -/
def costOf (makers : List Order) (take : OrderId → ℕ) : ℕ :=
  (makers.map fun x => x.price.toNat * take x.id).sum

/-- What some events cost. -/
def notional (es : List MatchEvent) : ℕ :=
  (es.map fun e => e.matchPrice.toNat * e.matchQuantity.toNat).sum

/-- A value no worse for the taker: a buyer pays it, a seller gets it. -/
def Side.NoWorse (side : Side) (v v' : ℕ) : Prop :=
  match side with
  | .buy => v ≤ v'
  | .sell => v' ≤ v

/-- The events of an order, measured against the orders it may trade with. -/
structure BestExecution (makers : List Order) (side : Side) (qty : Quantity)
    (es : List MatchEvent) : Prop where
  /-- As much as there is. -/
  amount     : tradedQty es = min qty.toNat (makers.map (·.remainingQty.toNat)).sum
  /-- The events are an allocation of their total, at the makers' prices. -/
  allocation : Allocation makers (tradedQty es) fun id => madeQty id es
  cost       : notional es = costOf makers fun id => madeQty id es
  /-- No allocation of this total is better. -/
  best       : ∀ take, Allocation makers (tradedQty es) take →
    side.NoWorse (notional es) (costOf makers take)

section Makers

variable {s : OrderBook} {q : LevelPtr → List OrderPtr} {a : Ladder}

/-- The lot of a resting order. -/
def Order.lot (x : Order) : Lot := (⟨x.price, x.id⟩, x.remainingQty.toNat)

theorem Core.mem_restingOrders (hc : Core s q) {x : Order} :
    x ∈ s.restingOrders ↔ s.Resting x := by
  rw [OrderBook.restingOrders, List.mem_filterMap]
  constructor
  · rintro ⟨⟨id, o⟩, he, hx⟩
    have hid : s.orderMap.lookup id = some o := AList.mem_lookup_iff.mpr he
    obtain ⟨-, -, -, y, -, -, hy, rfl⟩ := hc.mapped hid
    rw [hx] at hy
    obtain rfl := Option.some.inj hy
    exact ⟨o, hid, hx⟩
  · rintro ⟨o, hid, hx⟩
    exact ⟨⟨x.id, o⟩, AList.mem_lookup_iff.mp hid, hx⟩

/-- No id rests twice. -/
theorem Core.restingOrders_nodup (hc : Core s q) : (s.restingOrders.map Order.id).Nodup := by
  have hids : s.restingOrders.map Order.id = s.orderMap.keys := by
    rw [OrderBook.restingOrders, List.map_filterMap, AList.keys, List.keys,
      ← List.filterMap_eq_map]
    refine List.filterMap_congr fun e he => ?_
    obtain ⟨id, o⟩ := e
    obtain ⟨-, -, -, x, -, -, hx, rfl⟩ := hc.mapped (AList.mem_lookup_iff.mpr he)
    rw [hx]
    rfl
  rw [hids]
  exact s.orderMap.keys_nodup

/-- A resting order is a lot of its side. -/
theorem Rep.resting_lot (h : Rep s q a) {x : Order} (hx : s.Resting x) :
    x.lot ∈ lots (a.rungs x.side) := by
  obtain ⟨l, o, he, ho, hx⟩ := h.core.resting_level hx
  rw [← h.view]
  refine mem_lots.mpr ⟨_, List.mem_map_of_mem he, x.view, ?_, rfl⟩
  refine List.mem_filterMap.mpr ⟨o, ho, ?_⟩
  rw [hx]
  rfl

theorem Ladder.WF.reachable_nodup (hwf : a.WF) (side : Side) (price : Price)
    (type : OrderType) : ((a.reachable side price type).map fun y => y.1.id).Nodup :=
  (hwf.lots_nodup side.opposite).sublist (List.filter_sublist.map _)

/-- **THE MAKERS** are the lots within reach. -/
theorem Rep.tradable_perm (h : Rep s q a) (hwf : a.WF) (side : Side) (price : Price)
    (type : OrderType) :
    ((s.tradable side price type).map Order.lot).Perm (a.reachable side price type) := by
  have hmakers : ((s.tradable side price type).map Order.lot).Nodup := by
    have hids := h.core.restingOrders_nodup.sublist
      ((List.filter_sublist (l := s.restingOrders)
        (p := fun x => x.side = side.opposite ∧ (type = .limit → side.Accepts price x.price))).map
          Order.id)
    refine List.Nodup.of_map (fun y : Lot => y.1.id) ?_
    rw [List.map_map]
    exact hids
  refine (List.perm_ext_iff_of_nodup hmakers
    ((hwf.reachable_nodup side price type).of_map _)).mpr fun y => ?_
  rw [List.mem_map, Ladder.reachable, List.mem_filter, Bool.not_eq_true', ← accepts_iff]
  constructor
  · rintro ⟨x, hx, rfl⟩
    obtain ⟨hx, htrade⟩ := List.mem_filter.mp hx
    obtain ⟨hside, haccept⟩ := of_decide_eq_true htrade
    refine ⟨?_, haccept⟩
    rw [← hside]
    exact h.resting_lot (h.core.mem_restingOrders.mp hx)
  · rintro ⟨hy, haccept⟩
    obtain ⟨x, hx, hid, hprice, hside, hrem⟩ := h.lot_resting hy
    obtain ⟨⟨p, id⟩, n⟩ := y
    dsimp only at hid hprice hrem haccept
    subst hid hprice hrem
    exact ⟨x, List.mem_filter.mpr ⟨h.core.mem_restingOrders.mpr hx,
      decide_eq_true ⟨hside, haccept⟩⟩, rfl⟩

end Makers

/-! ## Prices -/

/-- Lots come in order of price. -/
theorem lots_sorted {side : Side} {rungs : List Rung} (h : SideWF side rungs) :
    (lots rungs).Pairwise fun x y => ¬ side.comparator y.1.price x.1.price := by
  induction rungs with
  | nil => exact List.Pairwise.nil
  | cons lv rungs ih =>
      obtain ⟨hsorted, hrungs⟩ := h.of_cons
      have hprice : ∀ x ∈ lotsOf lv.price lv.orders, x.1.price = lv.price := by
        intro x hx
        obtain ⟨r, -, rfl⟩ := List.mem_map.mp hx
        rfl
      rw [lots_cons]
      refine List.pairwise_append.mpr ⟨?_, ih hrungs, ?_⟩
      · refine List.pairwise_of_forall_mem_list fun x hx y hy => ?_
        rw [hprice x hx, hprice y hy]
        exact irrefl_of side.comparator _
      · intro x hx y hy
        obtain ⟨lv', hlv', r, -, rfl⟩ := mem_lots.mp hy
        rw [hprice x hx]
        exact asymm_of side.comparator (hsorted lv' hlv')

/-- The cost of events that are fills. -/
theorem notional_fills {es : List MatchEvent} {taker : OrderId} {l : List Lot}
    (h : es.map Relabelling.identity.event = l.map (eventOf taker))
    (hlt : ∀ f ∈ l, f.2 < 2 ^ 32) :
    notional es = worth (fun tag => tag.price.toNat) l := by
  have huntimed : notional es = notional (es.map Relabelling.identity.event) := by
    rw [notional, notional, List.map_map]
    rfl
  rw [huntimed, h, notional, List.map_map, worth]
  refine congrArg List.sum (List.map_congr_left fun f hf => ?_)
  show f.1.price.toNat * (UInt32.ofNat f.2).toNat = f.2 * f.1.price.toNat
  rw [UInt32.toNat_ofNat_of_lt' (hlt f hf), Nat.mul_comm]

/-- Greedy is best: for a buyer the asks come cheapest first, for a seller the bids
    come dearest first. -/
theorem fills_best {side : Side} {l : List Lot} {q : ℕ} {take : Tag → ℕ}
    (hsorted : l.Pairwise fun x y => ¬ side.opposite.comparator y.1.price x.1.price)
    (htake : ∀ x ∈ l, take x.1 ≤ x.2) (htotal : total (allot take l) = total (fills q l)) :
    side.NoWorse (worth (fun tag => tag.price.toNat) (fills q l))
      (worth (fun tag => tag.price.toNat) (allot take l)) := by
  cases side with
  | buy =>
      refine fills_cheapest (hsorted.imp fun {x y} h => ?_) htake htotal
      have hle : x.1.price ≤ y.1.price := UInt64.not_lt.mp h
      exact UInt64.le_iff_toNat_le.mp hle
  | sell =>
      have hworth : ∀ l : List Lot, worth (fun tag => OrderDual.toDual tag.price.toNat) l
          = OrderDual.toDual (worth (fun tag => tag.price.toNat) l) := by
        intro l
        induction l with
        | nil => rfl
        | cons x l ih =>
            obtain ⟨tag, n⟩ := x
            rw [worth_cons, worth_cons, ih]
            rfl
      have hdear : l.Pairwise fun x y =>
          OrderDual.toDual x.1.price.toNat ≤ OrderDual.toDual y.1.price.toNat := by
        refine hsorted.imp fun {x y} h => ?_
        have hle : y.1.price ≤ x.1.price := UInt64.not_lt.mp h
        exact UInt64.le_iff_toNat_le.mp hle
      have hmost : worth (fun tag => OrderDual.toDual tag.price.toNat) (fills q l)
          ≤ worth (fun tag => OrderDual.toDual tag.price.toNat) (allot take l) :=
        fills_cheapest hdear htake htotal
      rw [hworth, hworth] at hmost
      exact hmost

/-! ## Execution -/

section Execution

variable {s : OrderBook} {q : LevelPtr → List OrderPtr} {a b : Ladder} {id : OrderId}
  {side : Side} {price : Price} {qty : Quantity} {type : OrderType} {es : List MatchEvent}

/-- Taking by id from the makers is taking by key from the lots. -/
theorem allot_makers {makers : List Order} {l : List Lot}
    (hperm : (makers.map Order.lot).Perm l) (take : OrderId → ℕ) :
    (makers.map fun x => take x.id).sum = total (allot (fun tag => take tag.id) l)
      ∧ costOf makers take
        = worth (fun tag => tag.price.toNat) (allot (fun tag => take tag.id) l) := by
  constructor
  · have hsum := (hperm.map fun y : Lot => take y.1.id).sum_eq
    rw [List.map_map] at hsum
    rw [total, allot, List.map_map]
    exact hsum
  · have hsum := (hperm.map fun y : Lot => take y.1.id * y.1.price.toNat).sum_eq
    rw [List.map_map] at hsum
    rw [worth, allot, List.map_map, costOf]
    refine Eq.trans (congrArg List.sum (List.map_congr_left fun x _ => ?_)) hsum
    exact Nat.mul_comm _ _

/-- What the makers hold is what the lots hold. -/
theorem makers_total {makers : List Order} {l : List Lot}
    (hperm : (makers.map Order.lot).Perm l) :
    (makers.map (·.remainingQty.toNat)).sum = total l := by
  have hall := (hperm.map Prod.snd).sum_eq
  rw [List.map_map] at hall
  exact hall

/-- **BEST EXECUTION** of an order whose makers are the lots within reach. -/
theorem Executed.best (h : Executed a id side price qty type es b) (hwf : a.WF)
    {makers : List Order} (hperm : (makers.map Order.lot).Perm (a.reachable side price type)) :
    BestExecution makers side qty es := by
  have hnodup := hwf.reachable_nodup side price type
  have htraded := h.tradedQty_eq hwf
  have hnotional := notional_fills h.events (fills_lt hwf)
  have hmem : ∀ x ∈ makers, x.lot ∈ a.reachable side price type :=
    fun x hx => hperm.subset (List.mem_map_of_mem hx)
  have hmade : (fun tag : Tag => madeQty tag.id es)
      = fun tag => amount Tag.id tag.id (fills qty.toNat (a.reachable side price type)) := by
    funext tag
    exact h.madeQty_eq hwf tag.id
  obtain ⟨hsum, hcost⟩ := allot_makers hperm fun id => madeQty id es
  rw [hmade] at hsum hcost
  constructor
  case amount =>
    rw [htraded, total_fills, makers_total hperm]
  case allocation =>
    constructor
    · intro x hx
      rw [h.madeQty_eq hwf]
      exact amount_fills_le hnodup (hmem x hx)
    · rw [hsum, htraded, total_eq_worth, total_eq_worth, worth_filled hnodup]
  case cost => rw [hcost, hnotional, worth_filled hnodup]
  case best =>
    intro take htake
    obtain ⟨hsum, hcost⟩ := allot_makers hperm take
    rw [hnotional, hcost]
    refine fills_best ?_ ?_ ?_
    · exact (lots_sorted (hwf.side side.opposite)).sublist List.filter_sublist
    · intro y hy
      obtain ⟨x, hx, rfl⟩ := List.mem_map.mp (hperm.symm.subset hy)
      exact htake.within x hx
    · rw [← hsum, htake.total, htraded]

end Execution

/-- **MAXIMAL AND BEST**: from every reachable book, an accepted order that does not
    throw takes all it can, at the best prices there are. -/
theorem reached_bestExecution {s : OrderBook} (hs : s.Reachable) {now : Nat → Timestamp}
    {id : OrderId} {side : Side} {price : Price} {qty : Quantity} {type : OrderType}
    (hacc : s.Accepted now id side price qty type) :
    ∃ es, (OrderBook.step ⟨.addOrder id side price qty type, now⟩ s).1 = .events es
      ∧ BestExecution (s.tradable side price type) side qty es := by
  obtain ⟨maxOrders, maxLevels, before, rfl⟩ := hs
  obtain ⟨q, hrep⟩ := Rep.reached maxOrders maxLevels before
  have hwf := Ladder.WF.reached maxOrders maxLevels before
  obtain ⟨es, -, b, hout, -, -, hexec⟩ := hrep.executed hwf hacc
  exact ⟨es, hout, hexec.best hwf (hrep.tradable_perm hwf side price type)⟩

/-- A buyer empties the better level and takes a part of the other one. -/
theorem reached_bestExecution_levels : ∃ es, (OrderBook.step
    ⟨.addOrder 9 .buy 101 6 .limit, fun _ => 0⟩
    (OrderBook.reached defaultMaxOrders defaultMaxLevels
      [⟨.addOrder 1 .sell 101 5 .limit, fun _ => 0⟩, ⟨.addOrder 2 .sell 100 2 .limit, fun _ => 0⟩,
        ⟨.addOrder 3 .sell 100 2 .limit, fun _ => 0⟩])).1 = .events es
    ∧ BestExecution (OrderBook.tradable (OrderBook.reached defaultMaxOrders defaultMaxLevels
      [⟨.addOrder 1 .sell 101 5 .limit, fun _ => 0⟩, ⟨.addOrder 2 .sell 100 2 .limit, fun _ => 0⟩,
        ⟨.addOrder 3 .sell 100 2 .limit, fun _ => 0⟩]) .buy 101 .limit) .buy 6 es :=
  reached_bestExecution ⟨_, _, _, rfl⟩ (@OrderBook.Accepted.of_events _ _ _ _ _ _ _
    [⟨2, 9, 100, 2, 0⟩, ⟨3, 9, 100, 2, 0⟩, ⟨1, 9, 101, 2, 0⟩]
    (by decide) (by decide +kernel) (by decide +kernel))

end Lob
