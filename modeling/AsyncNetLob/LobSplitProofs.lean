import AsyncNetLob.LobExecutionProofs
import AsyncNetLob.LobTracelessProofs

/-! # Splitting a taker changes nothing

    One order, or two orders of the same side, price and type that make up its
    quantity: the makers give the same, the other side is left the same, and as
    much comes to rest.

    On the other side this is additivity of greedy filling in the demand
    (`rest_add`, `total_fills_add`); the second order starts where the first one
    stopped (`Executed.reach`).  On the own side what one order leaves there
    composes with what the next one leaves (`Remains.trans`). -/

namespace Lob

open GreedyFill

/-! ## What orders leave on their own side -/

/-- The quantity that rests under some ids. -/
def heldBy (ids : List OrderId) (rungs : List Rung) : ℕ :=
  (((standing rungs).filter fun x => x.2.id ∈ ids).map fun x => x.2.remainingQty.toNat).sum

/-- Some orders leave an amount at a price, and what stood before untouched. -/
structure Remains (ids : List OrderId) (price : Price) (left : ℕ) (rungs rungs' : List Rung) :
    Prop where
  kept    : (standing rungs').filter (fun x => x.2.id ∉ ids) = standing rungs
  atPrice : ∀ x ∈ standing rungs', x.2.id ∈ ids → x.1 = price
  amount  : heldBy ids rungs' = left
  none    : left = 0 → standing rungs' = standing rungs

section Remains

variable {ids ids' : List OrderId} {price : Price} {left left' : ℕ} {R R' R'' : List Rung}

/-- **ONE AFTER THE OTHER**: two groups of orders leave the sum of what each leaves. -/
theorem Remains.trans (h : Remains ids price left R R') (h' : Remains ids' price left' R' R'') :
    Remains (ids ++ ids') price (left + left') R R'' := by
  have hkept : (standing R'').filter (fun x => x.2.id ∉ ids ++ ids')
      = ((standing R'').filter fun x => x.2.id ∉ ids').filter fun x => x.2.id ∉ ids := by
    rw [List.filter_filter]
    refine List.filter_congr fun x _ => ?_
    simp [List.mem_append, not_or]
  constructor
  case kept => rw [hkept, h'.kept, h.kept]
  case atPrice =>
    intro x hx hid
    by_cases hnew : x.2.id ∈ ids'
    · exact h'.atPrice x hx hnew
    · have hold : x ∈ standing R' := by
        rw [← h'.kept]
        exact List.mem_filter.mpr ⟨hx, decide_eq_true hnew⟩
      exact h.atPrice x hold ((List.mem_append.mp hid).resolve_right hnew)
  case amount =>
    -- the later group, and those of the earlier group that are not in it
    have hperm := List.filter_append_perm (fun x : Price × RestingOrder => decide (x.2.id ∈ ids'))
      ((standing R'').filter fun x => x.2.id ∈ ids ++ ids')
    have hlater : ((standing R'').filter fun x => x.2.id ∈ ids ++ ids').filter
        (fun x => decide (x.2.id ∈ ids')) = (standing R'').filter fun x => x.2.id ∈ ids' := by
      rw [List.filter_filter]
      refine List.filter_congr fun x _ => ?_
      by_cases hx : x.2.id ∈ ids' <;> simp [hx]
    have hearlier : ((standing R'').filter fun x => x.2.id ∈ ids ++ ids').filter
        (fun x => !decide (x.2.id ∈ ids')) = (standing R').filter fun x => x.2.id ∈ ids := by
      rw [← h'.kept, List.filter_filter, List.filter_filter]
      refine List.filter_congr fun x _ => ?_
      by_cases hx : x.2.id ∈ ids' <;> simp [hx]
    rw [hlater, hearlier] at hperm
    have hsum := (hperm.map fun x => x.2.remainingQty.toNat).sum_eq
    rw [List.map_append, List.sum_append] at hsum
    have hleft := h.amount
    have hleft' := h'.amount
    rw [heldBy] at hleft hleft' ⊢
    omega
  case none =>
    intro hzero
    rw [h'.none (by omega), h.none (by omega)]

end Remains

section Ladders

variable {a b : Ladder} {id : OrderId} {side : Side} {price : Price} {qty : Quantity}
  {type : OrderType} {es : List MatchEvent}

/-- The lots are the standing orders. -/
theorem lots_standing (rungs : List Rung) :
    lots rungs = (standing rungs).map fun x => x.2.lot x.1 := by
  rw [lots, standing, List.map_flatMap]
  refine List.flatMap_congr fun lv _ => ?_
  rw [lotsOf, List.map_map]
  rfl

theorem heldBy_lots (ids : List OrderId) (rungs : List Rung) :
    heldBy ids rungs = total ((lots rungs).filter fun y => y.1.id ∈ ids) := by
  rw [heldBy, lots_standing, List.filter_map, total, List.map_map]
  rfl

/-- What an order leaves of its quantity. -/
def unfilled (qty : ℕ) (type : OrderType) (es : List MatchEvent) : ℕ :=
  if type = .limit then qty - tradedQty es else 0

section OneOrder

variable {R R' : List Rung} {left : ℕ}

theorem lot_standing {x : Price × RestingOrder} (hx : x ∈ standing R) : x.2.lot x.1 ∈ lots R := by
  rw [lots_standing]
  exact List.mem_map_of_mem hx

theorem heldBy_absent (hfree : ∀ y ∈ lots R, y.1.id ≠ id) : heldBy [id] R = 0 := by
  rw [heldBy_lots, List.filter_eq_nil_iff.mpr fun y hy => by simpa using hfree y hy]
  rfl

/-- Nothing of an order comes to rest. -/
theorem Remains.nothing (hfree : ∀ y ∈ lots R, y.1.id ≠ id) (hlots : lots R' = lots R)
    (hkept : (standing R').filter (fun x => x.2.id ∉ [id]) = standing R) :
    Remains [id] price 0 R R' := by
  have hother : ∀ x ∈ standing R', x.2.id ∉ [id] := by
    intro x hx hid
    have hmem := lot_standing hx
    rw [hlots] at hmem
    exact hfree _ hmem (List.mem_singleton.mp hid)
  constructor
  case kept => exact hkept
  case atPrice => exact fun x hx hid => absurd hid (hother x hx)
  case amount => rw [heldBy_lots, hlots, ← heldBy_lots, heldBy_absent hfree]
  case none =>
    intro _
    rw [← hkept]
    exact (List.filter_eq_self.mpr fun x hx => decide_eq_true (hother x hx)).symm

/-- An order comes to rest with an amount. -/
theorem Remains.resting (hfree : ∀ y ∈ lots R, y.1.id ≠ id)
    (hperm : (lots R').Perm ((⟨price, id⟩, left) :: lots R)) (hleft : left ≠ 0)
    (hkept : (standing R').filter (fun x => x.2.id ∉ [id]) = standing R) :
    Remains [id] price left R R' := by
  constructor
  case kept => exact hkept
  case atPrice =>
    intro x hx hid
    rcases List.mem_cons.mp (hperm.subset (lot_standing hx)) with heq | hold
    · exact congrArg (fun y => y.1.price) heq
    · exact absurd (List.mem_singleton.mp hid) (hfree _ hold)
  case amount =>
    have hnone := heldBy_absent hfree
    rw [heldBy_lots] at hnone ⊢
    refine ((hperm.filter _).map Prod.snd).sum_eq.trans ?_
    rw [List.filter_cons_of_pos (by simp)]
    show left + total _ = left
    rw [hnone, Nat.add_zero]
  case none => exact fun hzero => absurd hzero hleft

end OneOrder

/-- **ONE ORDER** leaves what it does not trade, if it is a LIMIT order. -/
theorem Executed.remains (h : Executed a id side price qty type es b) (hwf : a.WF)
    (hid : ¬ a.Rests id) :
    Remains [id] price (unfilled qty.toNat type es) (a.rungs side) (b.rungs side) := by
  have hfree : ∀ y ∈ lots (a.rungs side), y.1.id ≠ id :=
    fun y hy heq => hid (rests_lots.mpr ⟨side, y, hy, heq⟩)
  have hkept : (standing (b.rungs side)).filter (fun x => x.2.id ∉ [id])
      = standing (a.rungs side) := by
    refine Eq.trans (List.filter_congr fun x _ => ?_) h.kept
    simp
  have hown := h.own
  rw [unfilled, h.tradedQty_eq hwf, total_fills]
  by_cases hrest : type = .limit ∧ total (a.reachable side price type) < qty.toNat
  · -- its reach is exhausted before it is
    rw [if_pos hrest] at hown
    rw [if_pos hrest.1, Nat.min_eq_right (Nat.le_of_lt hrest.2)]
    refine Remains.resting hfree ?_ (Nat.sub_ne_zero_of_lt hrest.2) hkept
    rw [hown]
    exact restLot_perm ..
  · rw [if_neg hrest] at hown
    have hzero : (if type = .limit then
        qty.toNat - min qty.toNat (total (a.reachable side price type)) else 0) = 0 := by
      by_cases hlimit : type = .limit
      · have hle : ¬ total (a.reachable side price type) < qty.toNat := fun h => hrest ⟨hlimit, h⟩
        rw [if_pos hlimit]
        omega
      · rw [if_neg hlimit]
    rw [hzero]
    exact Remains.nothing hfree hown hkept

/-- **TWO ORDERS AND ONE** that take from the same ladder. -/
theorem Executed.split {a₁ a₂ a₃ : Ladder} {x y z : OrderId} {q₁ q₂ q₃ : Quantity}
    {es₁ es₂ es₃ : List MatchEvent} (hwf : a.WF) (hwf₁ : a₁.WF)
    (hsum : q₃.toNat = q₁.toNat + q₂.toNat) (h₁ : Executed a x side price q₁ type es₁ a₁)
    (h₂ : Executed a₁ y side price q₂ type es₂ a₂) (h₃ : Executed a z side price q₃ type es₃ a₃) :
    (∀ keep : Tag → Bool,
        tradedQty ((es₁ ++ es₂).filter fun e => keep ⟨e.matchPrice, e.makerOrderId⟩)
          = tradedQty (es₃.filter fun e => keep ⟨e.matchPrice, e.makerOrderId⟩))
      ∧ lots (a₂.rungs side.opposite) = lots (a₃.rungs side.opposite)
      ∧ (es₁.length + es₂.length = es₃.length ∨ es₁.length + es₂.length = es₃.length + 1) := by
  -- the second order finds what the first one left
  obtain ⟨hreach, hunreach⟩ := h₁.reach
  have hlt := @fills_lt a₁ side price q₂ type hwf₁
  have hevents := h₂.events
  rw [hreach] at hlt hevents
  refine ⟨fun keep => ?_, ?_, ?_⟩
  · rw [List.filter_append, tradedQty_append, tradedQty_filter h₁.events (fills_lt hwf),
      tradedQty_filter hevents hlt, tradedQty_filter h₃.events (fills_lt hwf), hsum]
    exact total_fills_add keep
  · rw [h₂.other, hreach, hunreach, rest_add, h₃.other, hsum]
  · rw [h₁.length_eq, h₂.length_eq, h₃.length_eq, hreach, hsum]
    exact length_fills_add (reachable_positive hwf)

end Ladders

/-! ## In the book -/

/-- Two books after the same quantity was taken, by orders `a` and `b` with the
    events `es` or by the order `c` with the events `es'`. -/
structure SplitTaker (s₀ s s' : OrderBook) (a b c : OrderId) (side : Side) (price : Price)
    (qty : ℕ) (type : OrderType) (es es' : List MatchEvent) : Prop where
  /-- Every maker gives the same quantity at the same price. -/
  taken  : ∀ maker p,
    tradedQty (es.filter fun e => e.makerOrderId = maker ∧ e.matchPrice = p)
      = tradedQty (es'.filter fun e => e.makerOrderId = maker ∧ e.matchPrice = p)
  other  : (s.levels side.opposite).map Rung.shape = (s'.levels side.opposite).map Rung.shape
  /-- The same amount rests at the price, and nothing else has changed there. -/
  split  : Remains [a, b] price (unfilled qty type es') (s₀.levels side) (s.levels side)
  whole  : Remains [c] price (unfilled qty type es') (s₀.levels side) (s'.levels side)
  volume : s.totalVolumeTraded = s'.totalVolumeTraded
  trades : s.totalTradesCount = s'.totalTradesCount
    ∨ s.totalTradesCount = s'.totalTradesCount + 1

/-- **SPLITTING A TAKER** changes nothing. -/
theorem reached_split {s : OrderBook} (hs : s.Reachable) {now₁ now₂ now₃ : Nat → Timestamp}
    {a b c : OrderId} {side : Side} {price : Price} {q₁ q₂ : Quantity} {type : OrderType}
    (hsum : q₁.toNat + q₂.toNat < 2 ^ 32) (hab : a ≠ b)
    (hfirst : s.Accepted now₁ a side price q₁ type) (hq₂ : 0 < q₂)
    (hfresh : s.orderMap.lookup b = none)
    (hsecond : ∀ f, (OrderBook.step ⟨.addOrder b side price q₂ type, now₂⟩
      (OrderBook.step ⟨.addOrder a side price q₁ type, now₁⟩ s).2).1 ≠ .threw f)
    (hwhole : s.Accepted now₃ c side price (q₁ + q₂) type) :
    ∃ es₁ es₂ es₃, (OrderBook.step ⟨.addOrder a side price q₁ type, now₁⟩ s).1 = .events es₁
      ∧ (OrderBook.step ⟨.addOrder b side price q₂ type, now₂⟩
        (OrderBook.step ⟨.addOrder a side price q₁ type, now₁⟩ s).2).1 = .events es₂
      ∧ (OrderBook.step ⟨.addOrder c side price (q₁ + q₂) type, now₃⟩ s).1 = .events es₃
      ∧ SplitTaker s (OrderBook.step ⟨.addOrder b side price q₂ type, now₂⟩
          (OrderBook.step ⟨.addOrder a side price q₁ type, now₁⟩ s).2).2
        (OrderBook.step ⟨.addOrder c side price (q₁ + q₂) type, now₃⟩ s).2
        a b c side price (q₁.toNat + q₂.toNat) type (es₁ ++ es₂) es₃ := by
  obtain ⟨maxOrders, maxLevels, before, rfl⟩ := hs
  obtain ⟨q, hrep⟩ := Rep.reached maxOrders maxLevels before
  have hwf := Ladder.WF.reached maxOrders maxLevels before
  generalize OrderBook.reached maxOrders maxLevels before = s at *
  generalize Ladder.reached maxOrders maxLevels before = l at *
  have hnat : (q₁ + q₂).toNat = q₁.toNat + q₂.toNat := by
    rw [UInt32.toNat_add]
    exact Nat.mod_eq_of_lt hsum
  have ha := hrep.lookup_none.mp hfirst.fresh
  have hb := hrep.lookup_none.mp hfresh
  have hc := hrep.lookup_none.mp hwhole.fresh
  obtain ⟨es₁, k₁, l₁, hout₁, hrep₁, hwf₁, h₁⟩ := hrep.executed hwf hfirst
  obtain ⟨es₃, k₃, l₃, hout₃, hrep₃, hwf₃, h₃⟩ := hrep.executed hwf hwhole
  -- the id of the second order is still free
  have hb₁ : ¬ l₁.Rests b := fun h => (h₁.rests hwf h).elim (fun heq => hab heq.symm) hb
  obtain ⟨es₂, k₂, l₂, hout₂, hrep₂, hwf₂, h₂⟩ :=
    hrep₁.executed hwf₁ ⟨hq₂, hrep₁.lookup_none.mpr hb₁, hsecond⟩
  obtain ⟨htaken, hother, hlength⟩ := h₁.split hwf hwf₁ hnat h₂ h₃
  have htraded : tradedQty es₁ + tradedQty es₂ = tradedQty es₃ := by
    have hall := htaken fun _ => true
    simp only [List.filter_true] at hall
    rw [← tradedQty_append, hall]
  refine ⟨es₁, es₂, es₃, hout₁, hout₂, hout₃, ?_⟩
  constructor
  case taken =>
    intro maker p
    exact htaken fun tag => decide (tag.id = maker ∧ tag.price = p)
  case other =>
    rw [hrep₂.levels_eq, hrep₃.levels_eq]
    exact shape_of_lots (hwf₂.side _) (hwf₃.side _) hother
  case split =>
    have hboth := (h₁.remains hwf ha).trans (h₂.remains hwf₁ hb₁)
    have hleft : unfilled q₁.toNat type es₁ + unfilled q₂.toNat type es₂
        = unfilled (q₁.toNat + q₂.toNat) type es₃ := by
      have hle₁ := h₁.tradedQty_eq hwf
      have hle₂ := h₂.tradedQty_eq hwf₁
      rw [total_fills] at hle₁ hle₂
      rw [unfilled, unfilled, unfilled]
      split
      · omega
      · rfl
    rw [hrep.levels_eq, hrep₂.levels_eq, ← hleft]
    exact hboth
  case whole =>
    rw [hrep.levels_eq, hrep₃.levels_eq, ← hnat]
    exact h₃.remains hwf hc
  case volume =>
    rw [hrep₂.volume, hrep₃.volume, h₂.volume, h₁.volume, h₃.volume, Nat.add_assoc, htraded]
  case trades =>
    rw [hrep₂.trades, hrep₃.trades, h₂.trades, h₁.trades, h₃.trades, Nat.add_assoc]
    rcases hlength with hsame | hmore
    · left
      rw [hsame]
    · right
      rw [hmore, ← Nat.add_assoc, UInt64.ofNat_add]
      rfl

/-- The first order stops inside a maker, the second one goes on to the next level
    and rests. -/
theorem reached_split_maker : ∃ es es', SplitTaker
    (OrderBook.reached defaultMaxOrders defaultMaxLevels
      [⟨.addOrder 1 .sell 100 4 .limit, fun _ => 0⟩, ⟨.addOrder 2 .sell 101 2 .limit, fun _ => 0⟩])
    (OrderBook.step ⟨.addOrder 11 .buy 101 5 .limit, fun _ => 0⟩
      (OrderBook.step ⟨.addOrder 10 .buy 101 3 .limit, fun _ => 0⟩
        (OrderBook.reached defaultMaxOrders defaultMaxLevels
          [⟨.addOrder 1 .sell 100 4 .limit, fun _ => 0⟩,
            ⟨.addOrder 2 .sell 101 2 .limit, fun _ => 0⟩])).2).2
    (OrderBook.step ⟨.addOrder 12 .buy 101 (3 + 5) .limit, fun _ => 0⟩
      (OrderBook.reached defaultMaxOrders defaultMaxLevels
        [⟨.addOrder 1 .sell 100 4 .limit, fun _ => 0⟩,
          ⟨.addOrder 2 .sell 101 2 .limit, fun _ => 0⟩])).2
    10 11 12 .buy 101 (UInt32.toNat 3 + UInt32.toNat 5) .limit es es' := by
  have hfirst := @OrderBook.Accepted.of_events
    (OrderBook.reached defaultMaxOrders defaultMaxLevels
      [⟨.addOrder 1 .sell 100 4 .limit, fun _ => 0⟩, ⟨.addOrder 2 .sell 101 2 .limit, fun _ => 0⟩])
    (fun _ => 0) 10 .buy 101 3 .limit [⟨1, 10, 100, 3, 0⟩]
    (by decide) (by decide +kernel) (by decide +kernel)
  have hsecond := @OrderBook.Accepted.of_events
    (OrderBook.step ⟨.addOrder 10 .buy 101 3 .limit, fun _ => 0⟩
      (OrderBook.reached defaultMaxOrders defaultMaxLevels
        [⟨.addOrder 1 .sell 100 4 .limit, fun _ => 0⟩,
          ⟨.addOrder 2 .sell 101 2 .limit, fun _ => 0⟩])).2
    (fun _ => 0) 11 .buy 101 5 .limit [⟨1, 11, 100, 1, 0⟩, ⟨2, 11, 101, 2, 0⟩]
    (by decide) (by decide +kernel) (by decide +kernel)
  have hwhole := @OrderBook.Accepted.of_events
    (OrderBook.reached defaultMaxOrders defaultMaxLevels
      [⟨.addOrder 1 .sell 100 4 .limit, fun _ => 0⟩, ⟨.addOrder 2 .sell 101 2 .limit, fun _ => 0⟩])
    (fun _ => 0) 12 .buy 101 (3 + 5) .limit [⟨1, 12, 100, 4, 0⟩, ⟨2, 12, 101, 2, 0⟩]
    (by decide) (by decide +kernel) (by decide +kernel)
  obtain ⟨es₁, es₂, es₃, -, -, -, h⟩ := reached_split ⟨_, _, _, rfl⟩ (by decide) (by decide) hfirst
    (by decide) (by decide +kernel) hsecond.returns hwhole
  exact ⟨es₁ ++ es₂, es₃, h⟩

end Lob
