import AsyncNetLob.LobBookInvariantProofs
import AsyncNetLob.LobRelabellingProofs

/-! # Buying and selling are mirror images

    `MIRROR` exchanges the sides and reverses the prices.  It is a relabelling,
    so the mirrored calls give the mirrored events and leave the mirrored book,
    whatever the clocks of the two runs show. -/

namespace Lob

open StateExcept SortedMap LinkedSegment MachineRun

/-- 2^64 - 1 - p. -/
def mirrorPrice (p : Price) : Price := 18446744073709551615 - p

theorem mirrorPrice_toNat (p : Price) : (mirrorPrice p).toNat = 2 ^ 64 - 1 - p.toNat := by
  rw [mirrorPrice, UInt64.toNat_sub_of_le]
  · rfl
  · rw [UInt64.le_iff_toNat_le]
    exact Nat.le_of_lt_succ p.toNat_lt

/-- Mirroring reverses the order of prices. -/
theorem mirrorPrice_lt {p p' : Price} : mirrorPrice p < mirrorPrice p' ↔ p' < p := by
  have hp := p.toNat_lt
  have hp' := p'.toNat_lt
  rw [UInt64.lt_iff_toNat_lt, UInt64.lt_iff_toNat_lt, mirrorPrice_toNat, mirrorPrice_toNat]
  omega

theorem mirrorPrice_sub (p p' : Price) : mirrorPrice p - mirrorPrice p' = p' - p := by
  rw [mirrorPrice, mirrorPrice]
  grind

/-- Buy for sell, 2^64 - 1 - p for p. -/
def mirror : Relabelling where
  side := Side.opposite
  price := mirrorPrice
  involutive := Side.opposite_opposite
  opposite := fun _ => rfl
  comparator := fun s p p' => by
    cases s with
    | buy => exact mirrorPrice_lt
    | sell => exact mirrorPrice_lt

/-- The cached sizes of the queues of a side. -/
def OrderBook.orderCounts (s : OrderBook) (side : Side) : List Nat :=
  (s.levelMap side).entries.map fun e => ((s.level? e.2).map PriceLevel.orderCount).getD 0

section Views

variable {s s' : OrderBook} {q q' : LevelPtr → List OrderPtr} {a : Ladder}

theorem Rep.orderCounts_eq (h : Rep s q a) (side : Side) :
    s.orderCounts side = (a.rungs side).map (fun lv => lv.orders.length) := by
  rw [← h.view, List.map_map]
  refine List.map_congr_left fun e he => ?_
  have hr := h.core.represents (k := e.1) he
  obtain ⟨lv, hlv, -, -, hcount⟩ := hr.header
  show ((s.level? e.2).map PriceLevel.orderCount).getD 0 = (s.viewQueue (q e.2)).length
  rw [hlv, viewQueue_length hr.live]
  exact hcount

theorem Rep.levelsCount_eq (h : Rep s q a) (side : Side) :
    s.levelsCount side = (a.rungs side).length := by
  rw [← h.view, List.length_map]
  rfl

/-- The spread, from what the book shows. -/
theorem Rep.getSpread_eq (h : Rep s q a) (hwf : a.WF) :
    s.getSpread = match a.rungs .buy, a.rungs .sell with
      | bid :: _, ask :: _ => some (ask.price - bid.price)
      | _, _ => none := by
  have hbids : (s.levelMap .buy).entries = s.bids.entries := rfl
  have hasks : (s.levelMap .sell).entries = s.asks.entries := rfl
  rw [getSpread_of_uncrossed fun bid hb ask ha => h.uncrossed hwf hb ha, ← h.view, ← h.view,
    hbids, hasks]
  cases s.bids.entries <;> cases s.asks.entries <;> rfl

end Views

/-- The book `s'` is the mirror image of the book `s`. -/
structure Mirrored (s s' : OrderBook) : Prop where
  /-- Prices, cached volumes and queues, level by level. -/
  levels       : ∀ side, s'.levels side.opposite = (s.levels side).map mirror.rung
  orderCounts  : ∀ side, s'.orderCounts side.opposite = s.orderCounts side
  levelsCount  : ∀ side, s'.levelsCount side.opposite = s.levelsCount side
  known        : ∀ id, s'.orderMap.lookup id = none ↔ s.orderMap.lookup id = none
  activeOrders : s'.activeOrdersCount = s.activeOrdersCount
  trades       : s'.totalTradesCount = s.totalTradesCount
  volume       : s'.totalVolumeTraded = s.totalVolumeTraded
  orderSlots   : s'.orderPool.available = s.orderPool.available
  levelSlots   : s'.levelPool.available = s.levelPool.available
  bestBid      : ∃ best, OrderBook.getBestBid s = .ok best s
    ∧ OrderBook.getBestAsk s' = .ok (best.map fun b => (mirrorPrice b.1, b.2)) s'
  bestAsk      : ∃ best, OrderBook.getBestAsk s = .ok best s
    ∧ OrderBook.getBestBid s' = .ok (best.map fun b => (mirrorPrice b.1, b.2)) s'
  spread       : s'.getSpread = s.getSpread

/-- Books that represent a ladder and its mirror image are mirror images. -/
theorem Rep.mirrored {s s' : OrderBook} {q q' : LevelPtr → List OrderPtr} {a : Ladder}
    (h : Rep s q a) (h' : Rep s' q' (mirror.ladder a)) (hwf : a.WF)
    (hwf' : (mirror.ladder a).WF) : Mirrored s s' := by
  have hrungs : ∀ side : Side, (mirror.ladder a).rungs side.opposite
      = (a.rungs side).map mirror.rung := mirror.ladder_rungs a
  have hbest : ∀ side : Side, ∃ best, OrderBook.bestOf side s = .ok best s
      ∧ OrderBook.bestOf side.opposite s'
        = .ok (best.map fun b => (mirrorPrice b.1, b.2)) s' := by
    intro side
    refine ⟨_, h.bestOf side, ?_⟩
    rw [h'.bestOf, hrungs, List.head?_map]
    cases (a.rungs side).head? with
    | none => rfl
    | some lv => rfl
  have horders : s.orderPool.available + a.orderCount = a.orderSlots := h.orderSlots
  have horders' : s'.orderPool.available + (mirror.ladder a).orderCount = a.orderSlots :=
    h'.orderSlots
  have hlevels : s.levelPool.available + a.levelCount = a.levelSlots := h.levelSlots
  have hlevels' : s'.levelPool.available + (mirror.ladder a).levelCount = a.levelSlots :=
    h'.levelSlots
  rw [mirror.orderCount_ladder] at horders'
  rw [mirror.levelCount_ladder] at hlevels'
  constructor
  case levels =>
    intro side
    rw [h'.levels_eq, h.levels_eq, hrungs]
  case orderCounts =>
    intro side
    rw [h'.orderCounts_eq, h.orderCounts_eq, hrungs, mirror.lengths_rungs]
  case levelsCount =>
    intro side
    rw [h'.levelsCount_eq, h.levelsCount_eq, hrungs, List.length_map]
  case known =>
    intro id
    rw [h'.lookup_none, h.lookup_none, mirror.rests_ladder]
  case activeOrders => rw [h'.known, h.known, mirror.orderCount_ladder]
  case trades => exact h'.trades.trans h.trades.symm
  case volume => exact h'.volume.trans h.volume.symm
  case orderSlots => omega
  case levelSlots => omega
  case bestBid => exact hbest .buy
  case bestAsk => exact hbest .sell
  case spread =>
    have hbuy : (mirror.ladder a).rungs .buy = (a.rungs .sell).map mirror.rung := hrungs .sell
    have hsell : (mirror.ladder a).rungs .sell = (a.rungs .buy).map mirror.rung := hrungs .buy
    rw [h'.getSpread_eq hwf', h.getSpread_eq hwf, hbuy, hsell]
    cases a.rungs .buy with
    | nil => cases a.rungs .sell <;> rfl
    | cons bid bids =>
        cases a.rungs .sell with
        | nil => rfl
        | cons ask asks => exact congrArg some (mirrorPrice_sub bid.price ask.price)

/-- **MIRROR IMAGES**: where one run makes the mirrored calls of the other, it
    gets the mirrored outcomes (events without time stamps, flags, exceptions),
    and after each call its book is the mirror image. -/
theorem reached_mirrored (maxOrders maxLevels : Nat) (calls calls' : List Call)
    (h : calls'.map Call.op = calls.map (fun c => mirror.op c.op)) :
    (OrderBook.run calls' (OrderBook.new maxOrders maxLevels)).1.map Outcome.untimed
        = (OrderBook.run calls (OrderBook.new maxOrders maxLevels)).1.map mirror.outcome
      ∧ ∀ n, Mirrored (OrderBook.reached maxOrders maxLevels (calls.take n))
          (OrderBook.reached maxOrders maxLevels (calls'.take n)) := by
  -- at time zero the calls themselves are mirrored, and so is the ladder's run
  have hrun : ∀ calls calls' : List Call,
      calls'.map Call.op = calls.map (fun c => mirror.op c.op) →
      (Ladder.run calls' (Ladder.empty maxOrders maxLevels)).1.map Outcome.untimed
          = (Ladder.run calls (Ladder.empty maxOrders maxLevels)).1.map mirror.outcome
        ∧ Ladder.reached maxOrders maxLevels calls'
          = mirror.ladder (Ladder.reached maxOrders maxLevels calls) := by
    intro calls calls' h
    have hcalls : calls'.map Call.untimed = calls.map mirror.call := by
      have hops : ∀ cs : List Call, cs.map Call.untimed
          = (cs.map Call.op).map (fun op => ⟨op, fun _ => 0⟩) := by
        intro cs
        rw [List.map_map]
        refine List.map_congr_left fun c _ => ?_
        obtain ⟨op, now⟩ := c
        cases op <;> rfl
      rw [hops, h, List.map_map]
      rfl
    have hzero := Ladder.run_untimed calls' (Ladder.empty maxOrders maxLevels)
    have hmirror := mirror.run calls (Ladder.empty maxOrders maxLevels)
    rw [mirror.ladder_empty, ← hcalls, hzero] at hmirror
    exact ⟨congrArg Prod.fst hmirror, congrArg Prod.snd hmirror⟩
  constructor
  · rw [(new_refines maxOrders maxLevels calls').1, (new_refines maxOrders maxLevels calls).1]
    exact (hrun calls calls' h).1
  · intro n
    have hn : (calls'.take n).map Call.op = (calls.take n).map (fun c => mirror.op c.op) := by
      rw [List.map_take, List.map_take, h]
    obtain ⟨q, hrep⟩ := Rep.reached maxOrders maxLevels (calls.take n)
    obtain ⟨q', hrep'⟩ := Rep.reached maxOrders maxLevels (calls'.take n)
    have hwf' := Ladder.WF.reached maxOrders maxLevels (calls'.take n)
    rw [(hrun _ _ hn).2] at hrep' hwf'
    exact hrep.mirrored hrep' (Ladder.WF.reached maxOrders maxLevels _) hwf'

/-- A buyer takes from two asks, a seller from the mirrored bids. -/
theorem reached_mirrored_trade : Mirrored
    (OrderBook.reached defaultMaxOrders defaultMaxLevels
      [⟨.addOrder 1 .sell 100 5 .limit, fun _ => 1⟩,
        ⟨.addOrder 2 .sell 101 5 .limit, fun _ => 2⟩,
        ⟨.addOrder 3 .buy 101 7 .limit, fun k => UInt64.ofNat k⟩])
    (OrderBook.reached defaultMaxOrders defaultMaxLevels
      [⟨.addOrder 1 .buy (mirrorPrice 100) 5 .limit, fun _ => 0⟩,
        ⟨.addOrder 2 .buy (mirrorPrice 101) 5 .limit, fun _ => 0⟩,
        ⟨.addOrder 3 .sell (mirrorPrice 101) 7 .limit, fun _ => 0⟩]) :=
  (reached_mirrored defaultMaxOrders defaultMaxLevels
    [⟨.addOrder 1 .sell 100 5 .limit, fun _ => 1⟩, ⟨.addOrder 2 .sell 101 5 .limit, fun _ => 2⟩,
      ⟨.addOrder 3 .buy 101 7 .limit, fun k => UInt64.ofNat k⟩]
    [⟨.addOrder 1 .buy (mirrorPrice 100) 5 .limit, fun _ => 0⟩,
      ⟨.addOrder 2 .buy (mirrorPrice 101) 5 .limit, fun _ => 0⟩,
      ⟨.addOrder 3 .sell (mirrorPrice 101) 7 .limit, fun _ => 0⟩] rfl).2 3

end Lob
