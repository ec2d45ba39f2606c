import AsyncNetLob.LobRefinementProofs

/-! # Every reachable book is well-formed

    The refinement gives each reachable book a ladder, and the ladder is
    well-formed; read back into memory, the two together are the
    representation invariant of `OrderBook` (`RepInv`) and the fact that
    the book is never crossed or locked. -/

namespace Lob

open StateExcept SortedMap LinkedSegment MachineRun

/-- The book a sequence of calls leaves, from the empty one. -/
def OrderBook.reached (maxOrders maxLevels : Nat) (calls : List Call) : OrderBook :=
  (OrderBook.run calls (OrderBook.new maxOrders maxLevels)).2

/-- The ladder the same calls leave. -/
def Ladder.reached (maxOrders maxLevels : Nat) (calls : List Call) : Ladder :=
  (Ladder.run calls (Ladder.empty maxOrders maxLevels)).2

/-- Reachable ladders are well-formed. -/
theorem Ladder.WF.reached (maxOrders maxLevels : Nat) (calls : List Call) :
    (Ladder.reached maxOrders maxLevels calls).WF :=
  run_invariant (fun c _ h => h.step c) calls (Ladder.WF.empty maxOrders maxLevels)

/-- Reachable books represent reachable ladders. -/
theorem Rep.reached (maxOrders maxLevels : Nat) (calls : List Call) :
    ∃ q, Rep (OrderBook.reached maxOrders maxLevels calls) q
      (Ladder.reached maxOrders maxLevels calls) :=
  (new_refines maxOrders maxLevels calls).2

/-! ## What a book shows -/

/-- The orders of a level, collected from its head along `next`. -/
def OrderBook.chain (s : OrderBook) (level : LevelPtr) : List OrderPtr :=
  walk s.next s.orderPool.capacity ((s.level? level).bind PriceLevel.head)

/-- The levels of a side, best price first, each with its cached volume and its
    queue. -/
def OrderBook.levels (s : OrderBook) (side : Side) : List Rung :=
  (s.levelMap side).entries.map (s.viewLevel s.chain)

/-- Walking a represented level collects its queue. -/
theorem Core.chain_eq {s : OrderBook} {q : LevelPtr → List OrderPtr} (hc : Core s q)
    {side : Side} {k : Price} {l : LevelPtr} (he : (k, l) ∈ (s.levelMap side).entries) :
    s.chain l = q l := by
  have hr := hc.represents he
  obtain ⟨lv, hlv, hhead, -⟩ := hr.header
  rw [OrderBook.chain, hlv, Option.bind_some, hhead]
  exact walk_eq hr.linked _ (Nat.le_of_lt_succ (hc.queue_fuel he))

/-- A represented book shows its ladder. -/
theorem Rep.levels_eq {s : OrderBook} {q : LevelPtr → List OrderPtr} {a : Ladder}
    (h : Rep s q a) (side : Side) : s.levels side = a.rungs side := by
  rw [← h.view, OrderBook.levels]
  refine List.map_congr_left fun e he => ?_
  rw [Heap.viewLevel, Heap.viewLevel, h.core.chain_eq (k := e.1) he]

/-- An order that `orderMap_` knows. -/
def OrderBook.Resting (s : OrderBook) (x : Order) : Prop :=
  ∃ o, s.orderMap.lookup x.id = some o ∧ s.order? o = some x

/-- A known order is queued on its side at its price. -/
theorem Core.resting_level {s : OrderBook} {q : LevelPtr → List OrderPtr} {x : Order}
    (hc : Core s q) (hx : s.Resting x) :
    ∃ l o, (x.price, l) ∈ (s.levelMap x.side).entries ∧ o ∈ q l ∧ s.order? o = some x := by
  obtain ⟨o, hid, ho⟩ := hx
  obtain ⟨side, k, l, y, he, hq, hy, -⟩ := hc.mapped hid
  rw [ho] at hy
  cases hy
  obtain ⟨hrests, -⟩ := hc.resting he hq ho
  obtain ⟨rfl, rfl⟩ := And.intro hrests.side hrests.price
  exact ⟨l, o, he, hq, ho⟩

/-! ## The representation invariant -/

/-- The price maps, the id map, the level headers and the links agree:
    `chain` gives, for each level in a map, its orders from head to tail. -/
structure RepInv (s : OrderBook) (chain : LevelPtr → List OrderPtr) : Prop where
  /-- The level has its key as price, and its chain is non-empty, without
      repetition, linked both ways and ended by null on both sides. -/
  level : ∀ {side key level}, (key, level) ∈ (s.levelMap side).entries →
    ∃ lv, s.level? level = some lv ∧ lv.price = key ∧ chain level ≠ []
      ∧ (chain level).Nodup ∧ lv.head = (chain level).head?
      ∧ lv.tail = (chain level).getLast? ∧ Seg s.next s.prev none (chain level) none
      ∧ lv.orderCount = (chain level).length
  /-- An order in the chain points back, and is what the map says. -/
  order : ∀ {side key level o}, (key, level) ∈ (s.levelMap side).entries →
    o ∈ chain level → ∃ x, s.order? o = some x ∧ x.priceLevelPtr = some level
      ∧ x.price = key ∧ x.side = side ∧ x.type = .limit ∧ 1 ≤ x.remainingQty
      ∧ x.remainingQty ≤ x.quantity ∧ s.orderMap.lookup x.id = some o
  /-- A known order lies in exactly one chain of exactly one level. -/
  known : ∀ {id o}, s.orderMap.lookup id = some o →
    (∃ x, s.order? o = some x ∧ x.id = id)
      ∧ ∃! e : Side × Price × LevelPtr, e.2 ∈ (s.levelMap e.1).entries ∧ o ∈ chain e.2.2
  /-- Different entries use different level objects. -/
  distinct : ∀ {side side' key key' level}, (key, level) ∈ (s.levelMap side).entries →
    (key', level) ∈ (s.levelMap side').entries → side = side' ∧ key = key'

/-- A represented well-formed ladder gives the representation invariant. -/
theorem Rep.repInv {s : OrderBook} {q : LevelPtr → List OrderPtr} {a : Ladder}
    (h : Rep s q a) (hwf : a.WF) : RepInv s q where
  level := fun {side key level} he => by
    have hr := h.core.represents he
    obtain ⟨lv, hlv, hhead, htail, hcount⟩ := hr.header
    refine ⟨lv, hlv, h.core.key he hlv, ?_, hr.nodup, hhead, htail, hr.linked, hcount⟩
    -- an empty chain would be an empty level of the ladder
    intro hnil
    have hmem : s.viewLevel q (key, level) ∈ a.rungs side := by
      rw [← h.view]
      exact List.mem_map_of_mem he
    refine (hwf.side side).nonempty _ hmem ?_
    show s.viewQueue (q level) = []
    rw [hnil]
    rfl
  order := fun {side key level o} he ho => by
    obtain ⟨x, hx⟩ := (h.core.represents he).live o ho
    obtain ⟨hrests, hid⟩ := h.core.resting he ho hx
    have hmem : s.viewLevel q (key, level) ∈ a.rungs side := by
      rw [← h.view]
      exact List.mem_map_of_mem he
    obtain ⟨hpos, hle⟩ := (hwf.side side).live _ hmem x.view (by
      refine List.mem_filterMap.mpr ⟨o, ho, ?_⟩
      rw [hx]
      rfl)
    refine ⟨x, hx, hrests.level, hrests.price, hrests.side, hrests.limit, ?_, hle, hid⟩
    have hpos' : 0 < x.remainingQty.toNat := quantity_pos.mp hpos
    rw [UInt32.le_iff_toNat_le]
    exact hpos'
  known := fun {id o} hid => by
    obtain ⟨side, k, l, x, he, ho, hx, hxid⟩ := h.core.mapped hid
    refine ⟨⟨x, hx, hxid⟩, (side, k, l), ⟨he, ho⟩, ?_⟩
    rintro ⟨side', k', l'⟩ ⟨he', ho'⟩
    obtain rfl := h.core.queue_unique he' he ho' ho
    obtain ⟨rfl, rfl⟩ := h.core.apart he' he
    rfl
  distinct := h.core.apart

/-- **REPRESENTATION INVARIANT**: whatever calls were made, also some that
    threw, the structures of the book agree. -/
theorem reached_repInv (maxOrders maxLevels : Nat) (calls : List Call) :
    ∃ chain, RepInv (OrderBook.reached maxOrders maxLevels calls) chain := by
  obtain ⟨q, hrep⟩ := Rep.reached maxOrders maxLevels calls
  exact ⟨q, hrep.repInv (Ladder.WF.reached maxOrders maxLevels calls)⟩

/-! ## Top of the book -/

section Top

variable {s : OrderBook} {q : LevelPtr → List OrderPtr} {a : Ladder}

/-- The best level of a side is its first one. -/
theorem bestOf_run (hc : Core s q) (side : Side) : OrderBook.bestOf side s
    = .ok ((s.levelMap side).entries.head?.map fun e => (e.1, s.volumeOf e.2)) s := by
  rw [OrderBook.bestOf, bind_ok (get_ok s)]
  cases hent : (s.levelMap side).entries with
  | nil => rfl
  | cons e rest =>
      obtain ⟨k, l⟩ := e
      have he : (k, l) ∈ (s.levelMap side).entries := by
        rw [hent]
        exact List.mem_cons_self
      obtain ⟨lv, hlv, -⟩ := hc.live_level he
      dsimp only
      rw [bind_ok (liftM_ok (readLevel_ok hlv))]
      have hvol : s.volumeOf l = lv.totalVolume := by
        rw [Heap.volumeOf, hlv]
        rfl
      show EStateM.Result.ok (some (k, lv.totalVolume)) s = _
      rw [List.head?_cons, Option.map_some, hvol]

/-- The same, as the ladder says it. -/
theorem Rep.bestOf (h : Rep s q a) (side : Side) : OrderBook.bestOf side s
    = .ok ((a.rungs side).head?.map fun lv => (lv.price, lv.totalVolume)) s := by
  rw [bestOf_run h.core, ← h.view, List.head?_map, Option.map_map]
  rfl

/-- The prices of a book that represents an uncrossed ladder. -/
theorem Rep.uncrossed (h : Rep s q a) (hwf : a.WF) {bid ask : Price × LevelPtr}
    (hb : bid ∈ s.bids.entries) (ha : ask ∈ s.asks.entries) : bid.1 < ask.1 := by
  have hb' : s.viewLevel q bid ∈ a.rungs .buy := by
    rw [← h.view]
    exact List.mem_map_of_mem hb
  have ha' : s.viewLevel q ask ∈ a.rungs .sell := by
    rw [← h.view]
    exact List.mem_map_of_mem ha
  exact hwf.uncrossed .buy _ hb' _ ha'

/-- The spread of an uncrossed book. -/
theorem getSpread_of_uncrossed
    (h : ∀ bid ∈ s.bids.entries, ∀ ask ∈ s.asks.entries, bid.1 < ask.1) :
    OrderBook.getSpread s = match s.bids.entries, s.asks.entries with
      | bid :: _, ask :: _ => some (ask.1 - bid.1)
      | _, _ => none := by
  rw [OrderBook.getSpread]
  cases hb : s.bids.entries with
  | nil => rfl
  | cons bid bids =>
      cases ha : s.asks.entries with
      | nil => rfl
      | cons ask asks =>
          have hlt := h bid (by rw [hb]; exact List.mem_cons_self) ask
            (by rw [ha]; exact List.mem_cons_self)
          dsimp only
          rw [if_pos (UInt64.le_of_lt hlt)]

end Top

/-- No bid reaches an ask, and `getSpread` says so. -/
structure Uncrossed (s : OrderBook) : Prop where
  orders : ∀ x y, s.Resting x → s.Resting y → x.side = .buy → y.side = .sell →
    x.price < y.price
  levels : ∀ bid ∈ s.bids.entries, ∀ ask ∈ s.asks.entries, bid.1 < ask.1
  /-- `getSpread` returns true exactly when both sides have a level. -/
  spread_iff : s.getSpread.isSome ↔ s.bids.entries ≠ [] ∧ s.asks.entries ≠ []
  /-- Then it yields best ask minus best bid, which is positive. -/
  spread : ∀ spread, s.getSpread = some spread → ∃ bid ask bidQty askQty,
    OrderBook.getBestBid s = .ok (some (bid, bidQty)) s
      ∧ OrderBook.getBestAsk s = .ok (some (ask, askQty)) s
      ∧ (∀ e ∈ s.bids.entries, e.1 ≤ bid) ∧ (∀ e ∈ s.asks.entries, ask ≤ e.1)
      ∧ 0 < spread ∧ spread.toNat + bid.toNat = ask.toNat

/-- **NEVER CROSSED OR LOCKED**: every bid is below every ask, whatever calls
    were made. -/
theorem reached_uncrossed (maxOrders maxLevels : Nat) (calls : List Call) :
    Uncrossed (OrderBook.reached maxOrders maxLevels calls) := by
  obtain ⟨q, hrep⟩ := Rep.reached maxOrders maxLevels calls
  have hwf := Ladder.WF.reached maxOrders maxLevels calls
  generalize OrderBook.reached maxOrders maxLevels calls = s at *
  have hcross : ∀ bid ∈ s.bids.entries, ∀ ask ∈ s.asks.entries, bid.1 < ask.1 :=
    fun bid hb ask ha => hrep.uncrossed hwf hb ha
  refine ⟨?_, hcross, ?_, ?_⟩
  · intro x y hx hy hxs hys
    obtain ⟨l, -, he, -⟩ := hrep.core.resting_level hx
    obtain ⟨l', -, he', -⟩ := hrep.core.resting_level hy
    rw [hxs] at he
    rw [hys] at he'
    exact hcross _ he _ he'
  · rw [getSpread_of_uncrossed hcross]
    cases s.bids.entries <;> cases s.asks.entries <;> simp
  · intro spread hspread
    rw [getSpread_of_uncrossed hcross] at hspread
    -- the best level of each side is the first of its map
    have hbid := bestOf_run hrep.core .buy
    have hask := bestOf_run hrep.core .sell
    have hbids := s.bids.sorted
    have hasks := s.asks.sorted
    cases hb : s.bids.entries with
    | nil =>
        rw [hb] at hspread
        cases hspread
    | cons bid bids =>
        cases ha : s.asks.entries with
        | nil =>
            rw [hb, ha] at hspread
            cases hspread
        | cons ask asks =>
            have hlt := hcross bid (by simp [hb]) ask (by simp [ha])
            rw [hb, ha] at hspread
            obtain rfl := Option.some.inj hspread
            rw [show (s.levelMap .buy).entries = _ from hb] at hbid
            rw [show (s.levelMap .sell).entries = _ from ha] at hask
            rw [hb, List.pairwise_cons] at hbids
            rw [ha, List.pairwise_cons] at hasks
            have hnat := UInt64.lt_iff_toNat_lt.mp hlt
            have hsub := UInt64.toNat_sub_of_le _ _ (UInt64.le_of_lt hlt)
            refine ⟨bid.1, ask.1, _, _, hbid, hask, ?_, ?_, ?_, ?_⟩
            · intro e he
              rcases List.mem_cons.mp he with rfl | he
              · exact UInt64.le_refl _
              · exact UInt64.le_of_lt (hbids.1 e he)
            · intro e he
              rcases List.mem_cons.mp he with rfl | he
              · exact UInt64.le_refl _
              · exact UInt64.le_of_lt (hasks.1 e he)
            · rw [UInt64.lt_iff_toNat_lt, hsub]
              show 0 < _
              omega
            · rw [hsub]
              omega

end Lob
