import AsyncNetLob.LobBookInvariantProofs
import AsyncNetLob.LobLotsProofs

/-! # A cancelled order that never traded leaves no trace

    Two runs make the same calls, and one of them has an extra order `x`.
    `Without x a b`: the ladder `b` is the ladder `a` with the lot of `x` filtered
    out.  Every call keeps this, as long as `a` does not fill `x`: lots that are
    not filled may as well not be there (`fills_filter`).

    A level may exist only because of `x`.  Then `a` joins it where `b` opens a
    new one, and the level slot `b` needs is the one `x` takes in `a`. -/

namespace Lob

open MachineRun GreedyFill

/-- The ladder `b` is the ladder `a` without the order `x`. -/
structure Without (x : OrderId) (a b : Ladder) : Prop where
  rungs      : ∀ side, lots (b.rungs side) = (lots (a.rungs side)).filter fun y => y.1.id ≠ x
  orderSlots : b.orderSlots = a.orderSlots
  levelSlots : b.levelSlots = a.levelSlots
  trades     : b.trades = a.trades
  volume     : b.volume = a.volume

/-- The id a call is about. -/
def Op.id : Op → OrderId
  | .addOrder id _ _ _ _ => id
  | .cancelOrder id => id

/-- No exception, and no event that names `x`. -/
def Outcome.Quiet (x : OrderId) : Outcome → Prop
  | .events es => ∀ e ∈ es, e.makerOrderId ≠ x ∧ e.takerOrderId ≠ x
  | .cancelled _ => True
  | .threw _ => False

instance (x : OrderId) : ∀ o : Outcome, Decidable (o.Quiet x)
  | .events es => inferInstanceAs (Decidable (∀ e ∈ es, _ ∧ _))
  | .cancelled _ => inferInstanceAs (Decidable True)
  | .threw _ => inferInstanceAs (Decidable False)

section Steps

variable {x id : OrderId} {a b : Ladder} {side : Side} {price : Price} {qty : Quantity}
  {type : OrderType}

namespace Without

/-- The other orders rest in both. -/
theorem rests_iff (h : Without x a b) (hid : id ≠ x) : b.Rests id ↔ a.Rests id := by
  rw [rests_lots, rests_lots]
  constructor
  · rintro ⟨side, y, hy, rfl⟩
    rw [h.rungs] at hy
    exact ⟨side, y, List.mem_of_mem_filter hy, rfl⟩
  · rintro ⟨side, y, hy, rfl⟩
    refine ⟨side, y, ?_, rfl⟩
    rw [h.rungs]
    exact List.mem_filter.mpr ⟨hy, by simpa using hid⟩

theorem orderCount_le (h : Without x a b) : b.orderCount ≤ a.orderCount := by
  have hle : ∀ side, ordersIn (b.rungs side) ≤ ordersIn (a.rungs side) := by
    intro side
    rw [ordersIn_lots, ordersIn_lots, h.rungs]
    exact List.length_filter_le _ _
  exact Nat.add_le_add (hle .buy) (hle .sell)

/-- A price with a level in `b` has one in `a`. -/
theorem prices_subset (h : Without x a b) (hwf : a.WF) (hwf' : b.WF) (side : Side) :
    (b.rungs side).map Rung.price ⊆ (a.rungs side).map Rung.price := by
  intro p hp
  obtain ⟨y, hy, rfl⟩ := (hwf'.side side).prices_lots.mp hp
  rw [h.rungs] at hy
  exact (hwf.side side).prices_lots.mpr ⟨y, List.mem_of_mem_filter hy, rfl⟩

theorem levels_le (h : Without x a b) (hwf : a.WF) (hwf' : b.WF) (side : Side) :
    (b.rungs side).length ≤ (a.rungs side).length := by
  have hle := (hwf'.side side).prices_nodup.length_le_of_subset (h.prices_subset hwf hwf' side)
  rwa [List.length_map, List.length_map] at hle

/-- **ROOM FOR A LEVEL**: where `a` can rest an order, `b` can. -/
theorem room (h : Without x a b) (hwf : a.WF) (hwf' : b.WF)
    (hroom : a.HasLevel side price ∨ a.levelCount < a.levelSlots) :
    b.HasLevel side price ∨ b.levelCount < b.levelSlots := by
  have hle := h.levels_le hwf hwf' side
  have hle' := h.levels_le hwf hwf' side.opposite
  have hslots := hwf.levels_le
  rw [Ladder.levelCount_eq a side] at hroom hslots
  rw [Ladder.levelCount_eq b side, h.levelSlots]
  by_cases hb : b.HasLevel side price
  · exact Or.inl hb
  · right
    rcases hroom with ⟨lv, hlv, rfl⟩ | hlt
    · -- the level is there only because of `x`
      have hnodup : (lv.price :: (b.rungs side).map Rung.price).Nodup := by
        refine List.nodup_cons.mpr ⟨fun hmem => ?_, (hwf'.side side).prices_nodup⟩
        obtain ⟨lv', hlv', hprice⟩ := List.mem_map.mp hmem
        exact hb ⟨lv', hlv', hprice⟩
      have hsub : lv.price :: (b.rungs side).map Rung.price ⊆ (a.rungs side).map Rung.price :=
        List.cons_subset.mpr ⟨List.mem_map_of_mem hlv, h.prices_subset hwf hwf' side⟩
      have hlt := hnodup.length_le_of_subset hsub
      rw [List.length_cons, List.length_map, List.length_map] at hlt
      omega
    · omega

/-- Matching that does not fill `x`. -/
theorem matched (h : Without x a b) (hwf : a.WF) (hwf' : b.WF) (now now' : Nat → Timestamp)
    (hquiet : ∀ e ∈ (a.swept now id side price qty type).events, e.makerOrderId ≠ x) :
    (b.swept now' id side price qty type).events.map Relabelling.identity.event
        = (a.swept now id side price qty type).events.map Relabelling.identity.event
      ∧ (b.swept now' id side price qty type).left = (a.swept now id side price qty type).left
      ∧ Without x (a.afterSweep side (a.swept now id side price qty type))
        (b.afterSweep side (b.swept now' id side price qty type)) := by
  have hswept := hwf.swept_lots now id side price qty type
  have hswept' := hwf'.swept_lots now' id side price qty type
  generalize a.swept now id side price qty type = m at *
  generalize b.swept now' id side price qty type = m' at *
  have hreach : b.reachable side price type
      = (a.reachable side price type).filter fun y => y.1.id ≠ x := by
    rw [Ladder.reachable, h.rungs, List.filter_comm]
    rfl
  have hunreach : b.unreachable side price type
      = (a.unreachable side price type).filter fun y => y.1.id ≠ x := by
    rw [Ladder.unreachable, h.rungs, List.filter_comm]
    rfl
  have hpos : Positive (a.reachable side price type) := fun y hy =>
    lots_positive (hwf.side side.opposite).live y (List.mem_of_mem_filter hy)
  -- no fill is of `x`, so `x` may as well not be there
  have hfills : ∀ f ∈ fills qty.toNat (a.reachable side price type),
      decide (f.1.id ≠ x) = true := by
    intro f hf
    have hmem := List.mem_map_of_mem (f := eventOf id) hf
    rw [← hswept.events] at hmem
    obtain ⟨e, he, heq⟩ := List.mem_map.mp hmem
    have hmaker : e.makerOrderId = f.1.id := congrArg MatchEvent.makerOrderId heq
    exact decide_eq_true (hmaker ▸ hquiet e he)
  obtain ⟨hsame, hrest⟩ := fills_filter (p := fun tag => decide (tag.id ≠ x)) hpos hfills
  rw [← hreach] at hsame hrest
  have hevents : m'.events.map Relabelling.identity.event
      = m.events.map Relabelling.identity.event := by
    rw [hswept'.events, hswept.events, hsame]
  refine ⟨hevents, ?_, ?_⟩
  · -- as much is taken, so as much is left
    have htotal := congrArg total hsame
    rw [total_fills, total_fills] at htotal
    rw [← UInt32.toNat_inj, hswept'.demand, hswept.demand]
    omega
  · have hlength := congrArg List.length hevents
    have hvolume := congrArg tradedQty hevents
    rw [List.length_map, List.length_map] at hlength
    rw [Relabelling.tradedQty_events, Relabelling.tradedQty_events] at hvolume
    constructor
    case rungs =>
      intro s
      by_cases hs : s = side.opposite
      · subst hs
        rw [Ladder.afterSweep_opposite, Ladder.afterSweep_opposite, hswept'.taken, hswept.taken,
          hrest, hunreach, List.filter_append]
      · have hown : ∀ (a : Ladder) (m : Swept), (a.afterSweep side m).rungs s = a.rungs s :=
          fun a m => Ladder.setRungs_rungs_ne a hs _
        rw [hown, hown]
        exact h.rungs s
    case orderSlots => exact congrArg (· - 1) h.orderSlots
    case levelSlots => exact h.levelSlots
    case trades => exact congrArg₂ (· + ·) h.trades hlength
    case volume => exact congrArg₂ (· + ·) h.volume hvolume

/-- Giving the slot of the incoming order back. -/
theorem giveBack (h : Without x a b) : Without x a.giveBack b.giveBack :=
  ⟨h.rungs, congrArg (· + 1) h.orderSlots, h.levelSlots, h.trades, h.volume⟩

/-- Resting another order. -/
theorem rest (h : Without x a b) (hside : SideWF side (a.rungs side))
    (hside' : SideWF side (b.rungs side)) (hid : id ≠ x) (price : Price)
    (qty left : Quantity) :
    Without x (a.setRungs side (insertOrder side price ⟨id, qty, left⟩ (a.rungs side)))
      (b.setRungs side (insertOrder side price ⟨id, qty, left⟩ (b.rungs side))) := by
  refine ⟨fun s => ?_, h.orderSlots, h.levelSlots, h.trades, h.volume⟩
  show lots (Function.update b.rungs side _ s)
    = (lots (Function.update a.rungs side _ s)).filter _
  have hkeep : decide (((⟨id, qty, left⟩ : RestingOrder).lot price).1.id ≠ x) = true :=
    decide_eq_true hid
  by_cases hs : s = side
  · subst hs
    rw [Function.update_self, Function.update_self, insertOrder_lots hside,
      insertOrder_lots hside', h.rungs, List.filter_append, List.filter_cons, if_pos hkeep,
      List.filter_comm,
      List.filter_comm (fun y : Lot => decide (s.comparator price y.1.price))]
  · rw [Function.update_of_ne hs, Function.update_of_ne hs]
    exact h.rungs s

/-- Cancelling an order in both. -/
theorem cancel (h : Without x a b) (id : OrderId) :
    Without x { a with rungs := fun side => cancelIn id (a.rungs side) }
      { b with rungs := fun side => cancelIn id (b.rungs side) } := by
  refine ⟨fun s => ?_, h.orderSlots, h.levelSlots, h.trades, h.volume⟩
  rw [cancelIn_lots, cancelIn_lots, h.rungs, List.filter_comm]

end Without

/-- **STEP**: a call about another order, in which `x` stays quiet. -/
theorem Without.step (h : Without x a b) (hwf : a.WF) (hwf' : b.WF) {c c' : Call}
    (hop : c'.op = c.op) (hid : c.op.id ≠ x) (hquiet : (Ladder.step c a).1.Quiet x) :
    (Ladder.step c' b).1.untimed = (Ladder.step c a).1.untimed
      ∧ Without x (Ladder.step c a).2 (Ladder.step c' b).2 := by
  obtain ⟨op, now⟩ := c
  obtain ⟨op', now'⟩ := c'
  obtain rfl : op' = op := hop
  cases op' with
  | cancelOrder id =>
      have hrests : b.Rests id ↔ a.Rests id := h.rests_iff hid
      show (Ladder.cancelOrder id b).1.untimed = (Ladder.cancelOrder id a).1.untimed
        ∧ Without x (Ladder.cancelOrder id a).2 (Ladder.cancelOrder id b).2
      rw [Ladder.cancelOrder, Ladder.cancelOrder]
      by_cases hr : a.Rests id
      · rw [if_pos hr, if_pos (hrests.mpr hr)]
        exact ⟨rfl, h.cancel id⟩
      · rw [if_neg hr, if_neg (mt hrests.mp hr)]
        exact ⟨rfl, h⟩
  | addOrder id side price qty type =>
      have hrests : b.Rests id ↔ a.Rests id := h.rests_iff hid
      have hcount := h.orderCount_le
      have hslots := h.orderSlots
      show (Ladder.addOrder now' id side price qty type b).1.untimed
          = (Ladder.addOrder now id side price qty type a).1.untimed
        ∧ Without x (Ladder.addOrder now id side price qty type a).2
          (Ladder.addOrder now' id side price qty type b).2
      change (Ladder.addOrder now id side price qty type a).1.Quiet x at hquiet
      have hcase := addOrder_cases now id side price qty type a
      generalize Ladder.addOrder now id side price qty type a = v at hcase hquiet ⊢
      obtain ⟨out, a'⟩ := v
      cases hcase with
      | rejected hbad =>
          rw [(AddCase.rejected (hbad.imp_right hrests.mpr)).eq]
          exact ⟨rfl, h⟩
      | refused => exact hquiet.elim
      | leaked => exact hquiet.elim
      | rested hqty hno hroom hleft hlimit hlevel =>
          obtain ⟨hevents, hleft', hmatched⟩ := h.matched hwf hwf' now now'
            fun e he => (hquiet e he).1
          -- a level that is open with `x` has room without it
          have hlevel' := hmatched.room (hwf.afterSweep hroom) (hwf'.afterSweep (by omega)) hlevel
          rw [(AddCase.rested hqty (mt hrests.mp hno) (by omega) (hleft' ▸ hleft) hlimit
            hlevel').eq]
          have hown : ∀ (a : Ladder) (m : Swept), (a.afterSweep side m).rungs side = a.rungs side :=
            fun a m => Ladder.afterSweep_own a side m
          have hrest := hmatched.rest (hown a _ ▸ hwf.side side) (hown b _ ▸ hwf'.side side) hid
            price qty (a.swept now id side price qty type).left
          rw [hown, hown] at hrest
          refine ⟨congrArg Outcome.events hevents, ?_⟩
          rw [hleft']
          exact hrest.giveBack
      | finished hqty hno hroom hdone =>
          obtain ⟨hevents, hleft', hmatched⟩ := h.matched hwf hwf' now now'
            fun e he => (hquiet e he).1
          rw [(AddCase.finished hqty (mt hrests.mp hno) (by omega) (hleft' ▸ hdone)).eq]
          exact ⟨congrArg Outcome.events hevents, hmatched.giveBack⟩

/-- Adding `x`, where it trades with nothing and rests. -/
theorem Without.start {now : Nat → Timestamp} (hwf : a.WF) (hfresh : ¬ a.Rests x)
    (hquiet : (Ladder.addOrder now x side price qty .limit a).1 = .events [])
    (hrests : (Ladder.addOrder now x side price qty .limit a).2.Rests x) :
    Without x (Ladder.addOrder now x side price qty .limit a).2 a := by
  have hcase := addOrder_cases now x side price qty .limit a
  generalize Ladder.addOrder now x side price qty .limit a = v at hcase hquiet hrests ⊢
  obtain ⟨out, b⟩ := v
  cases hcase with
  | rejected => exact absurd hrests hfresh
  | refused => cases hquiet
  | leaked => cases hquiet
  | finished => exact absurd (rests_afterSweep hrests) hfresh
  | rested hqty _ hroom =>
      have hkeep : ∀ s, (lots (a.rungs s)).filter (fun y => y.1.id ≠ x) = lots (a.rungs s) :=
        fun s => List.filter_eq_self.mpr fun y hy =>
          decide_eq_true fun hid => hfresh (rests_lots.mpr ⟨s, y, hy, hid⟩)
      have hswept := hwf.swept_lots now x side price qty .limit
      have hnone : (a.swept now x side price qty .limit).events = [] := Outcome.events.inj hquiet
      have hfills := hswept.events
      rw [hnone, List.map_nil, eq_comm, List.map_eq_nil_iff] at hfills
      -- nothing is within reach, for a fill would have been an event
      have hreach : a.reachable side price .limit = [] := by
        cases hlots : a.reachable side price .limit with
        | nil => rfl
        | cons lot rest =>
            rw [hlots, fills_cons (mt quantity_zero.mpr hqty)] at hfills
            cases hfills
      have hall : a.unreachable side price .limit = lots (a.rungs side.opposite) := by
        refine List.filter_eq_self.mpr fun y hy => ?_
        simpa using List.filter_eq_nil_iff.mp hreach y hy
      constructor
      case rungs =>
        intro s
        show lots (a.rungs s) = (lots (Function.update (a.afterSweep side
          (a.swept now x side price qty .limit)).rungs side _ s)).filter _
        by_cases hs : s = side
        · subst hs
          rw [Function.update_self, insertOrder_lots (hwf.side s), List.filter_append,
            List.filter_cons_of_neg (by simp [RestingOrder.lot]), ← List.filter_append,
            lots_split (hwf.side s), hkeep]
        · rw [Function.update_of_ne hs]
          obtain rfl := Side.eq_opposite hs
          rw [Ladder.afterSweep_opposite, hswept.taken, hreach, rest_nil, List.nil_append, hall,
            hkeep]
      case orderSlots =>
        show _ = a.orderSlots - 1 + 1
        omega
      case levelSlots => exact rfl
      case trades =>
        show _ = a.trades + _
        rw [hnone]
        rfl
      case volume =>
        show _ = a.volume + _
        rw [hnone]
        rfl

/-- Cancelling `x`. -/
theorem Without.finish (h : Without x a b) :
    (∀ side, lots ((Ladder.cancelOrder x a).2.rungs side) = lots (b.rungs side))
      ∧ (Ladder.cancelOrder x a).2.trades = b.trades
      ∧ (Ladder.cancelOrder x a).2.volume = b.volume := by
  rw [Ladder.cancelOrder]
  by_cases hr : a.Rests x
  · rw [if_pos hr]
    refine ⟨fun side => ?_, h.trades.symm, h.volume.symm⟩
    rw [h.rungs]
    exact cancelIn_lots x (a.rungs side)
  · rw [if_neg hr]
    refine ⟨fun side => ?_, h.trades.symm, h.volume.symm⟩
    rw [h.rungs]
    refine (List.filter_eq_self.mpr fun y hy => ?_).symm
    exact decide_eq_true fun hid => hr (rests_lots.mpr ⟨side, y, hy, hid⟩)

end Steps

/-! ## Runs -/

/-- Some calls on the empty book lead here. -/
def OrderBook.Reachable (s : OrderBook) : Prop :=
  ∃ maxOrders maxLevels calls, s = OrderBook.reached maxOrders maxLevels calls

/-- The same levels, queues, known ids and counters. -/
structure SameBook (s s' : OrderBook) : Prop where
  levels : ∀ side, (s.levels side).map Rung.shape = (s'.levels side).map Rung.shape
  known  : ∀ id, s.orderMap.lookup id = none ↔ s'.orderMap.lookup id = none
  trades : s.totalTradesCount = s'.totalTradesCount
  volume : s.totalVolumeTraded = s'.totalVolumeTraded

/-- Books with the same lots and counters are the same. -/
theorem Rep.sameBook {s s' : OrderBook} {q q' : LevelPtr → List OrderPtr} {a b : Ladder}
    (h : Rep s q a) (h' : Rep s' q' b) (hwf : a.WF) (hwf' : b.WF)
    (hlots : ∀ side, lots (a.rungs side) = lots (b.rungs side)) (htrades : a.trades = b.trades)
    (hvolume : a.volume = b.volume) : SameBook s s' where
  levels := fun side => by
    rw [h.levels_eq, h'.levels_eq]
    exact shape_of_lots (hwf.side side) (hwf'.side side) (hlots side)
  known := fun id => by
    rw [h.lookup_none, h'.lookup_none, rests_lots, rests_lots]
    simp only [hlots]
  trades := by rw [h.trades, h'.trades, htrades]
  volume := by rw [h.volume, h'.volume, hvolume]

/-- **NO TRACE**: an order that rests without trading, stays quiet and is cancelled
    in the end has changed nothing that the other calls see. -/
theorem reached_traceless {s : OrderBook} (hs : s.Reachable) {x : OrderId} {side : Side}
    {price : Price} {qty : Quantity} {add cancel : Call} {calls calls' : List Call}
    (hadd : add.op = .addOrder x side price qty .limit) (hcancel : cancel.op = .cancelOrder x)
    (hfresh : s.orderMap.lookup x = none) (hevents : (OrderBook.step add s).1 = .events [])
    (hrests : (OrderBook.step add s).2.orderMap.lookup x ≠ none)
    (hops : calls'.map Call.op = calls.map Call.op) (hids : ∀ c ∈ calls, c.op.id ≠ x)
    (hquiet : ∀ o ∈ (OrderBook.run calls (OrderBook.step add s).2).1, o.Quiet x) :
    (OrderBook.run calls (OrderBook.step add s).2).1.map Outcome.untimed
        = (OrderBook.run calls' s).1.map Outcome.untimed
      ∧ SameBook (OrderBook.step cancel (OrderBook.run calls (OrderBook.step add s).2).2).2
        (OrderBook.run calls' s).2 := by
  obtain ⟨maxOrders, maxLevels, before, rfl⟩ := hs
  obtain ⟨q, hrep⟩ := Rep.reached maxOrders maxLevels before
  have hwf := Ladder.WF.reached maxOrders maxLevels before
  generalize OrderBook.reached maxOrders maxLevels before = s at *
  generalize Ladder.reached maxOrders maxLevels before = b at *
  obtain ⟨op, now⟩ := add
  obtain rfl : op = .addOrder x side price qty .limit := hadd
  obtain ⟨op', now'⟩ := cancel
  obtain rfl : op' = .cancelOrder x := hcancel
  -- the ladders of the two runs
  obtain ⟨hout, q₁, hrep₁⟩ := step_refines hrep ⟨.addOrder x side price qty .limit, now⟩
  obtain ⟨houts, q₂, hrep₂⟩ := run_refines calls hrep₁
  obtain ⟨houts', q', hrep'⟩ := run_refines calls' hrep
  obtain ⟨-, q₃, hrep₃⟩ := step_refines hrep₂ ⟨.cancelOrder x, now'⟩
  rw [hout] at hevents
  rw [houts] at hquiet ⊢
  rw [houts']
  have hstart : Without x (Ladder.step ⟨.addOrder x side price qty .limit, now⟩ b).2 b :=
    Without.start hwf (hrep.lookup_none.mp hfresh) hevents (hrep₁.rests_iff.mpr hrests)
  have hcalls : List.Forall₂ (fun c c' : Call => c.op.id ≠ x ∧ c'.op = c.op) calls calls' := by
    have hmap : List.Forall₂ (fun op op' => op' = op) (calls.map Call.op) (calls'.map Call.op) := by
      rw [hops]
      exact List.forall₂_same.mpr fun _ _ => rfl
    rw [List.forall₂_map_left_iff, List.forall₂_map_right_iff] at hmap
    exact (List.forall₂_and_left calls calls').mpr ⟨hids, hmap⟩
  obtain ⟨hsame, hwf₂, hwf', hwithout⟩ := run_simulation
    (R := fun a b : Ladder => a.WF ∧ b.WF ∧ Without x a b)
    (O := fun o o' => Outcome.untimed o = Outcome.untimed o')
    (fun c c' a b ⟨hid, hop⟩ hquiet ⟨hwf, hwf', hwithout⟩ => by
      obtain ⟨hout, hnext⟩ := hwithout.step hwf hwf' hop hid hquiet
      exact ⟨hout.symm, hwf.step c, hwf'.step c', hnext⟩)
    hcalls (Along.of_outputs hquiet) ⟨hwf.step _, hwf, hstart⟩
  obtain ⟨hlots, htrades, hvolume⟩ := hwithout.finish
  constructor
  · rw [← List.forall₂_eq_eq_eq, List.forall₂_map_left_iff, List.forall₂_map_right_iff]
    exact hsame
  · exact hrep₃.sameBook hrep' (hwf₂.step ⟨.cancelOrder x, now'⟩) hwf' hlots htrades hvolume

/-- An order in the queue of a maker that trades, overtaken and cancelled. -/
theorem reached_traceless_queue : SameBook
    (OrderBook.step ⟨.cancelOrder 9, fun _ => 5⟩ (OrderBook.run
      [⟨.addOrder 2 .sell 100 1 .limit, fun _ => 3⟩, ⟨.addOrder 3 .buy 100 5 .limit, fun _ => 4⟩,
        ⟨.cancelOrder 2, fun _ => 4⟩]
      (OrderBook.step ⟨.addOrder 9 .sell 100 3 .limit, fun _ => 2⟩
        (OrderBook.reached defaultMaxOrders defaultMaxLevels
          [⟨.addOrder 1 .sell 100 5 .limit, fun _ => 1⟩])).2).2).2
    (OrderBook.run
      [⟨.addOrder 2 .sell 100 1 .limit, fun _ => 0⟩, ⟨.addOrder 3 .buy 100 5 .limit, fun _ => 0⟩,
        ⟨.cancelOrder 2, fun _ => 0⟩]
      (OrderBook.reached defaultMaxOrders defaultMaxLevels
        [⟨.addOrder 1 .sell 100 5 .limit, fun _ => 1⟩])).2 := by
  refine And.right (reached_traceless (x := 9) ?_
    (Eq.refl (Op.addOrder 9 .sell 100 3 .limit)) rfl ?_ ?_ ?_ rfl ?_ ?_)
  · exact ⟨_, _, _, rfl⟩
  · decide +kernel
  · decide +kernel
  · decide +kernel
  · decide +kernel
  · decide +kernel

end Lob
