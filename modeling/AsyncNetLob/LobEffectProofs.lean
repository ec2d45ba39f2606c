import AsyncNetLob.LobExecutionProofs
import AsyncNetLob.LobMirrorProofs
import AsyncNetLob.LobPoolProofs

/-! # What a call can do, and what a run costs

    `Ladder.Effect` says in one place what a call can do to the lots of the two sides:
    nothing, taking out the lot of an id, or executing an accepted order.

    The heart of the tally is that of the lots an order fills at most one is left
    (`GreedyFill.length_fills_rest`): the orders it fills pay for its events.  Over
    a run every accepted order pays once, with the end of its life, so the matching
    loops fill no more often than orders are accepted (`reached_tally`). -/

namespace Lob

open MachineRun GreedyFill

/-- What a call does to the lots. -/
inductive Ladder.Effect (a : Ladder) : Op → Outcome → Ladder → Prop
  | rejected {id : OrderId} {side : Side} {price : Price} {qty : Quantity} {type : OrderType}
      (hbad : qty = 0 ∨ a.Rests id) :
      Effect a (.addOrder id side price qty type) (.events []) a
  | threw {id : OrderId} {side : Side} {price : Price} {qty : Quantity} {type : OrderType}
      {f : Fault} {b : Ladder} (hlots : ∀ side, lots (b.rungs side) = lots (a.rungs side)) :
      Effect a (.addOrder id side price qty type) (.threw f) b
  | unknown {id : OrderId} (hid : ¬ a.Rests id) :
      Effect a (.cancelOrder id) (.cancelled false) a
  | cancelled {id : OrderId} {b : Ladder} (hid : a.Rests id)
      (hlots : ∀ side, lots (b.rungs side)
        = (lots (a.rungs side)).filter fun y => y.1.id ≠ id) :
      Effect a (.cancelOrder id) (.cancelled true) b
  | executed {id : OrderId} {side : Side} {price : Price} {qty : Quantity} {type : OrderType}
      {es : List MatchEvent} {b : Ladder} (hqty : qty ≠ 0) (hid : ¬ a.Rests id)
      (hexec : Executed a id side price qty type es b) :
      Effect a (.addOrder id side price qty type) (.events es) b

section Ladders

variable {a b : Ladder}

/-- The refusal for want of a level leaves the lots as they are. -/
theorem Ladder.WF.leaked_lots (hwf : a.WF) {now : Nat → Timestamp} {id : OrderId} {side : Side}
    {price : Price} {qty : Quantity} {type : OrderType} (hlimit : type = .limit)
    (hleft : (a.swept now id side price qty type).left ≠ 0)
    (hfull : a.levelSlots
      ≤ (a.afterSweep side (a.swept now id side price qty type)).levelCount) (side' : Side) :
    lots ((a.afterSweep side (a.swept now id side price qty type)).rungs side')
      = lots (a.rungs side') := by
  obtain ⟨hidle, -⟩ := AddCase.leaked_idle hwf hlimit hleft hfull
  rw [hidle, Ladder.afterSweep_idle]

/-- **EFFECT**: a call on a well-formed ladder has one of these effects. -/
theorem Ladder.WF.effect (hwf : a.WF) (c : Call) :
    a.Effect c.op (Ladder.step c a).1 (Ladder.step c a).2 := by
  obtain ⟨op, now⟩ := c
  cases op with
  | cancelOrder id =>
      show a.Effect _ (Ladder.cancelOrder id a).1 (Ladder.cancelOrder id a).2
      rw [Ladder.cancelOrder]
      by_cases hid : a.Rests id
      · rw [if_pos hid]
        exact .cancelled hid fun side => cancelIn_lots id (a.rungs side)
      · rw [if_neg hid]
        exact .unknown hid
  | addOrder id side price qty type =>
      show a.Effect _ (Ladder.addOrder now id side price qty type a).1
        (Ladder.addOrder now id side price qty type a).2
      by_cases hno : ∀ f, (Ladder.addOrder now id side price qty type a).1 ≠ .threw f
      · by_cases hbad : qty = 0 ∨ a.Rests id
        · rw [(AddCase.rejected hbad).eq]
          exact .rejected hbad
        · obtain ⟨hqty, hid⟩ := not_or.mp hbad
          obtain ⟨es, b, heq, hexec⟩ := addOrder_executed hwf hqty hid hno
          rw [heq]
          exact .executed hqty hid hexec
      · obtain ⟨f, hthrew⟩ := not_forall_not.mp hno
        have hcase := addOrder_cases now id side price qty type a
        generalize Ladder.addOrder now id side price qty type a = v at hcase hthrew ⊢
        obtain ⟨out, b⟩ := v
        cases hcase with
        | rejected => cases hthrew
        | refused => exact .threw fun _ => rfl
        | leaked _ _ _ hleft hlimit _ hfull =>
            exact .threw (hwf.leaked_lots hlimit hleft hfull)
        | rested => cases hthrew
        | finished => cases hthrew

/-! ## Where the lots come from -/

/-- **PROVENANCE**: the lot of an order was there before, or the call added it. -/
theorem Ladder.Effect.mem_lots {op : Op} {out : Outcome} (h : a.Effect op out b) (hwf : a.WF)
    {side : Side} {y : Lot} (hy : y ∈ lots (b.rungs side)) :
    (∃ z ∈ lots (a.rungs side), z.1 = y.1)
      ∨ ∃ qty, op = .addOrder y.1.id side y.1.price qty .limit := by
  cases h with
  | rejected => exact Or.inl ⟨y, hy, rfl⟩
  | threw hlots => exact Or.inl ⟨y, hlots side ▸ hy, rfl⟩
  | unknown => exact Or.inl ⟨y, hy, rfl⟩
  | cancelled _ hlots =>
      rw [hlots] at hy
      exact Or.inl ⟨y, List.mem_of_mem_filter hy, rfl⟩
  | @executed id side₀ price qty type es b _ _ hexec =>
      by_cases hs : side = side₀
      · subst hs
        rw [hexec.own] at hy
        split at hy
        · rename_i hrests
          rcases List.mem_cons.mp ((restLot_perm _ _ _ _).subset hy) with rfl | hy
          · exact Or.inr ⟨qty, by rw [hrests.1]⟩
          · exact Or.inl ⟨y, hy, rfl⟩
        · exact Or.inl ⟨y, hy, rfl⟩
      · obtain rfl := Side.eq_opposite hs
        rw [hexec.other] at hy
        have hmem : y.1 ∈ (lots (a.rungs side₀.opposite)).map Prod.fst := by
          rw [← hwf.reach_split side₀ price type, List.map_append]
          rcases List.mem_append.mp hy with hy | hy
          · exact List.mem_append_left _ (rest_keys.subset (List.mem_map_of_mem hy))
          · exact List.mem_append_right _ (List.mem_map_of_mem hy)
        exact Or.inl (List.mem_map.mp hmem)

/-- Every lot was submitted in a LIMIT order. -/
theorem reached_mem_lots {maxOrders maxLevels : Nat} {calls : List Call} {side : Side} {y : Lot}
    (hy : y ∈ lots ((Ladder.reached maxOrders maxLevels calls).rungs side)) :
    ∃ c ∈ calls, ∃ qty, c.op = .addOrder y.1.id side y.1.price qty .limit := by
  induction calls using List.reverseRecOn generalizing y with
  | nil => cases hy
  | append_singleton calls c ih =>
      have hwf := Ladder.WF.reached maxOrders maxLevels calls
      rw [Ladder.reached_snoc] at hy
      rcases (hwf.effect c).mem_lots hwf hy with ⟨z, hz, htag⟩ | ⟨qty, hop⟩
      · obtain ⟨c', hc', qty, hop⟩ := ih hz
        rw [htag] at hop
        exact ⟨c', List.mem_append_left _ hc', qty, hop⟩
      · exact ⟨c, List.mem_append_right _ List.mem_cons_self, qty, hop⟩

/-! ## Counting -/

theorem Ladder.orderCount_lots (a : Ladder) (side : Side) :
    a.orderCount = (lots (a.rungs side)).length + (lots (a.rungs side.opposite)).length := by
  rw [Ladder.orderCount_eq a side, ordersIn_lots, ordersIn_lots]

/-- Cancelling takes an order out of the book. -/
theorem cancelled_orderCount {id : OrderId} (hid : a.Rests id)
    (hlots : ∀ side, lots (b.rungs side)
      = (lots (a.rungs side)).filter fun y => y.1.id ≠ id) : b.orderCount + 1 ≤ a.orderCount := by
  obtain ⟨side, y, hy, hyid⟩ := rests_lots.mp hid
  rw [Ladder.orderCount_lots b side, Ladder.orderCount_lots a side, hlots, hlots]
  have hown : ((lots (a.rungs side)).filter fun y => y.1.id ≠ id).length
      < (lots (a.rungs side)).length :=
    List.length_filter_lt_length_iff_exists.mpr ⟨y, hy, by simpa using hyid⟩
  have hother := List.length_filter_le (fun y : Lot => decide (y.1.id ≠ id))
    (lots (a.rungs side.opposite))
  omega

/-- **AN ORDER PAYS** for the events it causes: with itself, if it does not rest, and
    with the orders it fills. -/
theorem Executed.orderCount_le {id : OrderId} {side : Side} {price : Price} {qty : Quantity}
    {type : OrderType} {es : List MatchEvent} (h : Executed a id side price qty type es b)
    (hwf : a.WF) : es.length + b.orderCount ≤ a.orderCount + 1 := by
  have hsplit := congrArg List.length (hwf.reach_split side price type)
  have hother := congrArg List.length h.other
  have hown := congrArg List.length h.own
  rw [List.length_append] at hsplit hother
  rw [Ladder.orderCount_lots b side, Ladder.orderCount_lots a side, h.length_eq]
  by_cases hrests : type = .limit ∧ total (a.reachable side price type) < qty.toNat
  · -- it fills everything within reach and rests
    have hall := @length_fills_le Tag qty.toNat (a.reachable side price type)
    rw [if_pos hrests, (restLot_perm _ _ _ _).length_eq, List.length_cons] at hown
    rw [rest_eq_nil hrests.2.le, List.length_nil] at hother
    omega
  · have hused := @length_fills_rest Tag qty.toNat (a.reachable side price type)
    rw [if_neg hrests] at hown
    omega

end Ladders

/-! ## The tally of a run -/

namespace OrderBook

/-- The call adds an order: it has a quantity, its id is free, and nothing is thrown. -/
def accepts (c : Call) (s : OrderBook) : Bool :=
  match c.op, (step c s).1 with
  | .addOrder id _ _ qty _, .events _ => decide (qty ≠ 0 ∧ s.orderMap.lookup id = none)
  | _, _ => false

/-- How many calls of a run add an order. -/
def acceptedCount : List Call → OrderBook → ℕ
  | [], _ => 0
  | c :: calls, s => (accepts c s).toNat + acceptedCount calls (step c s).2

/-- How many calls of a run cancel one. -/
def cancelledCount (calls : List Call) (s : OrderBook) : ℕ :=
  (run calls s).1.count (.cancelled true)

end OrderBook

section Book

variable {s : OrderBook} {q : LevelPtr → List OrderPtr} {a : Ladder}

/-- An order that is not thrown back is added if it has a quantity and its id is free. -/
theorem Rep.accepts_add (h : Rep s q a) {c : Call} {id : OrderId} {side : Side} {price : Price}
    {qty : Quantity} {type : OrderType} {es : List MatchEvent}
    (hop : c.op = .addOrder id side price qty type) (hout : (OrderBook.step c s).1 = .events es) :
    OrderBook.accepts c s = decide (qty ≠ 0 ∧ ¬ a.Rests id) := by
  rw [OrderBook.accepts, hop, hout]
  exact decide_eq_decide.mpr (and_congr_right fun _ => h.lookup_none)

/-- **STEP**: what a call trades and cancels is paid for by orders that leave the book, or
    by the one it adds. -/
theorem Rep.step_tally (h : Rep s q a) (hwf : a.WF) (c : Call) :
    (OrderBook.step c s).1.returned.length + (Ladder.step c a).2.orderCount
        + [(OrderBook.step c s).1].count (.cancelled true)
      ≤ a.orderCount + (OrderBook.accepts c s).toNat := by
  have hout := (step_refines h c).1
  have heffect := hwf.effect c
  generalize hop : c.op = op at heffect
  generalize Ladder.step c a = v at hout heffect
  obtain ⟨out, b⟩ := v
  dsimp only at hout heffect ⊢
  rw [hout]
  cases heffect with
  | rejected =>
      show 0 + a.orderCount + 0 ≤ a.orderCount + _
      omega
  | threw hlots =>
      have hcount : b.orderCount = a.orderCount := by
        rw [Ladder.orderCount_lots b .buy, Ladder.orderCount_lots a .buy, hlots, hlots]
      show 0 + b.orderCount + 0 ≤ a.orderCount + _
      omega
  | unknown =>
      show 0 + a.orderCount + 0 ≤ a.orderCount + _
      omega
  | cancelled hid hlots =>
      have hcount := cancelled_orderCount hid hlots
      show 0 + b.orderCount + 1 ≤ a.orderCount + _
      omega
  | executed hqty hid hexec =>
      rw [h.accepts_add hop hout, decide_eq_true ⟨hqty, hid⟩]
      exact hexec.orderCount_le hwf

/-- From a represented book. -/
theorem Rep.run_tally (h : Rep s q a) (hwf : a.WF) (calls : List Call) :
    ((OrderBook.run calls s).1.flatMap Outcome.returned).length
        + (OrderBook.run calls s).2.activeOrdersCount + OrderBook.cancelledCount calls s
      ≤ s.activeOrdersCount + OrderBook.acceptedCount calls s := by
  induction calls generalizing s q a with
  | nil =>
      show 0 + s.activeOrdersCount + 0 ≤ s.activeOrdersCount + 0
      omega
  | cons c calls ih =>
      obtain ⟨-, q', hrep⟩ := step_refines h c
      have hstep := h.step_tally hwf c
      have hrest := ih hrep (hwf.step c)
      have hevents : (OrderBook.run (c :: calls) s).1.flatMap Outcome.returned
          = (OrderBook.step c s).1.returned
            ++ (OrderBook.run calls (OrderBook.step c s).2).1.flatMap Outcome.returned := rfl
      have hcancelled : OrderBook.cancelledCount (c :: calls) s
          = [(OrderBook.step c s).1].count (.cancelled true)
            + OrderBook.cancelledCount calls (OrderBook.step c s).2 :=
        @List.count_append Outcome _ (.cancelled true) [(OrderBook.step c s).1] _
      have haccepted : OrderBook.acceptedCount (c :: calls) s
          = (OrderBook.accepts c s).toNat
            + OrderBook.acceptedCount calls (OrderBook.step c s).2 := rfl
      have hlast : (OrderBook.run (c :: calls) s).2
          = (OrderBook.run calls (OrderBook.step c s).2).2 := rfl
      have hbefore : s.activeOrdersCount = a.orderCount := h.known
      have hafter : (OrderBook.step c s).2.activeOrdersCount = (Ladder.step c a).2.orderCount :=
        hrep.known
      rw [hevents, List.length_append, hcancelled, haccepted, hlast]
      omega

end Book

/-- **THE TALLY** of every run: each trade and each cancellation, and each order that still
    rests, has an accepted order of its own.  So the matching loops fill no more often than
    orders were accepted, and neither does `totalTradesCount_` show more. -/
theorem reached_tally (maxOrders maxLevels : Nat) (calls : List Call) :
    (OrderBook.history maxOrders maxLevels calls).length
          + (OrderBook.reached maxOrders maxLevels calls).activeOrdersCount
          + OrderBook.cancelledCount calls (OrderBook.new maxOrders maxLevels)
        ≤ OrderBook.acceptedCount calls (OrderBook.new maxOrders maxLevels)
      ∧ (OrderBook.reached maxOrders maxLevels calls).totalTradesCount.toNat
        ≤ OrderBook.acceptedCount calls (OrderBook.new maxOrders maxLevels) := by
  have htally := (Rep.new maxOrders maxLevels).run_tally (Ladder.WF.empty maxOrders maxLevels) calls
  have hnone : (OrderBook.new maxOrders maxLevels).activeOrdersCount = 0 := rfl
  rw [hnone, Nat.zero_add] at htally
  refine ⟨htally, ?_⟩
  obtain ⟨houts, q, hrep⟩ := new_refines maxOrders maxLevels calls
  have hcounter := (Ladder.counters_run (Ladder.WF.empty maxOrders maxLevels) calls).1
  have hshown : (OrderBook.reached maxOrders maxLevels calls).totalTradesCount
      = UInt64.ofNat (OrderBook.history maxOrders maxLevels calls).length := by
    rw [OrderBook.history, houts, OrderBook.reached, hrep.trades, hcounter]
    exact congrArg _ (Nat.zero_add _)
  rw [hshown]
  refine (Nat.mod_le _ _).trans ?_
  exact (Nat.le_add_right _ _).trans ((Nat.le_add_right _ _).trans htally)

end Lob
