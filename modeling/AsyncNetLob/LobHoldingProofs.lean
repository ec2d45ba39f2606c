import AsyncNetLob.LobLotsProofs

/-! # What an id holds

    `held a id` is the quantity that rests under an id.  A call moves it into the
    events that name the id as maker (`held_step`), and the call that adds an
    order splits its quantity into the events of the call and what the id holds
    afterwards (`held_accepted`). -/

namespace Lob

open GreedyFill

/-- The events a call returned. -/
def Outcome.returned : Outcome → List MatchEvent
  | .events es => es
  | .cancelled _ => []
  | .threw _ => []

/-- The quantity of the events that name an order as maker. -/
def madeQty (id : OrderId) (es : List MatchEvent) : ℕ :=
  tradedQty (es.filter fun e => e.makerOrderId = id)

/-- The quantity of the events that name an order as taker. -/
def takenQty (id : OrderId) (es : List MatchEvent) : ℕ :=
  tradedQty (es.filter fun e => e.takerOrderId = id)

/-- The quantity that rests under an id. -/
def Ladder.held (a : Ladder) (id : OrderId) : ℕ :=
  total ((lots (a.rungs .buy) ++ lots (a.rungs .sell)).filter fun y => y.1.id = id)

@[simp] theorem madeQty_nil (id : OrderId) : madeQty id [] = 0 := rfl

section Held

variable {a : Ladder} {id : OrderId} {side : Side}

theorem Ladder.held_eq (a : Ladder) (id : OrderId) (side : Side) :
    a.held id = total ((lots (a.rungs side)).filter fun y => y.1.id = id)
      + total ((lots (a.rungs side.opposite)).filter fun y => y.1.id = id) := by
  rw [Ladder.held, List.filter_append, total_append]
  cases side
  · rfl
  · exact Nat.add_comm _ _

theorem lots_ids (rungs : List Rung) : (lots rungs).map (fun y => y.1.id)
    = (rungs.flatMap Rung.orders).map RestingOrder.id := by
  rw [lots, List.map_flatMap, List.map_flatMap]
  refine List.flatMap_congr fun lv _ => ?_
  rw [lotsOf, List.map_map]
  rfl

/-- The lot of an id is all that it holds. -/
theorem Ladder.WF.held_lot (h : a.WF) {y : Lot} (hy : y ∈ lots (a.rungs side)) :
    a.held y.1.id = y.2 := by
  have hmem : y ∈ lots (a.rungs .buy) ++ lots (a.rungs .sell) := by
    rw [List.mem_append]
    cases side with
    | buy => exact Or.inl hy
    | sell => exact Or.inr hy
  have hids : ((lots (a.rungs .buy) ++ lots (a.rungs .sell)).map fun y => y.1.id).Nodup := by
    rw [List.map_append, lots_ids, lots_ids, ← List.map_append]
    exact h.ids
  exact amount_lot hids hmem

/-- An id that does not rest holds nothing. -/
theorem Ladder.held_zero (h : ¬ a.Rests id) : a.held id = 0 := by
  have hnone : ∀ side, (lots (a.rungs side)).filter (fun y => y.1.id = id) = [] := by
    intro side
    refine List.filter_eq_nil_iff.mpr fun y hy => ?_
    simpa using fun hid => h (rests_lots.mpr ⟨side, y, hy, hid⟩)
  rw [a.held_eq id .buy, hnone, hnone]
  rfl

end Held

/-! ## Events and quantities -/

theorem lots_lt {rungs : List Rung} {y : Lot} (hy : y ∈ lots rungs) : y.2 < 2 ^ 32 := by
  obtain ⟨lv, -, r, -, rfl⟩ := mem_lots.mp hy
  exact r.remainingQty.toNat_lt

theorem tradedQty_eventOf {taker : OrderId} {l : List Lot} (h : ∀ f ∈ l, f.2 < 2 ^ 32) :
    tradedQty (l.map (eventOf taker)) = total l := by
  induction l with
  | nil => rfl
  | cons f l ih =>
      have hf : (eventOf taker f).matchQuantity.toNat = f.2 :=
        UInt32.toNat_ofNat_of_lt' (h f List.mem_cons_self)
      rw [List.map_cons, tradedQty_cons, hf, ih fun x hx => h x (List.mem_cons_of_mem _ hx)]
      rfl

/-- Events that are fills, apart from the time, make what is filled. -/
theorem tradedQty_fills {es : List MatchEvent} {taker : OrderId} {l : List Lot}
    (h : es.map Relabelling.identity.event = l.map (eventOf taker))
    (hlt : ∀ f ∈ l, f.2 < 2 ^ 32) : tradedQty es = total l := by
  rw [← Relabelling.identity.tradedQty_events, h, tradedQty_eventOf hlt]

/-- The same for the events of some makers at some prices. -/
theorem tradedQty_filter {es : List MatchEvent} {taker : OrderId} {l : List Lot}
    (h : es.map Relabelling.identity.event = l.map (eventOf taker))
    (hlt : ∀ f ∈ l, f.2 < 2 ^ 32) (keep : Tag → Bool) :
    tradedQty (es.filter fun e => keep ⟨e.matchPrice, e.makerOrderId⟩)
      = total (l.filter fun f => keep f.1) := by
  have hfilter := congrArg (List.filter fun e => keep ⟨e.matchPrice, e.makerOrderId⟩) h
  rw [List.filter_map, List.filter_map] at hfilter
  exact tradedQty_fills hfilter fun f hf => hlt f (List.mem_of_mem_filter hf)

theorem madeQty_fills {es : List MatchEvent} {taker : OrderId} {l : List Lot}
    (h : es.map Relabelling.identity.event = l.map (eventOf taker))
    (hlt : ∀ f ∈ l, f.2 < 2 ^ 32) (x : OrderId) : madeQty x es = amount Tag.id x l :=
  tradedQty_filter h hlt fun tag => decide (tag.id = x)

section Phase

variable {a : Ladder} {id : OrderId} {side : Side} {price : Price} {qty : Quantity}
  {type : OrderType} {m : Swept}

theorem reachable_positive (hwf : a.WF) : Positive (a.reachable side price type) :=
  fun y hy => lots_positive (hwf.side side.opposite).live y (List.mem_of_mem_filter hy)

theorem fills_lt (hwf : a.WF) :
    ∀ f ∈ fills qty.toNat (a.reachable side price type), f.2 < 2 ^ 32 := by
  intro f hf
  obtain ⟨-, y, hy, -, hle⟩ := fills_mem (reachable_positive hwf) hf
  exact Nat.lt_of_le_of_lt hle (lots_lt (List.mem_of_mem_filter hy))

/-- **EVERY EVENT** is the fill of a lot within reach. -/
theorem SweptLots.event (h : SweptLots a id side price qty type m) (hwf : a.WF)
    {e : MatchEvent} (he : e ∈ m.events) : e.takerOrderId = id ∧ 1 ≤ e.matchQuantity
      ∧ ∃ y ∈ a.reachable side price type, y.1.id = e.makerOrderId ∧ y.1.price = e.matchPrice := by
  have hmem := List.mem_map_of_mem (f := Relabelling.identity.event) he
  rw [h.events] at hmem
  obtain ⟨f, hf, heq⟩ := List.mem_map.mp hmem
  obtain ⟨hpos, y, hy, htag, -⟩ := fills_mem (reachable_positive hwf) hf
  have hqty : e.matchQuantity = UInt32.ofNat f.2 :=
    (congrArg MatchEvent.matchQuantity heq).symm
  refine ⟨(congrArg MatchEvent.takerOrderId heq).symm, ?_, y, hy, ?_, ?_⟩
  · rw [hqty, UInt32.le_iff_toNat_le, UInt32.toNat_ofNat_of_lt' (fills_lt hwf f hf)]
    exact hpos
  · rw [htag]
    exact congrArg MatchEvent.makerOrderId heq
  · rw [htag]
    exact congrArg MatchEvent.matchPrice heq

/-- What makers with certain ids trade is what is filled of their lots. -/
theorem SweptLots.madeQty (h : SweptLots a id side price qty type m) (hwf : a.WF)
    (x : OrderId) : madeQty x m.events
      = amount Tag.id x (fills qty.toNat (a.reachable side price type)) :=
  madeQty_fills h.events (fills_lt hwf) x

/-- What the taker trades is what is taken of its demand. -/
theorem SweptLots.takenQty (h : SweptLots a id side price qty type m) (hwf : a.WF) :
    takenQty id m.events + m.left.toNat = qty.toNat := by
  have hall : m.events.filter (fun e => e.takerOrderId = id) = m.events :=
    List.filter_eq_self.mpr fun e he => decide_eq_true (h.event hwf he).1
  rw [Lob.takenQty, hall, tradedQty_fills h.events (fills_lt hwf), total_fills, h.demand]
  omega

/-- **MATCHING** moves what an id holds into the events that name it. -/
theorem SweptLots.held (h : SweptLots a id side price qty type m) (hwf : a.WF)
    (x : OrderId) : Lob.madeQty x m.events + (a.afterSweep side m).held x = a.held x := by
  have hfills := @total_fills_rest Tag qty.toNat (a.reachable side price type)
    fun tag => decide (tag.id = x)
  have hsplit := total_filter (fun y : Lot => beyondLimit side.opposite price type y.1.price)
    ((lots (a.rungs side.opposite)).filter fun y => y.1.id = x)
  rw [List.filter_comm, List.filter_comm (fun y : Lot => !_)] at hsplit
  rw [Ladder.held_eq _ x side, Ladder.held_eq a x side, Ladder.afterSweep_own,
    Ladder.afterSweep_opposite, h.taken, List.filter_append, total_append, h.madeQty hwf,
    amount, ← hsplit, Ladder.unreachable]
  rw [Ladder.reachable] at hfills ⊢
  omega

end Phase

/-! ## Calls -/

section Calls

variable {a : Ladder} {id x : OrderId} {side : Side}

/-- Resting an order adds what remains of it to its id. -/
theorem Ladder.held_insert (hside : SideWF side (a.rungs side)) (price : Price)
    (r : RestingOrder) : (a.setRungs side (insertOrder side price r (a.rungs side))).held x
      = a.held x + if r.id = x then r.remainingQty.toNat else 0 := by
  have hsplit := total_filter (fun y : Lot => decide (side.comparator price y.1.price))
    ((lots (a.rungs side)).filter fun y => y.1.id = x)
  rw [List.filter_comm, List.filter_comm (fun y : Lot => !_)] at hsplit
  rw [Ladder.held_eq _ x side, Ladder.held_eq a x side, Ladder.setRungs_rungs_self,
    Ladder.setRungs_rungs_ne a (Side.opposite_ne side), insertOrder_lots hside, ← hsplit,
    List.filter_append, total_append, List.filter_cons]
  have hlot : decide ((r.lot price).1.id = x) = true ↔ r.id = x := decide_eq_true_iff
  by_cases hr : r.id = x
  · rw [if_pos (hlot.mpr hr), if_pos hr, RestingOrder.lot, total_cons]
    omega
  · rw [if_neg (mt hlot.mp hr), if_neg hr]
    omega

/-- Cancelling another order. -/
theorem Ladder.held_cancel (hx : x ≠ id) :
    ({ a with rungs := fun side => cancelIn id (a.rungs side) } : Ladder).held x = a.held x := by
  have hkeep : ∀ side, (lots (cancelIn id (a.rungs side))).filter (fun y => y.1.id = x)
      = (lots (a.rungs side)).filter fun y => y.1.id = x := by
    intro side
    rw [cancelIn_lots, List.filter_filter]
    refine List.filter_congr fun y _ => ?_
    by_cases hy : y.1.id = x
    · simp [hy, hx]
    · simp [hy]
  rw [Ladder.held_eq _ x .buy, Ladder.held_eq a x .buy, hkeep, hkeep]

/-- **STEP**: a call that does not cancel a resting order moves what it holds into
    the events that name it. -/
theorem Ladder.held_step (hwf : a.WF) {c : Call} (hc : c.op ≠ .cancelOrder x)
    (hrests : a.Rests x) :
    madeQty x (Ladder.step c a).1.returned + (Ladder.step c a).2.held x = a.held x := by
  obtain ⟨op, now⟩ := c
  cases op with
  | cancelOrder id =>
      have hx : x ≠ id := by
        rintro rfl
        exact hc rfl
      show madeQty x (Ladder.cancelOrder id a).1.returned + (Ladder.cancelOrder id a).2.held x = _
      rw [Ladder.cancelOrder]
      split
      · exact (Nat.zero_add _).trans (Ladder.held_cancel hx)
      · exact Nat.zero_add _
  | addOrder id side price qty type =>
      have hswept := (hwf.swept_lots now id side price qty type).held hwf x
      show madeQty x (Ladder.addOrder now id side price qty type a).1.returned
        + (Ladder.addOrder now id side price qty type a).2.held x = _
      have hcase := addOrder_cases now id side price qty type a
      generalize Ladder.addOrder now id side price qty type a = v at hcase ⊢
      obtain ⟨out, b⟩ := v
      cases hcase with
      | rejected => exact Nat.zero_add _
      | refused => exact Nat.zero_add _
      | finished => exact hswept
      | leaked _ _ _ hleft hlimit _ hfull =>
          obtain ⟨hidle, -⟩ := AddCase.leaked_idle hwf hlimit hleft hfull
          rw [show (a.swept now id side price qty type).events = [] from
            congrArg Swept.events hidle] at hswept
          exact hswept
      | rested _ hid =>
          have hne : id ≠ x := by
            rintro rfl
            exact hid hrests
          have hown : (a.afterSweep side (a.swept now id side price qty type)).rungs side
              = a.rungs side := Ladder.afterSweep_own a side _
          have hinsert := Ladder.held_insert (x := x) (hown.symm ▸ hwf.side side) price
            ⟨id, qty, (a.swept now id side price qty type).left⟩
          rw [hown, if_neg hne] at hinsert
          rw [← hswept]
          exact congrArg _ hinsert

/-- **ACCEPTANCE**: there is a slot for the order, and its quantity is what it
    trades in its own call and what is left of it; a LIMIT order holds what is
    left. -/
theorem Ladder.held_accepted (hwf : a.WF) {now : Nat → Timestamp} {price : Price}
    {qty : Quantity} {type : OrderType} (hqty : qty ≠ 0) (hid : ¬ a.Rests id)
    (hout : ∀ f, (Ladder.addOrder now id side price qty type a).1 ≠ .threw f) :
    a.orderCount < a.orderSlots
      ∧ takenQty id (Ladder.addOrder now id side price qty type a).1.returned
        + (a.swept now id side price qty type).left.toNat = qty.toNat
      ∧ (type = .limit → (Ladder.addOrder now id side price qty type a).2.held id
        = (a.swept now id side price qty type).left.toNat) := by
  have hswept := hwf.swept_lots now id side price qty type
  have hnone : (a.afterSweep side (a.swept now id side price qty type)).held id = 0 :=
    Ladder.held_zero (mt rests_afterSweep hid)
  have hcase := addOrder_cases now id side price qty type a
  generalize Ladder.addOrder now id side price qty type a = v at hcase hout ⊢
  obtain ⟨out, b⟩ := v
  cases hcase with
  | rejected hbad => exact absurd hbad (not_or.mpr ⟨hqty, hid⟩)
  | refused => exact absurd rfl (hout _)
  | leaked => exact absurd rfl (hout _)
  | finished _ _ hroom hdone =>
      refine ⟨hroom, hswept.takenQty hwf, fun hlimit => hnone.trans ?_⟩
      have hzero := hdone.resolve_right (not_not.mpr hlimit)
      exact (quantity_zero.mp hzero).symm
  | rested _ _ hroom =>
      refine ⟨hroom, hswept.takenQty hwf, fun _ => ?_⟩
      have hown : (a.afterSweep side (a.swept now id side price qty type)).rungs side
          = a.rungs side := Ladder.afterSweep_own a side _
      have hinsert := Ladder.held_insert (x := id) (hown.symm ▸ hwf.side side) price
        ⟨id, qty, (a.swept now id side price qty type).left⟩
      rw [hown, hnone, if_pos rfl, Nat.zero_add] at hinsert
      exact hinsert

/-- **COUNTERS** grow by the returned events. -/
theorem Ladder.counters_step (hwf : a.WF) (c : Call) :
    (Ladder.step c a).2.trades = a.trades + (Ladder.step c a).1.returned.length
      ∧ (Ladder.step c a).2.volume = a.volume + tradedQty (Ladder.step c a).1.returned := by
  obtain ⟨op, now⟩ := c
  cases op with
  | cancelOrder id =>
      show (Ladder.cancelOrder id a).2.trades
          = a.trades + (Ladder.cancelOrder id a).1.returned.length
        ∧ (Ladder.cancelOrder id a).2.volume
          = a.volume + tradedQty (Ladder.cancelOrder id a).1.returned
      rw [Ladder.cancelOrder]
      split <;> exact ⟨rfl, rfl⟩
  | addOrder id side price qty type =>
      show (Ladder.addOrder now id side price qty type a).2.trades
          = a.trades + (Ladder.addOrder now id side price qty type a).1.returned.length
        ∧ (Ladder.addOrder now id side price qty type a).2.volume
          = a.volume + tradedQty (Ladder.addOrder now id side price qty type a).1.returned
      have hcase := addOrder_cases now id side price qty type a
      generalize Ladder.addOrder now id side price qty type a = v at hcase ⊢
      obtain ⟨out, b⟩ := v
      cases hcase with
      | rejected => exact ⟨rfl, rfl⟩
      | refused => exact ⟨rfl, rfl⟩
      | finished => exact ⟨rfl, rfl⟩
      | rested => exact ⟨rfl, rfl⟩
      | leaked _ _ _ hleft hlimit _ hfull =>
          -- what it traded would be lost, but it has traded nothing
          obtain ⟨hidle, -⟩ := AddCase.leaked_idle hwf hlimit hleft hfull
          rw [hidle]
          exact ⟨rfl, rfl⟩

theorem Ladder.counters_run (hwf : a.WF) (calls : List Call) :
    (Ladder.run calls a).2.trades
        = a.trades + ((Ladder.run calls a).1.flatMap Outcome.returned).length
      ∧ (Ladder.run calls a).2.volume
        = a.volume + tradedQty ((Ladder.run calls a).1.flatMap Outcome.returned) := by
  induction calls generalizing a with
  | nil => exact ⟨rfl, rfl⟩
  | cons c calls ih =>
      obtain ⟨htrades, hvolume⟩ := Ladder.counters_step hwf c
      obtain ⟨htrades', hvolume'⟩ := ih (hwf.step c)
      have houts : (Ladder.run (c :: calls) a).1.flatMap Outcome.returned
          = (Ladder.step c a).1.returned
            ++ (Ladder.run calls (Ladder.step c a).2).1.flatMap Outcome.returned := rfl
      rw [houts, List.length_append, tradedQty_append, ← Nat.add_assoc, ← Nat.add_assoc,
        ← htrades, ← hvolume]
      exact ⟨htrades', hvolume'⟩

end Calls

end Lob
