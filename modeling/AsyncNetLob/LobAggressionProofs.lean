import AsyncNetLob.LobExecutionProofs
import AsyncNetLob.LobReferenceProofs
import AsyncNetLob.LobTracelessProofs

/-! # A more aggressive limit only extends the execution

    From the same book an order with a better price for the makers, or none, gets
    the events of the other order and then some more, and leaves on the other side
    what the other order leaves less those further fills.

    The lots within the tighter limit are the first of those within the wider one
    (`reachable_wider`), and filling starts with them whatever comes after
    (`fills_append`). -/

namespace Lob

open GreedyFill

/-! ## Levels after some fills -/

/-- What fills leave of an order. -/
def RestingOrder.after (es : List MatchEvent) (r : RestingOrder) : Option RestingOrder :=
  if r.remainingQty.toNat - madeQty r.id es = 0 then none
  else some { r with remainingQty := UInt32.ofNat (r.remainingQty.toNat - madeQty r.id es) }

/-- What they leave of a level, its cached volume aside. -/
def Rung.after (es : List MatchEvent) (lv : Rung) : Option Rung :=
  let orders := lv.orders.filterMap (RestingOrder.after es)
  if orders = [] then none else some { lv with orders := orders }

/-- The levels that are left of a side after the makers of some events were filled. -/
def afterFills (es : List MatchEvent) (rungs : List Rung) : List Rung :=
  rungs.filterMap (Rung.after es)

section After

variable {es : List MatchEvent} {lv lv' : Rung} {r r' : RestingOrder} {rungs : List Rung}

theorem shrink_toNat (q : Quantity) (n : ℕ) :
    (UInt32.ofNat (q.toNat - n)).toNat = q.toNat - n :=
  UInt32.toNat_ofNat_of_lt' (Nat.lt_of_le_of_lt (Nat.sub_le _ _) q.toNat_lt)

theorem RestingOrder.after_eq (h : r.after es = some r') :
    r'.id = r.id ∧ r'.quantity = r.quantity ∧ 0 < r'.remainingQty
      ∧ r'.remainingQty ≤ r.remainingQty := by
  rw [RestingOrder.after] at h
  by_cases hz : r.remainingQty.toNat - madeQty r.id es = 0
  · rw [if_pos hz] at h
    cases h
  · rw [if_neg hz] at h
    obtain rfl := Option.some.inj h
    have hnat := shrink_toNat r.remainingQty (madeQty r.id es)
    refine ⟨rfl, rfl, quantity_pos.mpr ?_, UInt32.le_iff_toNat_le.mpr ?_⟩
    · show 0 < (UInt32.ofNat _).toNat
      omega
    · show (UInt32.ofNat _).toNat ≤ _
      omega

theorem Rung.after_eq (h : lv.after es = some lv') :
    lv'.price = lv.price ∧ lv'.orders ≠ []
      ∧ lv'.orders = lv.orders.filterMap (RestingOrder.after es) := by
  rw [Rung.after] at h
  by_cases hnil : lv.orders.filterMap (RestingOrder.after es) = []
  · rw [if_pos hnil] at h
    cases h
  · rw [if_neg hnil] at h
    obtain rfl := Option.some.inj h
    exact ⟨rfl, hnil, rfl⟩

/-- Fills keep a side well-formed. -/
theorem SideWF.afterFills {side : Side} (h : SideWF side rungs) :
    SideWF side (Lob.afterFills es rungs) := by
  refine ⟨?_, ?_, ?_⟩
  · refine h.sorted.sublist ?_
    clear h
    induction rungs with
    | nil => exact List.Sublist.refl _
    | cons lv rungs ih =>
        rw [Lob.afterFills, List.filterMap_cons]
        cases hlv : lv.after es with
        | none => exact ih.cons _
        | some lv' =>
            rw [List.map_cons, List.map_cons, (Rung.after_eq hlv).1]
            exact ih.cons_cons _
  · intro lv' hlv'
    obtain ⟨lv, -, hafter⟩ := List.mem_filterMap.mp hlv'
    exact (Rung.after_eq hafter).2.1
  · intro lv' hlv' r' hr'
    obtain ⟨lv, hlv, hafter⟩ := List.mem_filterMap.mp hlv'
    rw [(Rung.after_eq hafter).2.2] at hr'
    obtain ⟨r, hr, hrest⟩ := List.mem_filterMap.mp hr'
    obtain ⟨-, hqty, hpos, hle⟩ := RestingOrder.after_eq hrest
    rw [hqty]
    exact ⟨hpos, UInt32.le_trans hle (h.live lv hlv r hr).2⟩

/-- The lots lose what was filled under their ids. -/
theorem afterFills_lots (es : List MatchEvent) (rungs : List Rung) :
    lots (afterFills es rungs) = drain Tag.id (fun x => madeQty x es) (lots rungs) := by
  -- order by order, and then level by level
  have hqueue : ∀ (price : Price) (rs : List RestingOrder),
      lotsOf price (rs.filterMap (RestingOrder.after es))
        = drain Tag.id (fun x => madeQty x es) (lotsOf price rs) := by
    intro price rs
    induction rs with
    | nil => rfl
    | cons r rs ih =>
        rw [List.filterMap_cons, lotsOf_cons, RestingOrder.lot, drain_cons, ← ih,
          RestingOrder.after]
        by_cases hz : r.remainingQty.toNat - madeQty r.id es = 0
        · rw [if_pos hz, if_pos hz]
          rfl
        · rw [if_neg hz, if_neg hz]
          dsimp only
          rw [lotsOf_cons, RestingOrder.lot, shrink_toNat]
          rfl
  induction rungs with
  | nil => rfl
  | cons lv rungs ih =>
      rw [lots_cons, drain_append, ← hqueue, ← ih, afterFills, List.filterMap_cons, Rung.after]
      by_cases hnil : lv.orders.filterMap (RestingOrder.after es) = []
      · rw [if_pos hnil, hnil]
        rfl
      · rw [if_neg hnil]
        rfl

end After

/-! ## Two limits -/

section Limits

variable {a b b' : Ladder} {now now' : Nat → Timestamp} {id : OrderId} {side : Side}
  {price price' : Price} {qty : Quantity} {type type' : OrderType} {es es' : List MatchEvent}

/-- The second limit lets an order reach all that the first one does. -/
def Wider (side : Side) (price : Price) (type : OrderType) (price' : Price)
    (type' : OrderType) : Prop :=
  ∀ p, beyondLimit side.opposite price' type' p = true →
    beyondLimit side.opposite price type p = true

/-- A better price for the makers is a wider limit. -/
theorem Wider.limit (h : side.Accepts price' price) : Wider side price .limit price' .limit := by
  intro p hp
  have hlimit : decide (OrderType.limit = .limit) = true := by decide
  rw [beyondLimit, hlimit, Bool.true_and, decide_eq_true_iff] at hp ⊢
  cases side with
  | buy => exact UInt64.lt_of_le_of_lt h hp
  | sell => exact UInt64.lt_of_lt_of_le hp h

/-- No limit is wider than any. -/
theorem Wider.market : Wider side price type price' .market := by
  intro p hp
  cases hp

/-- **THE WIDER REACH** starts with the tighter one. -/
theorem reachable_wider (hwf : a.WF) (h : Wider side price type price' type') :
    ∃ M, a.reachable side price' type' = a.reachable side price type ++ M
      ∧ a.unreachable side price type = M ++ a.unreachable side price' type' := by
  have hsplit := hwf.reach_split side price type
  have hsplit' := hwf.reach_split side price' type'
  have hnear : (a.reachable side price type).filter
      (fun x => !beyondLimit side.opposite price' type' x.1.price)
      = a.reachable side price type := by
    refine List.filter_eq_self.mpr fun x hx => ?_
    have hreach := (List.mem_filter.mp hx).2
    rw [Bool.not_eq_true'] at hreach ⊢
    exact Bool.eq_false_iff.mpr fun hb => Bool.eq_false_iff.mp hreach (h _ hb)
  have hwider : a.reachable side price' type' = a.reachable side price type
      ++ (a.unreachable side price type).filter
        (fun x => !beyondLimit side.opposite price' type' x.1.price) := by
    rw [Ladder.reachable, ← hsplit, List.filter_append, hnear]
  refine ⟨_, hwider, ?_⟩
  rw [hwider, ← hsplit, List.append_assoc] at hsplit'
  exact (List.append_cancel_left hsplit').symm

/-- **TWO EXECUTIONS** from the same ladder: the second one goes on where the first
    one ends. -/
theorem Executed.further (h : Executed a id side price qty type es b)
    (h' : Executed a id side price' qty type' es' b') (hwf : a.WF)
    (hwider : Wider side price type price' type') :
    ∃ more, es'.map Relabelling.identity.event = es.map Relabelling.identity.event ++ more
      ∧ lots (b'.rungs side.opposite) = lots (afterFills more (b.rungs side.opposite)) := by
  obtain ⟨M, hreach, hunreach⟩ := reachable_wider hwf hwider
  have hsplit := hwf.reach_split side price type
  have hpos := lots_positive (hwf.side side.opposite).live
  have hnames := hwf.lots_nodup side.opposite
  have hlt : ∀ y ∈ lots (a.rungs side.opposite), y.2 < 2 ^ 32 := fun y hy => lots_lt hy
  rw [hunreach] at hsplit
  rw [← hsplit] at hpos hnames hlt
  rw [List.Nodup, List.pairwise_map] at hnames
  obtain ⟨-, hlater, hfirst⟩ := List.pairwise_append.mp hnames
  obtain ⟨hM, -, hlast⟩ := List.pairwise_append.mp hlater
  have hposM : Positive M :=
    fun y hy => hpos y (List.mem_append_right _ (List.mem_append_left _ hy))
  -- the further events are the fills of what only the wider limit reaches
  generalize hleft : qty.toNat - total (a.reachable side price type) = left
  have hmade : ∀ x, madeQty x ((fills left M).map (eventOf id))
      = amount Tag.id x (fills left M) := by
    refine madeQty_fills (List.map_map ..) fun f hf => ?_
    obtain ⟨-, y, hy, -, hle⟩ := fills_mem hposM hf
    have hy := hlt y (List.mem_append_right _ (List.mem_append_left _ hy))
    exact Nat.lt_of_le_of_lt hle hy
  refine ⟨(fills left M).map (eventOf id), ?_, ?_⟩
  · rw [h'.events, h.events, hreach, fills_append, hleft, List.map_append]
  · -- only what the wider limit adds is drained
    have hidle : drain Tag.id (fun x => madeQty x ((fills left M).map (eventOf id)))
        (rest qty.toNat (a.reachable side price type))
        = rest qty.toNat (a.reachable side price type) := by
      refine drain_idle (Positive.rest (reachable_positive hwf)) fun y hy => ?_
      have hkey := rest_keys.subset (List.mem_map_of_mem (f := Prod.fst) hy)
      obtain ⟨x, hx, htag⟩ := List.mem_map.mp hkey
      rw [hmade]
      refine amount_fills_absent fun z hz => ?_
      rw [← htag]
      exact (hfirst x hx z (List.mem_append_left _ hz)).symm
    have hidle' : drain Tag.id (fun x => madeQty x ((fills left M).map (eventOf id)))
        (a.unreachable side price' type') = a.unreachable side price' type' := by
      refine drain_idle ?_ fun y hy => ?_
      · exact fun y hy => hpos y (List.mem_append_right _ (List.mem_append_right _ hy))
      · rw [hmade]
        exact amount_fills_absent fun z hz => hlast z hz y hy
    have hfilled : drain Tag.id (fun x => madeQty x ((fills left M).map (eventOf id))) M
        = rest left M := by
      rw [rest_eq_drain hposM (List.pairwise_map.mpr hM)]
      exact drain_congr fun y _ => hmade y.1.id
    rw [afterFills_lots, h.other, h'.other, hunreach, drain_append, drain_append, hidle, hfilled,
      hidle', hreach, rest_append hposM, hleft, List.append_assoc]

/-- A call that is not an order: nothing happens in either. -/
theorem further_rejected (rungs : List Rung) (h : SideWF side rungs) :
    lots rungs = lots (afterFills [] rungs) := by
  rw [afterFills_lots]
  exact (drain_idle (lots_positive h.live) fun y _ => madeQty_nil y.1.id).symm

/-- **TWO CALLS** on the same ladder. -/
theorem addOrder_further (hwf : a.WF) (hwider : Wider side price type price' type')
    (hno : ∀ f, (Ladder.addOrder now id side price qty type a).1 ≠ .threw f)
    (hno' : ∀ f, (Ladder.addOrder now' id side price' qty type' a).1 ≠ .threw f) :
    ∃ es b es' b', Ladder.addOrder now id side price qty type a = (.events es, b)
      ∧ Ladder.addOrder now' id side price' qty type' a = (.events es', b')
      ∧ ∃ more, es'.map Relabelling.identity.event = es.map Relabelling.identity.event ++ more
        ∧ lots (b'.rungs side.opposite) = lots (afterFills more (b.rungs side.opposite)) := by
  by_cases hbad : qty = 0 ∨ a.Rests id
  · refine ⟨[], a, [], a, (AddCase.rejected hbad).eq, (AddCase.rejected hbad).eq, [], rfl, ?_⟩
    exact further_rejected _ (hwf.side side.opposite)
  · obtain ⟨hqty, hid⟩ := not_or.mp hbad
    obtain ⟨es, b, hout, h⟩ := addOrder_executed hwf hqty hid hno
    obtain ⟨es', b', hout', h'⟩ := addOrder_executed hwf hqty hid hno'
    exact ⟨es, b, es', b', hout, hout', h.further h' hwf hwider⟩

/-- Where a LIMIT order does not throw, a MARKET order does not. -/
theorem market_returns (hno : ∀ f, (Ladder.addOrder now id side price qty .limit a).1 ≠ .threw f) :
    ∀ f, (Ladder.addOrder now' id side price' qty .market a).1 ≠ .threw f := by
  intro f
  have hcase := addOrder_cases now' id side price' qty .market a
  generalize Ladder.addOrder now' id side price' qty .market a = v at hcase
  obtain ⟨out, b⟩ := v
  -- a MARKET order opens no level, so it throws only for want of an order slot
  cases hcase with
  | rejected => exact Outcome.noConfusion
  | refused hqty hid hfull =>
      have hlimit : AddCase now id side price qty .limit _ _ _ := .refused hqty hid hfull
      exact absurd (congrArg Prod.fst hlimit.eq) (hno _)
  | leaked _ _ _ _ hlimit => cases hlimit
  | rested => exact Outcome.noConfusion
  | finished => exact Outcome.noConfusion

end Limits

/-! ## In the book -/

/-- From one book, calls with the events `es` and `es'` left the books `s` and `s'`:
    the second call goes on where the first one ends, and its further fills are all
    that it changes on the side it takes from. -/
def Extended (side : Side) (s s' : OrderBook) (es es' : List MatchEvent) : Prop :=
  ∃ more, es'.map Relabelling.identity.event = es.map Relabelling.identity.event ++ more
    ∧ (s'.levels side).map Rung.shape = (afterFills more (s.levels side)).map Rung.shape

/-- **A MORE AGGRESSIVE LIMIT** only extends the execution, and no limit extends it
    further. -/
theorem reached_extended {s : OrderBook} (hs : s.Reachable) {now now' now'' : Nat → Timestamp}
    {id : OrderId} {side : Side} {p p' r : Price} {qty : Quantity} (hp : side.Accepts p' p)
    (hno : ∀ f, (OrderBook.step ⟨.addOrder id side p qty .limit, now⟩ s).1 ≠ .threw f)
    (hno' : ∀ f, (OrderBook.step ⟨.addOrder id side p' qty .limit, now'⟩ s).1 ≠ .threw f) :
    ∃ es es' es'', (OrderBook.step ⟨.addOrder id side p qty .limit, now⟩ s).1 = .events es
      ∧ (OrderBook.step ⟨.addOrder id side p' qty .limit, now'⟩ s).1 = .events es'
      ∧ (OrderBook.step ⟨.addOrder id side r qty .market, now''⟩ s).1 = .events es''
      ∧ Extended side.opposite (OrderBook.step ⟨.addOrder id side p qty .limit, now⟩ s).2
        (OrderBook.step ⟨.addOrder id side p' qty .limit, now'⟩ s).2 es es'
      ∧ Extended side.opposite (OrderBook.step ⟨.addOrder id side p' qty .limit, now'⟩ s).2
        (OrderBook.step ⟨.addOrder id side r qty .market, now''⟩ s).2 es' es'' := by
  obtain ⟨maxOrders, maxLevels, before, rfl⟩ := hs
  obtain ⟨q, hrep⟩ := Rep.reached maxOrders maxLevels before
  have hwf := Ladder.WF.reached maxOrders maxLevels before
  generalize OrderBook.reached maxOrders maxLevels before = s at *
  generalize Ladder.reached maxOrders maxLevels before = a at *
  have hlift : ∀ (c c' : Call) {es es' : List MatchEvent},
      (∃ more, es'.map Relabelling.identity.event = es.map Relabelling.identity.event ++ more
        ∧ lots ((Ladder.step c' a).2.rungs side.opposite)
          = lots (afterFills more ((Ladder.step c a).2.rungs side.opposite))) →
      Extended side.opposite (OrderBook.step c s).2 (OrderBook.step c' s).2 es es' := by
    rintro c c' es es' ⟨more, hevents, hlots⟩
    obtain ⟨-, k, hrep₁⟩ := step_refines hrep c
    obtain ⟨-, k', hrep₂⟩ := step_refines hrep c'
    refine ⟨more, hevents, ?_⟩
    rw [hrep₁.levels_eq, hrep₂.levels_eq]
    exact shape_of_lots ((hwf.step c').side _) ((hwf.step c).side _).afterFills hlots
  rw [(step_refines hrep _).1] at hno hno'
  obtain ⟨es, b, es', b', hout, hout', hmore⟩ := addOrder_further hwf (Wider.limit hp) hno hno'
  obtain ⟨es₁, b₁, es'', b'', hout₁, hout'', hmore'⟩ :=
    addOrder_further hwf (Wider.market : Wider side p' .limit r .market) hno' (market_returns hno')
  obtain ⟨hes, rfl⟩ := Prod.mk.inj (hout'.symm.trans hout₁)
  obtain rfl := Outcome.events.inj hes
  have hstep : Ladder.step ⟨.addOrder id side p qty .limit, now⟩ a = (.events es, b) := hout
  have hstep' : Ladder.step ⟨.addOrder id side p' qty .limit, now'⟩ a = (.events es', b') := hout'
  have hstep'' : Ladder.step ⟨.addOrder id side r qty .market, now''⟩ a = (.events es'', b'') :=
    hout''
  refine ⟨es, es', es'', ?_, ?_, ?_, hlift _ _ ?_, hlift _ _ ?_⟩
  · rw [(step_refines hrep _).1, hstep]
  · rw [(step_refines hrep _).1, hstep']
  · rw [(step_refines hrep _).1, hstep'']
  · rw [hstep, hstep']
    exact hmore
  · rw [hstep', hstep'']
    exact hmore'

/-- Limits of one level, of two levels, and none. -/
theorem reached_extended_levels : ∃ es es' es'',
    Extended .sell
      (OrderBook.step ⟨.addOrder 9 .buy 100 6 .limit, fun _ => 0⟩
        (OrderBook.reached defaultMaxOrders defaultMaxLevels
          [⟨.addOrder 1 .sell 100 2 .limit, fun _ => 0⟩,
            ⟨.addOrder 2 .sell 101 2 .limit, fun _ => 0⟩,
            ⟨.addOrder 3 .sell 102 5 .limit, fun _ => 0⟩])).2
      (OrderBook.step ⟨.addOrder 9 .buy 101 6 .limit, fun _ => 0⟩
        (OrderBook.reached defaultMaxOrders defaultMaxLevels
          [⟨.addOrder 1 .sell 100 2 .limit, fun _ => 0⟩,
            ⟨.addOrder 2 .sell 101 2 .limit, fun _ => 0⟩,
            ⟨.addOrder 3 .sell 102 5 .limit, fun _ => 0⟩])).2 es es'
      ∧ Extended .sell
        (OrderBook.step ⟨.addOrder 9 .buy 101 6 .limit, fun _ => 0⟩
          (OrderBook.reached defaultMaxOrders defaultMaxLevels
            [⟨.addOrder 1 .sell 100 2 .limit, fun _ => 0⟩,
              ⟨.addOrder 2 .sell 101 2 .limit, fun _ => 0⟩,
              ⟨.addOrder 3 .sell 102 5 .limit, fun _ => 0⟩])).2
        (OrderBook.step ⟨.addOrder 9 .buy 0 6 .market, fun _ => 0⟩
          (OrderBook.reached defaultMaxOrders defaultMaxLevels
            [⟨.addOrder 1 .sell 100 2 .limit, fun _ => 0⟩,
              ⟨.addOrder 2 .sell 101 2 .limit, fun _ => 0⟩,
              ⟨.addOrder 3 .sell 102 5 .limit, fun _ => 0⟩])).2 es' es'' := by
  have htight := @OrderBook.Accepted.of_events
    (OrderBook.reached defaultMaxOrders defaultMaxLevels
      [⟨.addOrder 1 .sell 100 2 .limit, fun _ => 0⟩, ⟨.addOrder 2 .sell 101 2 .limit, fun _ => 0⟩,
        ⟨.addOrder 3 .sell 102 5 .limit, fun _ => 0⟩])
    (fun _ => 0) 9 .buy 100 6 .limit [⟨1, 9, 100, 2, 0⟩]
    (by decide) (by decide +kernel) (by decide +kernel)
  have hwide := @OrderBook.Accepted.of_events
    (OrderBook.reached defaultMaxOrders defaultMaxLevels
      [⟨.addOrder 1 .sell 100 2 .limit, fun _ => 0⟩, ⟨.addOrder 2 .sell 101 2 .limit, fun _ => 0⟩,
        ⟨.addOrder 3 .sell 102 5 .limit, fun _ => 0⟩])
    (fun _ => 0) 9 .buy 101 6 .limit [⟨1, 9, 100, 2, 0⟩, ⟨2, 9, 101, 2, 0⟩]
    (by decide) (by decide +kernel) (by decide +kernel)
  obtain ⟨es, es', es'', -, -, -, h, h'⟩ := reached_extended (r := 0) ⟨_, _, _, rfl⟩
    (by decide : Side.Accepts .buy 101 100) htight.returns hwide.returns
  exact ⟨es, es', es'', h, h'⟩

end Lob
