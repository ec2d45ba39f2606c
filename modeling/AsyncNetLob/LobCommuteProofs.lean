import AsyncNetLob.LobExecutionProofs
import AsyncNetLob.LobMirrorProofs
import AsyncNetLob.LobReferenceProofs
import AsyncNetLob.LobTracelessProofs

/-! # Independent operations commute

    A PASSIVE operation cancels a resting order or rests a new one that crosses
    nothing.  In lots it filters a side or inserts into it (`Op.onLots`), and two of
    them on different orders commute (`onLots_comm`), whatever levels and slots come
    and go on the way. -/

namespace Lob

open GreedyFill

/-! ## Operations on lots -/

/-- What a passive operation does to a side. -/
def Op.onLots (op : Op) (side : Side) (l : List Lot) : List Lot :=
  match op with
  | .addOrder id side' price qty _ =>
      if side' = side then restLot side ⟨price, id⟩ qty.toNat l else l
  | .cancelOrder id => l.filter fun y => y.1.id ≠ id

/-- Two additions that do not meet: not at one price of a side, and not crossing. -/
def Op.Apart : Op → Op → Prop
  | .addOrder _ side price _ _, .addOrder _ side' price' _ _ =>
      (side' = side → price' ≠ price) ∧ (side' = side.opposite → ¬ side.Accepts price price')
  | _, _ => True

section Lots

variable {side : Side} {tag tag' : Tag} {n n' : ℕ} {l : List Lot} {op op' : Op}

/-- Cancelling another order before or after one comes to rest. -/
theorem restLot_filter {id : OrderId} (h : tag.id ≠ id) :
    (restLot side tag n l).filter (fun y => y.1.id ≠ id)
      = restLot side tag n (l.filter fun y => y.1.id ≠ id) := by
  rw [restLot, restLot, List.filter_append, List.filter_cons_of_pos (by simpa using h),
    List.filter_comm, List.filter_comm (fun y : Lot => decide (side.comparator _ y.1.price))]

/-- The better one before or after the other one. -/
theorem restLot_better (h : side.comparator tag.price tag'.price) :
    restLot side tag' n' (restLot side tag n l) = restLot side tag n (restLot side tag' n' l) := by
  have hbehind : ¬ side.comparator tag'.price tag.price := asymm_of side.comparator h
  -- what is worse than the second price is worse than the first one
  have hnone : (l.filter fun x => !decide (side.comparator tag.price x.1.price)).filter
      (fun x => decide (side.comparator tag'.price x.1.price)) = [] := by
    rw [List.filter_filter, List.filter_eq_nil_iff]
    intro x _
    simpa using fun hx => trans_of side.comparator h hx
  have hnone' : (l.filter fun x => decide (side.comparator tag'.price x.1.price)).filter
      (fun x => !decide (side.comparator tag.price x.1.price)) = [] := by
    rw [List.filter_comm, hnone]
  have hfront : (restLot side tag n l).filter
      (fun x => !decide (side.comparator tag'.price x.1.price))
      = (l.filter fun x => !decide (side.comparator tag.price x.1.price)).filter
          (fun x => !decide (side.comparator tag'.price x.1.price))
        ++ (tag, n) :: (l.filter fun x => decide (side.comparator tag.price x.1.price)).filter
          (fun x => !decide (side.comparator tag'.price x.1.price)) := by
    rw [restLot, List.filter_append, List.filter_cons_of_pos (by simpa using hbehind)]
  have hback : (restLot side tag n l).filter
      (fun x => decide (side.comparator tag'.price x.1.price))
      = (l.filter fun x => decide (side.comparator tag.price x.1.price)).filter
          (fun x => decide (side.comparator tag'.price x.1.price)) := by
    rw [restLot, List.filter_append, List.filter_cons_of_neg (by simpa using hbehind), hnone,
      List.nil_append]
  have hfront' : (restLot side tag' n' l).filter
      (fun x => !decide (side.comparator tag.price x.1.price))
      = (l.filter fun x => !decide (side.comparator tag.price x.1.price)).filter
          (fun x => !decide (side.comparator tag'.price x.1.price)) := by
    rw [restLot, List.filter_append, List.filter_cons_of_neg (by simpa using h), hnone',
      List.append_nil, List.filter_comm]
  have hback' : (restLot side tag' n' l).filter
      (fun x => decide (side.comparator tag.price x.1.price))
      = (l.filter fun x => decide (side.comparator tag.price x.1.price)).filter
          (fun x => !decide (side.comparator tag'.price x.1.price))
        ++ (tag', n') :: (l.filter fun x => decide (side.comparator tag.price x.1.price)).filter
          (fun x => decide (side.comparator tag'.price x.1.price)) := by
    rw [restLot, List.filter_append, List.filter_cons_of_pos (by simpa using h), List.filter_comm,
      List.filter_comm (fun x : Lot => decide (side.comparator tag.price x.1.price))]
  rw [restLot, hfront, hback, restLot, hfront', hback', List.append_assoc, List.cons_append]

/-- Two orders come to rest at different prices. -/
theorem restLot_comm (h : tag'.price ≠ tag.price) :
    restLot side tag' n' (restLot side tag n l) = restLot side tag n (restLot side tag' n' l) := by
  by_cases hbetter : side.comparator tag.price tag'.price
  · exact restLot_better hbetter
  · by_cases hworse : side.comparator tag'.price tag.price
    · exact (restLot_better hworse).symm
    · exact absurd (SortedMap.key_eq hworse hbetter) h

/-- **INDEPENDENT** operations commute on every side. -/
theorem onLots_comm (hid : op.id ≠ op'.id) (hapart : op.Apart op') (side : Side) (l : List Lot) :
    op'.onLots side (op.onLots side l) = op.onLots side (op'.onLots side l) := by
  cases op with
  | cancelOrder id =>
      cases op' with
      | cancelOrder id' => exact List.filter_comm ..
      | addOrder id' side' price' qty' type' =>
          rw [Op.onLots, Op.onLots]
          by_cases hs : side' = side
          · rw [if_pos hs, if_pos hs]
            exact (restLot_filter (fun heq => hid heq.symm)).symm
          · rw [if_neg hs, if_neg hs]
  | addOrder id side₁ price qty type =>
      cases op' with
      | cancelOrder id' =>
          rw [Op.onLots, Op.onLots]
          by_cases hs : side₁ = side
          · rw [if_pos hs, if_pos hs]
            exact restLot_filter hid
          · rw [if_neg hs, if_neg hs]
      | addOrder id' side₂ price' qty' type' =>
          rw [Op.onLots, Op.onLots, Op.onLots, Op.onLots]
          by_cases hs : side₁ = side
          · by_cases hs' : side₂ = side
            · rw [if_pos hs, if_pos hs', if_pos hs, if_pos hs']
              exact restLot_comm (hapart.1 (hs'.trans hs.symm))
            · rw [if_neg hs', if_neg hs']
          · rw [if_neg hs, if_neg hs]

end Lots

/-! ## On the ladder -/

/-- What a passive operation returns. -/
def Op.passiveOutcome : Op → Outcome
  | .addOrder .. => .events []
  | .cancelOrder _ => .cancelled true

/-- A resting order is cancelled, or a new one crosses no order of the other side. -/
inductive Ladder.Passive (a : Ladder) : Op → Prop where
  | cancel {id : OrderId} (hrests : a.Rests id) : a.Passive (.cancelOrder id)
  | add {id : OrderId} {side : Side} {price : Price} {qty : Quantity} (hqty : qty ≠ 0)
      (hfresh : ¬ a.Rests id)
      (hfar : ∀ y ∈ lots (a.rungs side.opposite),
        beyondLimit side.opposite price .limit y.1.price = true) :
      a.Passive (.addOrder id side price qty .limit)

/-- The ladder `b` is the ladder `a` after a passive operation. -/
structure Performed (op : Op) (a b : Ladder) : Prop where
  rungs  : ∀ side, lots (b.rungs side) = op.onLots side (lots (a.rungs side))
  trades : b.trades = a.trades
  volume : b.volume = a.volume

section Ladders

variable {a b : Ladder} {op op' : Op}

/-- **A PASSIVE OPERATION** that does not throw returns nothing but its flag. -/
theorem Ladder.Passive.step (hwf : a.WF) {c : Call} (h : a.Passive c.op)
    (hno : ∀ f, (Ladder.step c a).1 ≠ .threw f) :
    (Ladder.step c a).1 = c.op.passiveOutcome ∧ Performed c.op a (Ladder.step c a).2 := by
  obtain ⟨op, now⟩ := c
  cases h with
  | cancel hrests =>
      rename_i id
      have hstep : Ladder.step ⟨.cancelOrder id, now⟩ a
          = (.cancelled true, { a with rungs := fun side => cancelIn id (a.rungs side) }) :=
        if_pos hrests
      rw [hstep]
      exact ⟨rfl, fun side => cancelIn_lots id (a.rungs side), rfl, rfl⟩
  | add hqty hfresh hfar =>
      rename_i id side price qty
      obtain ⟨es, b, hstep, h⟩ :=
        @addOrder_executed a now id side price qty .limit hwf hqty hfresh hno
      -- nothing is within reach, so nothing is filled and all of it rests
      have hreach : a.reachable side price .limit = [] :=
        List.filter_eq_nil_iff.mpr fun y hy => by simpa using hfar y hy
      have hunreach : a.unreachable side price .limit = lots (a.rungs side.opposite) :=
        List.filter_eq_self.mpr hfar
      have hevents := h.events
      rw [hreach, fills_nil, List.map_nil, List.map_eq_nil_iff] at hevents
      subst hevents
      have hpos : 0 < qty.toNat := Nat.pos_of_ne_zero (mt quantity_zero.mpr hqty)
      have hown := h.own
      rw [hreach, total_nil, if_pos ⟨rfl, hpos⟩, Nat.sub_zero] at hown
      have hother := h.other
      rw [hreach, rest_nil, hunreach, List.nil_append] at hother
      have hcall : Ladder.step ⟨.addOrder id side price qty .limit, now⟩ a = (.events [], b) :=
        hstep
      rw [hcall]
      refine ⟨rfl, fun s => ?_, h.trades, h.volume⟩
      show _ = if side = s then _ else _
      by_cases hs : side = s
      · subst hs
        rw [if_pos rfl, hown]
      · have hopp : s = side.opposite := Side.eq_opposite (Ne.symm hs)
        rw [if_neg hs, hopp, hother]

/-- An order that is not the operation's own rests before and after it. -/
theorem Performed.rests_iff (h : Performed op a b) {id : OrderId} (hid : id ≠ op.id) :
    b.Rests id ↔ a.Rests id := by
  have hmem : ∀ (side : Side) (y : Lot), y.1.id ≠ op.id →
      (y ∈ lots (b.rungs side) ↔ y ∈ lots (a.rungs side)) := by
    intro side y hy
    rw [h.rungs]
    cases op with
    | cancelOrder id' =>
        rw [Op.onLots, List.mem_filter]
        exact and_iff_left (decide_eq_true hy)
    | addOrder id' side' price qty type =>
        rw [Op.onLots]
        split
        · rw [(restLot_perm _ _ _ _).mem_iff, List.mem_cons]
          refine or_iff_right ?_
          rintro rfl
          exact hy rfl
        · exact Iff.rfl
  rw [rests_lots, rests_lots]
  constructor
  · rintro ⟨side, y, hy, rfl⟩
    exact ⟨side, y, (hmem side y hid).mp hy, rfl⟩
  · rintro ⟨side, y, hy, rfl⟩
    exact ⟨side, y, (hmem side y hid).mpr hy, rfl⟩

/-- **STILL PASSIVE** after an independent one. -/
theorem Ladder.Passive.after (h : a.Passive op') (hdone : Performed op a b)
    (hid : op.id ≠ op'.id) (hapart : op'.Apart op) : b.Passive op' := by
  cases h with
  | cancel hrests => exact .cancel ((hdone.rests_iff hid.symm).mpr hrests)
  | add hqty hfresh hfar =>
      rename_i id side price qty
      refine .add hqty (mt (hdone.rests_iff hid.symm).mp hfresh) fun y hy => ?_
      rw [hdone.rungs] at hy
      cases op with
      | cancelOrder id' => exact hfar y (List.mem_of_mem_filter hy)
      | addOrder id' side' price' qty' type' =>
          rw [Op.onLots] at hy
          split at hy
          · next hs =>
              rcases List.mem_cons.mp ((restLot_perm _ _ _ _).subset hy) with rfl | hy
              · -- the other operation's order does not cross this one
                have hno := hapart.2 hs
                cases hb : beyondLimit side.opposite price .limit price' with
                | true => rfl
                | false => exact absurd (accepts_iff.mpr hb rfl) hno
              · exact hfar y hy
          · exact hfar y hy

theorem Op.Apart.symm (h : op.Apart op') : op'.Apart op := by
  cases op with
  | cancelOrder id => cases op' <;> exact trivial
  | addOrder id side price qty type =>
      cases op' with
      | cancelOrder id' => exact trivial
      | addOrder id' side' price' qty' type' =>
          refine ⟨fun hs heq => h.1 hs.symm heq.symm, fun hs haccept => ?_⟩
          subst hs
          rw [Op.Apart, Side.opposite_opposite] at h
          refine h.2 rfl ?_
          cases side' with
          | buy => exact haccept
          | sell => exact haccept

end Ladders

/-! ## In the book -/

/-- A resting order is cancelled, or a LIMIT order with a free id crosses no resting
    order of the other side. -/
inductive OrderBook.Passive (s : OrderBook) : Op → Prop where
  | cancel {id : OrderId} (hrests : s.orderMap.lookup id ≠ none) : s.Passive (.cancelOrder id)
  | add {id : OrderId} {side : Side} {price : Price} {qty : Quantity} (hqty : 0 < qty)
      (hfresh : s.orderMap.lookup id = none)
      (hfar : ∀ x, s.Resting x → x.side = side.opposite → ¬ side.Accepts price x.price) :
      s.Passive (.addOrder id side price qty .limit)

theorem Rep.passive {s : OrderBook} {q : LevelPtr → List OrderPtr} {a : Ladder} (h : Rep s q a)
    {op : Op} (hop : s.Passive op) : a.Passive op := by
  cases hop with
  | cancel hrests => exact .cancel (h.rests_iff.mpr hrests)
  | add hqty hfresh hfar =>
      rename_i id side price qty
      refine .add (mt quantity_zero.mp (quantity_pos.mp hqty).ne') (h.lookup_none.mp hfresh) ?_
      intro y hy
      obtain ⟨x, hx, -, hprice, hside, -⟩ := h.lot_resting hy
      have hno := hfar x hx hside
      rw [hprice] at hno
      cases hb : beyondLimit side.opposite price .limit y.1.price with
      | true => rfl
      | false => exact absurd (accepts_iff.mpr hb rfl) hno

/-- Books that show the same, and as many levels and orders. -/
structure SameCounts (s s' : OrderBook) : Prop extends SameBook s s' where
  levelsCount  : ∀ side, s.levelsCount side = s'.levelsCount side
  orderCounts  : ∀ side, s.orderCounts side = s'.orderCounts side
  activeOrders : s.activeOrdersCount = s'.activeOrdersCount

/-- **INDEPENDENT OPERATIONS COMMUTE**: in either order they return no event and
    cancel what they name, and they leave the same book. -/
theorem reached_commute {s : OrderBook} (hs : s.Reachable) {c c' : Call} (hc : s.Passive c.op)
    (hc' : s.Passive c'.op) (hid : c.op.id ≠ c'.op.id) (hapart : c.op.Apart c'.op)
    (hno : ∀ f, (OrderBook.step c s).1 ≠ .threw f)
    (hthen : ∀ f, (OrderBook.step c' (OrderBook.step c s).2).1 ≠ .threw f)
    (hno' : ∀ f, (OrderBook.step c' s).1 ≠ .threw f)
    (hthen' : ∀ f, (OrderBook.step c (OrderBook.step c' s).2).1 ≠ .threw f) :
    (OrderBook.step c s).1 = c.op.passiveOutcome
      ∧ (OrderBook.step c' (OrderBook.step c s).2).1 = c'.op.passiveOutcome
      ∧ (OrderBook.step c' s).1 = c'.op.passiveOutcome
      ∧ (OrderBook.step c (OrderBook.step c' s).2).1 = c.op.passiveOutcome
      ∧ SameCounts (OrderBook.step c' (OrderBook.step c s).2).2
        (OrderBook.step c (OrderBook.step c' s).2).2 := by
  obtain ⟨maxOrders, maxLevels, before, rfl⟩ := hs
  obtain ⟨q, hrep⟩ := Rep.reached maxOrders maxLevels before
  have hwf := Ladder.WF.reached maxOrders maxLevels before
  generalize OrderBook.reached maxOrders maxLevels before = s at *
  generalize Ladder.reached maxOrders maxLevels before = a at *
  have hop := hrep.passive hc
  have hop' := hrep.passive hc'
  -- one order of the two, on the ladder
  have hboth : ∀ {c c' : Call}, a.Passive c.op → a.Passive c'.op → c.op.id ≠ c'.op.id →
      c.op.Apart c'.op → (∀ f, (OrderBook.step c s).1 ≠ .threw f) →
      (∀ f, (OrderBook.step c' (OrderBook.step c s).2).1 ≠ .threw f) →
      (OrderBook.step c s).1 = c.op.passiveOutcome
        ∧ (OrderBook.step c' (OrderBook.step c s).2).1 = c'.op.passiveOutcome
        ∧ ∃ k b, Rep (OrderBook.step c' (OrderBook.step c s).2).2 k b ∧ b.WF
          ∧ (∀ side, lots (b.rungs side)
            = c'.op.onLots side (c.op.onLots side (lots (a.rungs side))))
          ∧ b.trades = a.trades ∧ b.volume = a.volume := by
    intro c c' hop hop' hid hapart hno hthen
    obtain ⟨hout, k, hrep₁⟩ := step_refines hrep c
    obtain ⟨hout', k', hrep₂⟩ := step_refines hrep₁ c'
    have hwf₁ := hwf.step c
    rw [hout] at hno ⊢
    rw [hout'] at hthen ⊢
    obtain ⟨hret, hdone⟩ := hop.step hwf hno
    obtain ⟨hret', hdone'⟩ := (hop'.after hdone hid hapart.symm).step hwf₁ hthen
    refine ⟨hret, hret', k', _, hrep₂, hwf₁.step c', fun side => ?_, ?_, ?_⟩
    · rw [hdone'.rungs, hdone.rungs]
    · exact hdone'.trades.trans hdone.trades
    · exact hdone'.volume.trans hdone.volume
  obtain ⟨h₁, h₂, k, b, hrep₁, hwf₁, hlots₁, htrades₁, hvolume₁⟩ :=
    hboth hop hop' hid hapart hno hthen
  obtain ⟨h₃, h₄, k', b', hrep₂, hwf₂, hlots₂, htrades₂, hvolume₂⟩ :=
    hboth hop' hop hid.symm hapart.symm hno' hthen'
  have hlots : ∀ side, lots (b.rungs side) = lots (b'.rungs side) := by
    intro side
    rw [hlots₁, hlots₂]
    exact onLots_comm hid hapart side _
  have hsame := hrep₁.sameBook hrep₂ hwf₁ hwf₂ hlots (htrades₁.trans htrades₂.symm)
    (hvolume₁.trans hvolume₂.symm)
  refine ⟨h₁, h₂, h₃, h₄, hsame, fun side => ?_, fun side => ?_, ?_⟩
  · have hlength := congrArg List.length (hsame.levels side)
    rw [List.length_map, List.length_map, hrep₁.levels_eq, hrep₂.levels_eq] at hlength
    rw [hrep₁.levelsCount_eq, hrep₂.levelsCount_eq, hlength]
  · have hlengths := congrArg (List.map fun v => v.2.length) (hsame.levels side)
    rw [List.map_map, List.map_map, hrep₁.levels_eq, hrep₂.levels_eq] at hlengths
    have hqueue : (fun v : Price × List (OrderId × Quantity) => v.2.length) ∘ Rung.shape
        = fun lv => lv.orders.length := by
      funext lv
      exact List.length_map _
    rw [hqueue] at hlengths
    rw [hrep₁.orderCounts_eq, hrep₂.orderCounts_eq, hlengths]
  · rw [hrep₁.known, hrep₂.known, Ladder.orderCount, Ladder.orderCount, ordersIn_lots,
      ordersIn_lots, ordersIn_lots, ordersIn_lots, hlots, hlots]

/-- A cancellation deletes the level that the new order would join. -/
theorem reached_commute_level : SameCounts
    (OrderBook.step ⟨.addOrder 2 .buy 100 3 .limit, fun _ => 0⟩
      (OrderBook.step ⟨.cancelOrder 1, fun _ => 0⟩
        (OrderBook.reached defaultMaxOrders defaultMaxLevels
          [⟨.addOrder 1 .buy 100 5 .limit, fun _ => 0⟩,
            ⟨.addOrder 3 .sell 101 5 .limit, fun _ => 0⟩])).2).2
    (OrderBook.step ⟨.cancelOrder 1, fun _ => 0⟩
      (OrderBook.step ⟨.addOrder 2 .buy 100 3 .limit, fun _ => 0⟩
        (OrderBook.reached defaultMaxOrders defaultMaxLevels
          [⟨.addOrder 1 .buy 100 5 .limit, fun _ => 0⟩,
            ⟨.addOrder 3 .sell 101 5 .limit, fun _ => 0⟩])).2).2 := by
  have hreturns : ∀ {o o' : Outcome}, o = o' → (∀ f, o' ≠ .threw f) → ∀ f, o ≠ .threw f := by
    rintro o _ rfl h
    exact h
  have hcancel : ∀ f, Outcome.cancelled true ≠ .threw f := fun _ h => by cases h
  have hadd : ∀ f, Outcome.events [] ≠ .threw f := fun _ h => by cases h
  have hfar : ∀ e ∈ (OrderBook.reached defaultMaxOrders defaultMaxLevels
      [⟨.addOrder 1 .buy 100 5 .limit, fun _ => 0⟩,
        ⟨.addOrder 3 .sell 101 5 .limit, fun _ => 0⟩]).orderMap.entries,
      ((OrderBook.reached defaultMaxOrders defaultMaxLevels
        [⟨.addOrder 1 .buy 100 5 .limit, fun _ => 0⟩,
          ⟨.addOrder 3 .sell 101 5 .limit, fun _ => 0⟩]).order? e.2).all
        (fun x => x.side = .sell → ¬ Side.Accepts .buy 100 x.price) = true := by
    decide +kernel
  refine (@reached_commute _ ⟨_, _, _, rfl⟩ ⟨.cancelOrder 1, fun _ => 0⟩
    ⟨.addOrder 2 .buy 100 3 .limit, fun _ => 0⟩ (.cancel ?_) (.add (by decide) ?_ ?_) (by decide)
    trivial ?_ ?_ ?_ ?_).2.2.2.2
  · decide +kernel
  · decide +kernel
  · rintro x ⟨o, hid, hx⟩
    have hall := hfar ⟨x.id, o⟩ (AList.mem_lookup_iff.mp hid)
    rw [hx] at hall
    exact of_decide_eq_true hall
  · exact hreturns (by decide +kernel) hcancel
  · exact hreturns (by decide +kernel) hadd
  · exact hreturns (by decide +kernel) hadd
  · exact hreturns (by decide +kernel) hcancel

end Lob
