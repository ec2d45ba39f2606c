import AsyncNetLob.LobBestExecutionProofs

/-! # The price guard

    The matching loops look at the price before each level, but only for an order of
    type LIMIT.  Every other type takes the lots within its price first and then,
    as long as something is left of it, those beyond (`Executed.within_iff`).

    So an order of type CANCEL, which nothing in the book treats apart from MARKET,
    trades within its price if and only if it runs out before the lots beyond it, or
    there are none (`reached_keepsPrice_iff`). -/

namespace Lob

open GreedyFill

/-! ## On lots -/

section Lots

variable {a b : Ladder} {id : OrderId} {side : Side} {price : Price} {qty : Quantity}
  {type : OrderType} {es : List MatchEvent}

/-- Without the guard every lot of the other side is within reach. -/
theorem reachable_unguarded (htype : type ≠ .limit) :
    a.reachable side price type = lots (a.rungs side.opposite) := by
  refine List.filter_eq_self.mpr fun y _ => ?_
  rw [Bool.not_eq_true', ← accepts_iff]
  exact fun hlimit => absurd hlimit htype

/-- A fill from within the price is at an accepted price. -/
theorem reachable_accepts (hwf : a.WF) {q : ℕ} {f : Lot}
    (hf : f ∈ fills q (a.reachable side price .limit)) : side.Accepts price f.1.price := by
  obtain ⟨-, y, hy, htag, -⟩ := fills_mem (reachable_positive hwf) hf
  have hreach := (List.mem_filter.mp hy).2
  rw [Bool.not_eq_true', ← accepts_iff, htag] at hreach
  exact hreach rfl

/-- A fill from beyond it is not. -/
theorem unreachable_not_accepts (hwf : a.WF) {q : ℕ} {f : Lot}
    (hf : f ∈ fills q (a.unreachable side price .limit)) : ¬ side.Accepts price f.1.price := by
  have hpos : Positive (a.unreachable side price .limit) :=
    fun y hy => lots_positive (hwf.side side.opposite).live y (List.mem_of_mem_filter hy)
  obtain ⟨-, y, hy, htag, -⟩ := fills_mem hpos hf
  have hbeyond := (List.mem_filter.mp hy).2
  intro haccept
  rw [accepts_iff.mp fun _ => htag ▸ haccept] at hbeyond
  cases hbeyond

/-- The events of an order are at the prices of its fills. -/
theorem Executed.forall_price (h : Executed a id side price qty type es b) {P : Price → Prop} :
    (∀ e ∈ es, P e.matchPrice)
      ↔ ∀ f ∈ fills qty.toNat (a.reachable side price type), P f.1.price := by
  have hprices := congrArg (List.map MatchEvent.matchPrice) h.events
  rw [List.map_map, List.map_map] at hprices
  have hsame : es.map MatchEvent.matchPrice
      = (fills qty.toNat (a.reachable side price type)).map fun f => f.1.price := hprices
  rw [← List.forall_mem_map (f := MatchEvent.matchPrice), hsame, List.forall_mem_map]

/-- **THE GUARD**: a LIMIT order keeps to its price; any other order does while there is
    enough within it, or nothing beyond it. -/
theorem Executed.within_iff (h : Executed a id side price qty type es b) (hwf : a.WF) :
    (∀ e ∈ es, side.Accepts price e.matchPrice)
      ↔ type = .limit ∨ a.unreachable side price .limit = []
        ∨ qty.toNat ≤ total (a.reachable side price .limit) := by
  rw [h.forall_price]
  by_cases htype : type = .limit
  · rw [htype]
    exact iff_of_true (fun f hf => reachable_accepts hwf hf) (Or.inl rfl)
  · rw [reachable_unguarded htype, ← hwf.reach_split side price .limit, fills_append]
    constructor
    · intro hall
      have hnone : fills (qty.toNat - total (a.reachable side price .limit))
          (a.unreachable side price .limit) = [] := by
        refine List.eq_nil_iff_forall_not_mem.mpr fun f hf => ?_
        exact unreachable_not_accepts hwf hf (hall f (List.mem_append_right _ hf))
      rcases fills_eq_nil_iff.mp hnone with hleft | hfar
      · exact Or.inr (Or.inr (Nat.sub_eq_zero_iff_le.mp hleft))
      · exact Or.inr (Or.inl hfar)
    · intro hcond f hf
      have hnone : fills (qty.toNat - total (a.reachable side price .limit))
          (a.unreachable side price .limit) = [] := by
        rcases hcond.resolve_left htype with hfar | hqty
        · exact fills_eq_nil_iff.mpr (Or.inr hfar)
        · exact fills_eq_nil_iff.mpr (Or.inl (Nat.sub_eq_zero_of_le hqty))
      rw [hnone, List.append_nil] at hf
      exact reachable_accepts hwf hf

end Lots

/-! ## In the book -/

/-- Every event that the call returns is at a price that its order accepts. -/
def OrderBook.TradesWithin (s : OrderBook) (now : Nat → Timestamp) (id : OrderId) (side : Side)
    (price : Price) (qty : Quantity) (type : OrderType) : Prop :=
  ∀ es, (OrderBook.step ⟨.addOrder id side price qty type, now⟩ s).1 = .events es →
    ∀ e ∈ es, side.Accepts price e.matchPrice

/-- The order is guarded by its type, is not accepted, or has no reason to go beyond its
    price: no order rests there, or those within the price hold its quantity. -/
def OrderBook.KeepsPrice (s : OrderBook) (id : OrderId) (side : Side) (price : Price)
    (qty : Quantity) (type : OrderType) : Prop :=
  type = .limit ∨ s.orderMap.lookup id ≠ none ∨ s.orderPool.freeList = []
    ∨ (∀ x ∈ s.tradable side price .market, side.Accepts price x.price)
    ∨ qty.toNat ≤ ((s.tradable side price .limit).map (·.remainingQty.toNat)).sum

section Book

variable {s : OrderBook} {q : LevelPtr → List OrderPtr} {a : Ladder} {side : Side}
  {price : Price}

/-- Nothing is beyond the price if every order of the other side is within it. -/
theorem Rep.unreachable_nil_iff (h : Rep s q a) (hwf : a.WF) :
    a.unreachable side price .limit = []
      ↔ ∀ x ∈ s.tradable side price .market, side.Accepts price x.price := by
  have hall := h.tradable_perm hwf side price .market
  rw [reachable_unguarded (by decide)] at hall
  rw [Ladder.unreachable, List.filter_eq_nil_iff]
  constructor
  · intro hnone x hx
    have hbeyond := hnone x.lot (hall.subset (List.mem_map_of_mem hx))
    rw [Bool.not_eq_true, ← accepts_iff] at hbeyond
    exact hbeyond rfl
  · intro haccept y hy
    obtain ⟨x, hx, rfl⟩ := List.mem_map.mp (hall.symm.subset hy)
    rw [Bool.not_eq_true, ← accepts_iff]
    exact fun _ => haccept x hx

end Book

/-- **ONLY WITHIN THE PRICE**: from every reachable book, the events of a call are all at
    accepted prices exactly if the order is guarded or has no reason to go further. -/
theorem reached_keepsPrice_iff {s : OrderBook} (hs : s.Reachable) (now : Nat → Timestamp)
    (id : OrderId) (side : Side) (price : Price) (qty : Quantity) (type : OrderType) :
    s.TradesWithin now id side price qty type ↔ s.KeepsPrice id side price qty type := by
  obtain ⟨maxOrders, maxLevels, before, rfl⟩ := hs
  obtain ⟨q, hrep⟩ := Rep.reached maxOrders maxLevels before
  have hwf := Ladder.WF.reached maxOrders maxLevels before
  generalize OrderBook.reached maxOrders maxLevels before = s at *
  generalize Ladder.reached maxOrders maxLevels before = a at *
  have hout : (OrderBook.step ⟨.addOrder id side price qty type, now⟩ s).1
      = (Ladder.addOrder now id side price qty type a).1 := (step_refines hrep _).1
  rw [OrderBook.TradesWithin, hout, OrderBook.KeepsPrice, makers_total (hrep.tradable_perm hwf _ _ _),
    ← hrep.unreachable_nil_iff hwf, ← hrep.rests_iff, hrep.orderPool_empty_iff]
  by_cases hbad : qty = 0 ∨ a.Rests id
  · -- rejected: there are no events
    rw [(AddCase.rejected hbad).eq]
    refine iff_of_true ?_ ?_
    · intro es hes e he
      obtain rfl := Outcome.events.inj hes
      cases he
    · rcases hbad with hqty | hrests
      · have hzero := quantity_zero.mp hqty
        exact Or.inr (Or.inr (Or.inr (Or.inr (hzero ▸ Nat.zero_le _))))
      · exact Or.inr (Or.inl hrests)
  obtain ⟨hqty, hid⟩ := not_or.mp hbad
  by_cases hno : ∀ f, (Ladder.addOrder now id side price qty type a).1 ≠ .threw f
  · -- executed
    obtain ⟨es, b, heq, hexec⟩ := addOrder_executed hwf hqty hid hno
    have hroom : ¬ a.orderSlots ≤ a.orderCount := by
      intro hfull
      have hrefused : AddCase now id side price qty type a _ _ := .refused hqty hid hfull
      exact hno _ (congrArg Prod.fst hrefused.eq)
    rw [heq]
    constructor
    · intro hall
      rcases (hexec.within_iff hwf).mp (hall es rfl) with hlimit | hfar | hnear
      · exact Or.inl hlimit
      · exact Or.inr (Or.inr (Or.inr (Or.inl hfar)))
      · exact Or.inr (Or.inr (Or.inr (Or.inr hnear)))
    · intro hcond es' hes'
      obtain rfl := Outcome.events.inj hes'
      refine (hexec.within_iff hwf).mpr ?_
      rcases hcond with hlimit | hrests | hfull | hfar | hnear
      · exact Or.inl hlimit
      · exact absurd hrests hid
      · exact absurd hfull hroom
      · exact Or.inr (Or.inl hfar)
      · exact Or.inr (Or.inr hnear)
  · -- thrown: for want of an order slot, or of a level for what is left of a LIMIT order
    obtain ⟨f, hthrew⟩ := not_forall_not.mp hno
    refine iff_of_true ?_ ?_
    · intro es hes
      cases hthrew.symm.trans hes
    · have hcase := addOrder_cases now id side price qty type a
      generalize Ladder.addOrder now id side price qty type a = v at hcase hthrew
      obtain ⟨out, b⟩ := v
      cases hcase with
      | rejected => cases hthrew
      | refused _ _ hfull => exact Or.inr (Or.inr (Or.inl hfull))
      | leaked _ _ _ _ hlimit => exact Or.inl hlimit
      | rested => cases hthrew
      | finished => cases hthrew

/-- A CANCEL order that one resting order within its price fills. -/
theorem reached_keepsPrice_iff_filled :
    OrderBook.TradesWithin (OrderBook.reached defaultMaxOrders defaultMaxLevels
      [⟨.addOrder 1 .sell 101 5 .limit, fun _ => 0⟩]) (fun _ => 0) 2 .buy 101 3 .cancel :=
  (reached_keepsPrice_iff ⟨_, _, _, rfl⟩ (fun _ => 0) 2 .buy 101 3 .cancel).mpr
    (Or.inr (Or.inr (Or.inr (Or.inr (by decide +kernel)))))

/-- **THROUGH THE PRICE**: an order of type CANCEL buys at 101 with a price of 100, and
    one sells at 99. -/
theorem cancel_trades_through :
    (OrderBook.step ⟨.addOrder 2 .buy 100 5 .cancel, fun _ => 0⟩
      (OrderBook.reached defaultMaxOrders defaultMaxLevels
        [⟨.addOrder 1 .sell 101 5 .limit, fun _ => 0⟩])).1 = .events [⟨1, 2, 101, 5, 0⟩]
    ∧ ¬ Side.Accepts .buy 100 101
    ∧ (OrderBook.step ⟨.addOrder 2 .sell 100 5 .cancel, fun _ => 0⟩
      (OrderBook.reached defaultMaxOrders defaultMaxLevels
        [⟨.addOrder 1 .buy 99 5 .limit, fun _ => 0⟩])).1 = .events [⟨1, 2, 99, 5, 0⟩]
    ∧ ¬ Side.Accepts .sell 100 99 :=
  ⟨by decide +kernel, by decide, by decide +kernel, by decide⟩

end Lob
