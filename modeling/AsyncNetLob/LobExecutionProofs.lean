import AsyncNetLob.LobHoldingProofs
import AsyncNetLob.LobLedgerProofs

/-! # What an accepted order does to the lots

    An accepted order that does not throw has one description, whatever way its
    call takes (`Executed`): it fills the lots it may trade with greedily, and what
    is left of it, if it is a LIMIT order, joins the lots of its own side. -/

namespace Lob

open GreedyFill

/-- The lots of a side after some amount of an order came to rest there. -/
def restLot (side : Side) (tag : Tag) (left : ℕ) (l : List Lot) : List Lot :=
  l.filter (fun x => !decide (side.comparator tag.price x.1.price))
    ++ (tag, left) :: l.filter fun x => decide (side.comparator tag.price x.1.price)

/-- The orders of some levels, each with its price. -/
def standing (rungs : List Rung) : List (Price × RestingOrder) :=
  rungs.flatMap fun lv => lv.orders.map (Prod.mk lv.price)

section Sides

variable {a : Ladder} {side : Side} {price : Price} {type : OrderType} {rungs : List Rung}

/-- What is within reach of an order comes first. -/
theorem Ladder.WF.reach_split (h : a.WF) (side : Side) (price : Price) (type : OrderType) :
    a.reachable side price type ++ a.unreachable side price type
      = lots (a.rungs side.opposite) := by
  -- a taker of nothing sweeps nothing
  have htaken := (h.swept_lots (fun _ => 0) 0 side price 0 type).taken
  have hnone : (a.swept (fun _ => 0) 0 side price 0 type).rungs = a.rungs side.opposite := by
    rw [Ladder.swept, sweep_done (by decide)]
  rw [hnone] at htaken
  refine (congrArg (· ++ _) (rest_zero ?_).symm).trans htaken.symm
  exact reachable_positive h

/-- No id rests twice on a side. -/
theorem Ladder.WF.lots_nodup (h : a.WF) (side : Side) :
    ((lots (a.rungs side)).map fun y => y.1.id).Nodup := by
  have hboth := h.ids_side side
  rw [List.map_append] at hboth
  rw [lots_ids]
  exact hboth.of_append_left

/-- An amount that rests is one more lot. -/
theorem restLot_perm (side : Side) (tag : Tag) (left : ℕ) (l : List Lot) :
    (restLot side tag left l).Perm ((tag, left) :: l) := by
  refine List.perm_middle.trans (List.Perm.cons _ ?_)
  refine List.perm_append_comm.trans ?_
  exact List.filter_append_perm (fun x : Lot => decide (side.comparator tag.price x.1.price)) l

/-- Resting an order leaves the others as they stand. -/
theorem standing_insertOrder (h : SideWF side rungs) {r : RestingOrder}
    (hr : ∀ x ∈ lots rungs, x.1.id ≠ r.id) :
    (standing (insertOrder side price r rungs)).filter (fun x => x.2.id ≠ r.id)
      = standing rungs := by
  have hkeep : ∀ A : List Rung, A ⊆ rungs →
      (standing A).filter (fun x => x.2.id ≠ r.id) = standing A := by
    intro A hA
    refine List.filter_eq_self.mpr fun x hx => ?_
    obtain ⟨lv, hlv, hx⟩ := List.mem_flatMap.mp hx
    obtain ⟨y, hy, rfl⟩ := List.mem_map.mp hx
    exact decide_eq_true (hr _ (mem_lots.mpr ⟨lv, hA hlv, y, hy, rfl⟩))
  have happend : ∀ A B : List Rung, standing (A ++ B) = standing A ++ standing B :=
    fun _ _ => List.flatMap_append
  have hcons : ∀ (lv : Rung) (B : List Rung), standing (lv :: B)
      = lv.orders.map (Prod.mk lv.price) ++ standing B := fun _ _ => List.flatMap_cons
  rcases insertOrder_cases h.sorted price r with ⟨A, lv, B, hsplit, -, hins⟩
    | ⟨A, B, hsplit, -, -, hins⟩
  · -- its price has a level
    have hA : A ⊆ rungs := by
      rw [hsplit]
      exact List.subset_append_left _ _
    have hB : lv :: B ⊆ rungs := by
      rw [hsplit]
      exact List.subset_append_right _ _
    rw [hins, hsplit, happend, happend, List.filter_append, hkeep A hA, hcons, hcons]
    have hlv := hkeep (lv :: B) hB
    rw [hcons, List.filter_append] at hlv
    rw [List.map_append, List.filter_append, List.filter_append, ← hlv]
    simp
  · -- a level is opened for it
    have hA : A ⊆ rungs := by
      rw [hsplit]
      exact List.subset_append_left _ _
    have hB : B ⊆ rungs := by
      rw [hsplit]
      exact List.subset_append_right _ _
    rw [hins, hsplit, happend, happend, List.filter_append, hkeep A hA, hcons,
      List.filter_append, hkeep B hB]
    simp

end Sides

/-! ## One description for every way -/

/-- The effect of an accepted order, in lots. -/
structure Executed (a : Ladder) (id : OrderId) (side : Side) (price : Price) (qty : Quantity)
    (type : OrderType) (es : List MatchEvent) (b : Ladder) : Prop where
  events : es.map Relabelling.identity.event
    = (fills qty.toNat (a.reachable side price type)).map (eventOf id)
  other  : lots (b.rungs side.opposite)
    = rest qty.toNat (a.reachable side price type) ++ a.unreachable side price type
  own    : lots (b.rungs side)
    = if type = .limit ∧ total (a.reachable side price type) < qty.toNat then
        restLot side ⟨price, id⟩ (qty.toNat - total (a.reachable side price type))
          (lots (a.rungs side))
      else lots (a.rungs side)
  /-- The other orders of its own side are untouched. -/
  kept   : (standing (b.rungs side)).filter (fun x => x.2.id ≠ id) = standing (a.rungs side)
  trades : b.trades = a.trades + es.length
  volume : b.volume = a.volume + tradedQty es

section Calls

variable {a : Ladder} {now : Nat → Timestamp} {id : OrderId} {side : Side} {price : Price}
  {qty : Quantity} {type : OrderType}

/-- **EXECUTION**: an order that is accepted and does not throw. -/
theorem addOrder_executed (hwf : a.WF) (hqty : qty ≠ 0) (hid : ¬ a.Rests id)
    (hno : ∀ f, (Ladder.addOrder now id side price qty type a).1 ≠ .threw f) :
    ∃ es b, Ladder.addOrder now id side price qty type a = (.events es, b)
      ∧ Executed a id side price qty type es b := by
  have hfree : ∀ x ∈ lots (a.rungs side), x.1.id ≠ id :=
    fun x hx heq => hid (rests_lots.mpr ⟨side, x, hx, heq⟩)
  have hswept := hwf.swept_lots now id side price qty type
  have hcase := addOrder_cases now id side price qty type a
  generalize Ladder.addOrder now id side price qty type a = v at hcase hno ⊢
  obtain ⟨out, b⟩ := v
  cases hcase with
  | rejected hbad => exact absurd hbad (not_or.mpr ⟨hqty, hid⟩)
  | refused => exact absurd rfl (hno _)
  | leaked => exact absurd rfl (hno _)
  | rested _ _ _ hleft hlimit =>
      generalize a.swept now id side price qty type = m at *
      have hdemand := hswept.demand
      -- what is left joins the lots of its own side
      have hpos : 0 < m.left.toNat := Nat.pos_of_ne_zero fun h => hleft (quantity_zero.mpr h)
      refine ⟨m.events, _, rfl, ?_⟩
      refine ⟨hswept.events, ?_, ?_, ?_, rfl, rfl⟩
      · refine Eq.trans ?_ hswept.taken
        show lots (Function.update (a.afterSweep side m).rungs side _ side.opposite) = _
        rw [Function.update_of_ne (Side.opposite_ne side), Ladder.afterSweep_opposite]
      · rw [if_pos ⟨hlimit, by omega⟩, ← hdemand]
        show lots (Function.update (a.afterSweep side m).rungs side _ side) = _
        rw [Function.update_self, insertOrder_lots (hwf.side side)]
        rfl
      · show (standing (Function.update (a.afterSweep side m).rungs side _ side)).filter _ = _
        rw [Function.update_self]
        exact standing_insertOrder (r := ⟨id, qty, m.left⟩) (hwf.side side) hfree
  | finished _ _ _ hdone =>
      generalize a.swept now id side price qty type = m at *
      have hdemand := hswept.demand
      -- nothing is left, or it is given up
      have hown := Ladder.afterSweep_own a side m
      refine ⟨m.events, _, rfl, ?_⟩
      refine ⟨hswept.events, ?_, ?_, ?_, rfl, rfl⟩
      · refine Eq.trans (congrArg lots ?_) hswept.taken
        exact Ladder.afterSweep_opposite a side m
      · show lots ((a.afterSweep side m).rungs side) = _
        rw [hown, if_neg]
        rintro ⟨hlimit, hlt⟩
        have hzero := quantity_zero.mp (hdone.resolve_right (not_not.mpr hlimit))
        omega
      · show (standing ((a.afterSweep side m).rungs side)).filter _ = _
        rw [hown]
        refine List.filter_eq_self.mpr fun x hx => decide_eq_true ?_
        obtain ⟨lv, hlv, hx⟩ := List.mem_flatMap.mp hx
        obtain ⟨r, hr, rfl⟩ := List.mem_map.mp hx
        exact hfree _ (mem_lots.mpr ⟨lv, hlv, r, hr, rfl⟩)

end Calls

namespace Executed

variable {a b : Ladder} {id : OrderId} {side : Side} {price : Price} {qty : Quantity}
  {type : OrderType} {es : List MatchEvent}

/-- The events trade what is filled, in total and by maker. -/
theorem tradedQty_eq (h : Executed a id side price qty type es b) (hwf : a.WF) :
    tradedQty es = total (fills qty.toNat (a.reachable side price type)) :=
  tradedQty_fills h.events (fills_lt hwf)

theorem madeQty_eq (h : Executed a id side price qty type es b) (hwf : a.WF) (x : OrderId) :
    madeQty x es = amount Tag.id x (fills qty.toNat (a.reachable side price type)) :=
  madeQty_fills h.events (fills_lt hwf) x

theorem length_eq (h : Executed a id side price qty type es b) :
    es.length = (fills qty.toNat (a.reachable side price type)).length := by
  have hlength := congrArg List.length h.events
  rw [List.length_map, List.length_map] at hlength
  exact hlength

/-- What is left within reach, and what was never within reach. -/
theorem reach (h : Executed a id side price qty type es b) :
    b.reachable side price type = rest qty.toNat (a.reachable side price type)
      ∧ b.unreachable side price type = a.unreachable side price type := by
  have hnear : ∀ x ∈ rest qty.toNat (a.reachable side price type),
      beyondLimit side.opposite price type x.1.price = false := by
    intro x hx
    have hkey := rest_keys.subset (List.mem_map_of_mem (f := Prod.fst) hx)
    obtain ⟨y, hy, htag⟩ := List.mem_map.mp hkey
    have hreach := (List.mem_filter.mp hy).2
    rw [htag] at hreach
    simpa using hreach
  have hfar : ∀ x ∈ a.unreachable side price type,
      beyondLimit side.opposite price type x.1.price = true :=
    fun x hx => (List.mem_filter.mp hx).2
  rw [Ladder.reachable, Ladder.unreachable, h.other, List.filter_append, List.filter_append]
  constructor
  · rw [List.filter_eq_self.mpr fun x hx => by simpa using hnear x hx,
      List.filter_eq_nil_iff.mpr fun x hx => by simpa using hfar x hx, List.append_nil]
  · rw [List.filter_eq_nil_iff.mpr fun x hx => by simpa using hnear x hx,
      List.filter_eq_self.mpr hfar, List.nil_append]

/-- The order is the only one that can be new. -/
theorem rests (h : Executed a id side price qty type es b) (hwf : a.WF) {x : OrderId}
    (hx : b.Rests x) : x = id ∨ a.Rests x := by
  obtain ⟨s, y, hy, rfl⟩ := rests_lots.mp hx
  by_cases hs : s = side
  · subst hs
    rw [h.own] at hy
    split at hy
    · rcases List.mem_cons.mp ((restLot_perm _ _ _ _).subset hy) with rfl | hy
      · exact Or.inl rfl
      · exact Or.inr (rests_lots.mpr ⟨s, y, hy, rfl⟩)
    · exact Or.inr (rests_lots.mpr ⟨s, y, hy, rfl⟩)
  · obtain rfl := Side.eq_opposite hs
    have hmem : y.1 ∈ (lots (a.rungs side.opposite)).map Prod.fst := by
      rw [h.other] at hy
      rw [← hwf.reach_split side price type, List.map_append]
      rcases List.mem_append.mp hy with hy | hy
      · exact List.mem_append_left _ (rest_keys.subset (List.mem_map_of_mem hy))
      · exact List.mem_append_right _ (List.mem_map_of_mem hy)
    obtain ⟨z, hz, htag⟩ := List.mem_map.mp hmem
    exact Or.inr (rests_lots.mpr ⟨_, z, hz, congrArg Tag.id htag⟩)

end Executed

/-! ## In the book -/

/-- **AN ACCEPTED ORDER** executes on the ladder that the book represents. -/
theorem Rep.executed {s : OrderBook} {q : LevelPtr → List OrderPtr} {a : Ladder}
    (h : Rep s q a) (hwf : a.WF) {now : Nat → Timestamp} {id : OrderId} {side : Side}
    {price : Price} {qty : Quantity} {type : OrderType}
    (hacc : s.Accepted now id side price qty type) :
    ∃ es q' b, (OrderBook.step ⟨.addOrder id side price qty type, now⟩ s).1 = .events es
      ∧ Rep (OrderBook.step ⟨.addOrder id side price qty type, now⟩ s).2 q' b ∧ b.WF
      ∧ Executed a id side price qty type es b := by
  obtain ⟨hout, q', hrep⟩ := step_refines h ⟨.addOrder id side price qty type, now⟩
  have hwf' := hwf.step ⟨.addOrder id side price qty type, now⟩
  have hqty : qty ≠ 0 := mt quantity_zero.mp (quantity_pos.mp hacc.quantity).ne'
  have hno := hacc.returns
  rw [hout] at hno ⊢
  obtain ⟨es, b, heq, hexec⟩ := @addOrder_executed a now id side price qty type hwf hqty
    (h.lookup_none.mp hacc.fresh) hno
  have hstep : Ladder.step ⟨.addOrder id side price qty type, now⟩ a = (.events es, b) := heq
  rw [hstep] at hrep hwf' ⊢
  exact ⟨es, q', b, rfl, hrep, hwf', hexec⟩

end Lob
