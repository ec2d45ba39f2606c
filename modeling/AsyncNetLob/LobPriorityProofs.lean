import AsyncNetLob.LobBestExecutionProofs
import AsyncNetLob.LobEffectProofs

/-! # Nobody is overtaken

    The orders of a side stand in one line, best price first and first come first
    served.  A call removes orders from a line or adds one, and never moves any, so
    two orders that stay keep their order; and of two orders in a line the second
    one trades only in a call after which the first one is gone
    (`Ladder.Effect.ahead`, `Ladder.Effect.served`).

    The first fact is what the second needs to hold over a run: `Priority`, in the
    memory of the book. -/

namespace Lob

open GreedyFill Precedence

/-- The ids of a side, in order of priority. -/
def Ladder.line (a : Ladder) (side : Side) : List OrderId :=
  (lots (a.rungs side)).map fun y => y.1.id

/-- `x` stands before `y` on some side. -/
def Ladder.Ahead (a : Ladder) (x y : OrderId) : Prop := ∃ side, Before (a.line side) x y

section Ladders

variable {a b : Ladder} {side side' : Side} {x y : OrderId}

theorem Ladder.mem_line : x ∈ a.line side ↔ ∃ l ∈ lots (a.rungs side), l.1.id = x :=
  List.mem_map

theorem Ladder.rests_line : a.Rests x ↔ ∃ side, x ∈ a.line side := by
  rw [rests_lots]
  exact exists_congr fun side => Ladder.mem_line.symm

/-- No id stands in both lines. -/
theorem Ladder.WF.line_unique (hwf : a.WF) (hx : x ∈ a.line side) (hx' : x ∈ a.line side') :
    side' = side := by
  by_contra hne
  obtain rfl := Side.eq_opposite hne
  have hboth := hwf.ids_side side
  rw [List.map_append, Ladder.queue, Ladder.queue, ← lots_ids, ← lots_ids] at hboth
  exact List.disjoint_of_nodup_append hboth hx hx'

/-- What is within reach stands before what is not. -/
theorem Ladder.WF.line_reach (hwf : a.WF) (side : Side) (price : Price) (type : OrderType) :
    a.line side.opposite = (a.reachable side price type).map (fun l => l.1.id)
      ++ (a.unreachable side price type).map fun l => l.1.id := by
  rw [Ladder.line, ← hwf.reach_split side price type, List.map_append]

section Executions

variable {id : OrderId} {price : Price} {qty : Quantity} {type : OrderType}
  {es : List MatchEvent}

/-- On the other side orders only leave. -/
theorem Executed.line_other (h : Executed a id side price qty type es b) (hwf : a.WF) :
    (b.line side.opposite).Sublist (a.line side.opposite) := by
  have hkeys := (@rest_keys Tag qty.toNat (a.reachable side price type)).map Tag.id
  rw [List.map_map, List.map_map] at hkeys
  rw [hwf.line_reach side price type, Ladder.line, h.other, List.map_append]
  exact hkeys.append (List.Sublist.refl _)

/-- On its own side at most the order itself joins. -/
theorem Executed.line_own (h : Executed a id side price qty type es b) (hwf : a.WF) :
    (a.line side).Sublist (b.line side) := by
  rw [Ladder.line, Ladder.line, h.own]
  refine List.Sublist.map _ ?_
  split
  · rw [restLot]
    refine List.Sublist.trans ?_ ((List.Sublist.refl _).append (List.sublist_cons_self _ _))
    rw [lots_split (hwf.side side) price]
  · exact List.Sublist.refl _

/-- **IN TURN**: a maker is filled only after all that stand before it. -/
theorem Executed.served (h : Executed a id side price qty type es b) (hwf : a.WF)
    (hxy : a.Ahead x y) (hy : 0 < madeQty y es) :
    x ∈ a.line side.opposite ∧ x ∉ b.line side.opposite := by
  obtain ⟨side', hxy⟩ := hxy
  rw [h.madeQty_eq hwf] at hy
  -- what is filled is within reach, so both stand on the other side, within reach
  have hreach : y ∈ (a.reachable side price type).map fun l => l.1.id := by
    by_contra hno
    rw [amount_fills_absent fun l hl heq => hno (List.mem_map.mpr ⟨l, hl, heq⟩)] at hy
    exact Nat.lt_irrefl 0 hy
  have hline := hwf.line_reach side price type
  have hnodup := hwf.lots_nodup side.opposite
  have hmem : y ∈ a.line side.opposite := by
    rw [hline]
    exact List.mem_append_left _ hreach
  obtain rfl := hwf.line_unique hmem hxy.right_mem
  refine ⟨hxy.left_mem, ?_⟩
  change (a.line side.opposite).Nodup at hnodup
  rw [hline] at hxy hnodup
  have hbefore := hxy.of_append hnodup hreach
  -- so nothing is left of the first one
  rw [Ladder.mem_line, h.other]
  rintro ⟨l, hl, rfl⟩
  rcases List.mem_append.mp hl with hl | hl
  · exact rest_before (hwf.reachable_nodup side price type) hbefore hy l hl rfl
  · exact List.disjoint_of_nodup_append hnodup hbefore.left_mem (List.mem_map_of_mem hl)

end Executions

variable {op : Op} {out : Outcome}

/-- An id that rests does not change sides. -/
theorem Ladder.Effect.mem_line (h : a.Effect op out b) (hwf : a.WF) (hx : x ∈ b.line side)
    (hrests : a.Rests x) : x ∈ a.line side := by
  cases h with
  | rejected => exact hx
  | threw hlots =>
      rw [Ladder.line, hlots] at hx
      exact hx
  | unknown => exact hx
  | cancelled _ hlots =>
      rw [Ladder.line, hlots] at hx
      exact (List.filter_sublist.map _).subset hx
  | @executed id side₀ _ _ _ _ _ _ hid hexec =>
      by_cases hs : side = side₀
      · subst hs
        have hne : x ≠ id := by
          rintro rfl
          exact hid hrests
        rw [Ladder.mem_line, hexec.own] at hx
        obtain ⟨l, hl, rfl⟩ := hx
        refine Ladder.mem_line.mpr ⟨l, ?_, rfl⟩
        split at hl
        · rcases List.mem_cons.mp ((restLot_perm _ _ _ _).subset hl) with rfl | hl
          · exact absurd rfl hne
          · exact hl
        · exact hl
      · obtain rfl := Side.eq_opposite hs
        exact (hexec.line_other hwf).subset hx

/-- **ORDERS STAY IN LINE**: a call leaves the order of those who rest before and after. -/
theorem Ladder.Effect.ahead (h : a.Effect op out b) (hwf : a.WF) (hxy : a.Ahead x y)
    (hx : b.Rests x) (hy : b.Rests y) : b.Ahead x y := by
  obtain ⟨side, hxy⟩ := hxy
  refine ⟨side, ?_⟩
  have hstay : ∀ {z : OrderId}, b.Rests z → z ∈ a.line side → z ∈ b.line side := by
    intro z hz hmem
    obtain ⟨side', hz⟩ := Ladder.rests_line.mp hz
    rwa [← hwf.line_unique hmem (h.mem_line hwf hz (Ladder.rests_line.mpr ⟨side, hmem⟩))]
  have hleave : (b.line side).Sublist (a.line side) → Before (b.line side) x y := fun hsub =>
    hxy.stay (hwf.lots_nodup side) hsub (hstay hx hxy.left_mem) (hstay hy hxy.right_mem)
  cases h with
  | rejected => exact hxy
  | threw hlots =>
      refine hleave ?_
      rw [Ladder.line, hlots]
      exact List.Sublist.refl _
  | unknown => exact hxy
  | cancelled _ hlots =>
      refine hleave ?_
      rw [Ladder.line, hlots]
      exact List.filter_sublist.map _
  | @executed id side₀ _ _ _ _ _ _ _ hexec =>
      by_cases hs : side = side₀
      · subst hs
        exact hxy.join (hexec.line_own hwf)
      · obtain rfl := Side.eq_opposite hs
        exact hleave (hexec.line_other hwf)

/-- **NOBODY IS SERVED** while someone stands before it, and stays. -/
theorem Ladder.Effect.served (h : a.Effect op out b) (hwf : a.WF) (hxy : a.Ahead x y)
    (hx : b.Rests x) : madeQty y out.returned = 0 := by
  obtain ⟨side', hx⟩ := Ladder.rests_line.mp hx
  cases h with
  | rejected => exact madeQty_nil y
  | threw => exact madeQty_nil y
  | unknown => exact madeQty_nil y
  | cancelled => exact madeQty_nil y
  | @executed id side _ _ _ es _ hqty hid hexec =>
      by_contra hy
      obtain ⟨hmem, hgone⟩ := hexec.served hwf hxy (Nat.pos_of_ne_zero hy)
      have hbefore := (Ladder.Effect.executed hqty hid hexec).mem_line hwf hx
        (Ladder.rests_line.mpr ⟨_, hmem⟩)
      rw [hwf.line_unique hmem hbefore] at hx
      exact hgone hx

end Ladders

/-! ## In the book -/

namespace OrderBook

/-- The ids of a side, level by level and each level from its head. -/
def line (s : OrderBook) (side : Side) : List OrderId :=
  (s.levels side).flatMap fun lv => lv.orders.map RestingOrder.id

/-- `x` stands before `y` on some side. -/
def Ahead (s : OrderBook) (x y : OrderId) : Prop := ∃ side, Before (s.line side) x y

end OrderBook

/-- Price-time priority. -/
structure Priority (s : OrderBook) : Prop where
  /-- The better price stands first. -/
  price : ∀ {x y : Order}, s.Resting x → s.Resting y → x.side = y.side →
    x.side.comparator x.price y.price → s.Ahead x.id y.id
  /-- An order that comes to rest stands behind all that are not worse, and before the
      others. -/
  time : ∀ {now : Nat → Timestamp} {id : OrderId} {side : Side} {price : Price}
    {qty : Quantity} {type : OrderType} {x : Order}, s.Accepted now id side price qty type →
    (OrderBook.step ⟨.addOrder id side price qty type, now⟩ s).2.orderMap.lookup id ≠ none →
    s.Resting x → x.side = side →
    (¬ side.comparator price x.price →
        (OrderBook.step ⟨.addOrder id side price qty type, now⟩ s).2.Ahead x.id id)
      ∧ (side.comparator price x.price →
        (OrderBook.step ⟨.addOrder id side price qty type, now⟩ s).2.Ahead id x.id)
  /-- If an order was filled at all in a run, those that stood before it are gone by the end
      of it, filled or cancelled. -/
  turn : ∀ {x y : OrderId}, s.Ahead x y → ∀ calls : List Call, 0 < (OrderBook.follow y calls s).1 →
    ∀ left, (OrderBook.follow x calls s).2 ≠ .resting left

section Book

variable {s : OrderBook} {q : LevelPtr → List OrderPtr} {a b : Ladder}

theorem Rep.line_eq (h : Rep s q a) (side : Side) : s.line side = a.line side := by
  rw [OrderBook.line, h.levels_eq, Ladder.line, lots_ids, List.map_flatMap]

theorem Rep.ahead_iff (h : Rep s q a) {x y : OrderId} : s.Ahead x y ↔ a.Ahead x y :=
  exists_congr fun side => by rw [h.line_eq]

/-- The better price comes first in the lots. -/
theorem Rep.ahead_price (h : Rep s q a) (hwf : a.WF) {x y : Order} (hx : s.Resting x)
    (hy : s.Resting y) (hside : x.side = y.side) (hprice : x.side.comparator x.price y.price) :
    s.Ahead x.id y.id := by
  have hxl := h.resting_lot hx
  have hyl := h.resting_lot hy
  rw [← hside] at hyl
  have hne : x.lot ≠ y.lot := by
    intro heq
    have hsame : x.price = y.price := congrArg (fun l : Lot => l.1.price) heq
    rw [hsame] at hprice
    exact irrefl_of x.side.comparator _ hprice
  refine h.ahead_iff.mpr ⟨x.side, ?_⟩
  rcases Before.total hxl hyl hne with hbefore | hafter
  · exact hbefore.map fun l => l.1.id
  · exact absurd hprice ((lots_sorted (hwf.side x.side)).forall_sublist hafter)

/-- What comes to rest joins the lots of its own side. -/
theorem Executed.joined {id : OrderId} {side : Side} {price : Price} {qty : Quantity}
    {type : OrderType} {es : List MatchEvent} (h : Executed a id side price qty type es b)
    (hwf : a.WF) (hid : ¬ a.Rests id) (hrests : b.Rests id) :
    ∃ left, lots (b.rungs side) = restLot side ⟨price, id⟩ left (lots (a.rungs side)) := by
  have hown := h.own
  by_cases hcond : type = .limit ∧ total (a.reachable side price type) < qty.toNat
  · rw [if_pos hcond] at hown
    exact ⟨_, hown⟩
  · rw [if_neg hcond] at hown
    obtain ⟨side', hmem⟩ := Ladder.rests_line.mp hrests
    refine absurd (Ladder.rests_line.mpr ⟨side', ?_⟩) hid
    by_cases hs : side' = side
    · subst hs
      rw [Ladder.line, hown] at hmem
      exact hmem
    · obtain rfl := Side.eq_opposite hs
      exact (h.line_other hwf).subset hmem

/-- **THE LAST IN LINE** of those that are not worse. -/
theorem Rep.ahead_time (h : Rep s q a) (hwf : a.WF) {now : Nat → Timestamp} {id : OrderId}
    {side : Side} {price : Price} {qty : Quantity} {type : OrderType} {x : Order}
    (hacc : s.Accepted now id side price qty type)
    (hrests : (OrderBook.step ⟨.addOrder id side price qty type, now⟩ s).2.orderMap.lookup id
      ≠ none) (hx : s.Resting x) (hside : x.side = side) :
    (¬ side.comparator price x.price →
        (OrderBook.step ⟨.addOrder id side price qty type, now⟩ s).2.Ahead x.id id)
      ∧ (side.comparator price x.price →
        (OrderBook.step ⟨.addOrder id side price qty type, now⟩ s).2.Ahead id x.id) := by
  obtain ⟨es, q', b, -, hrep, -, hexec⟩ := h.executed hwf hacc
  obtain ⟨left, hlots⟩ :=
    hexec.joined hwf (h.lookup_none.mp hacc.fresh) (hrep.rests_iff.mpr hrests)
  have hxl := h.resting_lot hx
  rw [hside] at hxl
  have hline : b.line side
      = ((lots (a.rungs side)).filter
          (fun y => !decide (side.comparator price y.1.price))).map (fun y => y.1.id)
        ++ id :: ((lots (a.rungs side)).filter
          fun y => decide (side.comparator price y.1.price)).map fun y => y.1.id := by
    rw [Ladder.line, hlots, restLot, List.map_append, List.map_cons]
  constructor
  · intro hnot
    have hfilter : x.lot ∈ (lots (a.rungs side)).filter
        fun y => !decide (side.comparator price y.1.price) :=
      List.mem_filter.mpr ⟨hxl, (Bool.not_eq_true' _).mpr (decide_eq_false hnot)⟩
    refine hrep.ahead_iff.mpr ⟨side, ?_⟩
    rw [hline]
    exact before_append (List.mem_map_of_mem (f := fun y : Lot => y.1.id) hfilter)
      List.mem_cons_self
  · intro hworse
    have hfilter : x.lot ∈ (lots (a.rungs side)).filter
        fun y => decide (side.comparator price y.1.price) :=
      List.mem_filter.mpr ⟨hxl, decide_eq_true hworse⟩
    refine hrep.ahead_iff.mpr ⟨side, ?_⟩
    rw [hline]
    refine Before.join ?_ (List.sublist_append_right _ _)
    exact before_cons.mpr
      (Or.inr ⟨rfl, List.mem_map_of_mem (f := fun y : Lot => y.1.id) hfilter⟩)

/-- **IN TURN**, over a run: the first one rests until it is filled or cancelled, and until
    then the second one is not filled. -/
theorem Rep.turn (h : Rep s q a) (hwf : a.WF) {x y : OrderId} (hxy : a.Ahead x y)
    (calls : List Call) (hfilled : 0 < (OrderBook.follow y calls s).1) (left : Quantity) :
    (OrderBook.follow x calls s).2 ≠ .resting left := by
  induction calls generalizing s q a with
  | nil => exact absurd hfilled (Nat.lt_irrefl 0)
  | cons c calls ih =>
      rw [OrderBook.follow] at hfilled ⊢
      obtain ⟨hout, q', hrep⟩ := step_refines h c
      have heffect := hwf.effect c
      by_cases hcx : c.op = .cancelOrder x
      · rw [if_pos hcx]
        exact Fate.noConfusion
      · rw [if_neg hcx]
        by_cases hgone : (OrderBook.step c s).2.orderMap.lookup x = none
        · rw [if_pos hgone]
          exact Fate.noConfusion
        · -- the first one still rests, so the second one is not filled in this call
          have hx := hrep.rests_iff.mpr hgone
          have hnone := heffect.served hwf hxy hx
          rw [← hout] at hnone
          rw [if_neg hgone]
          by_cases hcy : c.op = .cancelOrder y
          · rw [if_pos hcy] at hfilled
            exact absurd hfilled (Nat.lt_irrefl 0)
          · rw [if_neg hcy, hnone] at hfilled
            by_cases hgone' : (OrderBook.step c s).2.orderMap.lookup y = none
            · rw [if_pos hgone'] at hfilled
              exact absurd hfilled (Nat.lt_irrefl 0)
            · rw [if_neg hgone', Nat.zero_add] at hfilled
              have hy := hrep.rests_iff.mpr hgone'
              exact ih hrep (hwf.step c) (heffect.ahead hwf hxy hx hy) hfilled

end Book

/-- **PRICE-TIME PRIORITY** in every reachable book, for all that may be called later. -/
theorem reached_priority (maxOrders maxLevels : Nat) (calls : List Call) :
    Priority (OrderBook.reached maxOrders maxLevels calls) := by
  obtain ⟨q, hrep⟩ := Rep.reached maxOrders maxLevels calls
  have hwf := Ladder.WF.reached maxOrders maxLevels calls
  constructor
  case price => exact hrep.ahead_price hwf
  case time => exact hrep.ahead_time hwf
  case turn =>
    intro x y hxy later
    exact hrep.turn hwf (hrep.ahead_iff.mp hxy) later

end Lob
