import AsyncNetLob.LobDepth
import AsyncNetLob.LobPriorityProofs

/-! # The depths follow from the notices

    The levels of a well-formed side are its lots, merged by price (`depths_lots`).
    So an order fills levels as it fills lots (`GreedyFill.fills_merge` and
    `rest_merge`), and what the book holds at each price, and trades at each price
    in every call, is what `DepthBook` computes from the notices alone
    (`reached_depths`). -/

namespace Lob

open MachineRun GreedyFill

/-- The prices of some levels, with what their orders hold. -/
def depthsOf (rungs : List Rung) : Depths := rungs.map fun lv => (lv.price, lv.depth)

def Ladder.depths (a : Ladder) : DepthBook := fun side => depthsOf (a.rungs side)

section Sides

variable {side : Side} {price : Price} {lv : Rung} {rungs rungs' : List Rung}

@[simp] theorem depthsOf_nil : depthsOf [] = [] := rfl

@[simp] theorem depthsOf_cons :
    depthsOf (lv :: rungs) = (lv.price, lv.depth) :: depthsOf rungs := rfl

theorem total_lotsOf (price : Price) (rs : List RestingOrder) :
    total (lotsOf price rs) = depthOf rs := by
  induction rs with
  | nil => rfl
  | cons r rs ih =>
      rw [lotsOf_cons, RestingOrder.lot, total_cons, ih]
      rfl

/-- **THE LEVELS** are the lots, merged by price. -/
theorem depths_lots (h : SideWF side rungs) : depthsOf rungs = merge Tag.price (lots rungs) := by
  induction rungs with
  | nil => rfl
  | cons lv rungs ih =>
      obtain ⟨hsorted, hrungs⟩ := h.of_cons
      have hprice : ∀ x ∈ lotsOf lv.price lv.orders, x.1.price = lv.price := by
        intro x hx
        obtain ⟨r, -, rfl⟩ := List.mem_map.mp hx
        rfl
      have hne : lotsOf lv.price lv.orders ≠ [] := by
        intro hnil
        exact h.nonempty lv List.mem_cons_self (List.map_eq_nil_iff.mp hnil)
      rw [depthsOf_cons, lots_cons, merge_append, merge_same hprice hne, total_lotsOf, ih hrungs]
      · rfl
      · intro x hx y hy heq
        obtain ⟨lv', hlv', r, -, rfl⟩ := mem_lots.mp hy
        have hlt := hsorted lv' hlv'
        rw [show lv'.price = lv.price from heq.trans (hprice x hx)] at hlt
        exact irrefl_of side.comparator _ hlt

theorem depths_congr (h : SideWF side rungs) (h' : SideWF side rungs')
    (heq : lots rungs = lots rungs') : depthsOf rungs = depthsOf rungs' := by
  rw [depths_lots h, depths_lots h', heq]

theorem depthOf_pos {rs : List RestingOrder} (h : ∀ r ∈ rs, 0 < r.remainingQty)
    (hne : rs ≠ []) : 0 < depthOf rs := by
  obtain ⟨r, rs', rfl⟩ := List.exists_cons_of_ne_nil hne
  have hpos := quantity_pos.mp (h r List.mem_cons_self)
  rw [depthOf_cons]
  omega

/-- Something rests at every price. -/
theorem depths_positive (h : SideWF side rungs) : Positive (depthsOf rungs) := by
  intro x hx
  obtain ⟨lv, hlv, rfl⟩ := List.mem_map.mp hx
  exact depthOf_pos (fun r hr => (h.live lv hlv r hr).1) (h.nonempty lv hlv)

/-! ## Resting and cancelling -/

theorem depths_insertOrder (r : RestingOrder) :
    depthsOf (insertOrder side price r rungs)
      = addDepth side price r.remainingQty.toNat (depthsOf rungs) := by
  have hnew : Rung.depth ⟨price, r.remainingQty, [r]⟩ = r.remainingQty.toNat := Nat.add_zero _
  induction rungs with
  | nil =>
      rw [insertOrder, depthsOf_cons, hnew]
      rfl
  | cons lv rungs ih =>
      rw [insertOrder, depthsOf_cons, addDepth]
      by_cases hlt : side.comparator price lv.price
      · rw [if_pos hlt, if_pos hlt, depthsOf_cons, hnew, depthsOf_cons]
      · rw [if_neg hlt, if_neg hlt]
        by_cases heq : price = lv.price
        · have hjoin : depthOf (lv.orders ++ [r]) = lv.depth + r.remainingQty.toNat := by
            rw [depthOf_append, depthOf_cons, depthOf_nil, Nat.add_zero, Rung.depth]
          rw [if_pos heq, if_pos heq, depthsOf_cons, Rung.depth, hjoin]
        · rw [if_neg heq, if_neg heq, depthsOf_cons, ih]

/-- At other prices nothing is cut. -/
theorem cutDepth_other {n : ℕ} (h : SideWF side rungs) (hne : ∀ lv ∈ rungs, lv.price ≠ price) :
    cutDepth price n (depthsOf rungs) = depthsOf rungs := by
  refine drain_idle (depths_positive h) fun x hx => if_neg ?_
  obtain ⟨lv, hlv, rfl⟩ := List.mem_map.mp hx
  exact hne lv hlv

/-- An order leaves its level. -/
theorem depths_cancelIn_head (h : SideWF side (lv :: rungs)) {A B : List RestingOrder}
    {r : RestingOrder} (ho : lv.orders = A ++ r :: B) (hA : ∀ x ∈ A, x.id ≠ r.id)
    (hB : ∀ x ∈ B, x.id ≠ r.id) (habsent : ∀ lv' ∈ rungs, ∀ x ∈ lv'.orders, x.id ≠ r.id) :
    depthsOf (cancelIn r.id (lv :: rungs))
      = cutDepth lv.price r.remainingQty.toNat (depthsOf (lv :: rungs)) := by
  obtain ⟨hsorted, hrungs⟩ := h.of_cons
  have hother : ∀ lv' ∈ rungs, lv'.price ≠ lv.price := by
    intro lv' hlv' heq
    have hlt := hsorted lv' hlv'
    rw [heq] at hlt
    exact irrefl_of side.comparator _ hlt
  have hcut := @cutDepth_other side lv.price rungs r.remainingQty.toNat hrungs hother
  have hdepth : lv.depth - r.remainingQty.toNat = depthOf (A ++ B) := by
    rw [Rung.depth, ho, depthOf_append, depthOf_cons, depthOf_append]
    omega
  have hlive : ∀ x ∈ A ++ B, 0 < x.remainingQty := by
    intro x hx
    refine (h.live lv List.mem_cons_self x ?_).1
    rw [ho]
    exact (List.sublist_cons_self r B).append_left A |>.subset hx
  rw [cutDepth] at hcut
  rw [cancelIn_present ho hA hB, cancelIn_absent habsent, depthsOf_cons, cutDepth, drain_cons,
    hcut, if_pos rfl, hdepth]
  by_cases hnil : A ++ B = []
  · rw [if_pos hnil, hnil, depthOf_nil, if_pos rfl]
    rfl
  · have hpos := depthOf_pos hlive hnil
    rw [if_neg hnil, if_neg (by omega)]
    rfl

/-- **CANCELLING** an order takes what is left of it out of its level. -/
theorem depths_cancelIn (h : SideWF side rungs)
    (hids : ((lots rungs).map fun y => y.1.id).Nodup) {y : Lot} (hy : y ∈ lots rungs) :
    depthsOf (cancelIn y.1.id rungs) = cutDepth y.1.price y.2 (depthsOf rungs) := by
  induction rungs with
  | nil => cases hy
  | cons lv rungs ih =>
      obtain ⟨hsorted, hrungs⟩ := h.of_cons
      rw [lots_cons, List.map_append] at hids
      have hdisjoint := List.disjoint_of_nodup_append hids
      rw [lots_cons] at hy
      rcases List.mem_append.mp hy with hy | hy
      · -- the order is in the first level
        obtain ⟨r, hr, rfl⟩ := List.mem_map.mp hy
        obtain ⟨A, B, ho⟩ := List.append_of_mem hr
        have hrs : ((A ++ r :: B).map RestingOrder.id).Nodup := by
          have hfirst := hids.of_append_left
          rw [lotsOf, List.map_map, ho] at hfirst
          exact hfirst
        rw [List.map_append, List.map_cons, List.nodup_middle, ← List.map_append] at hrs
        have hne : ∀ x ∈ A ++ B, x.id ≠ r.id := fun x hx heq =>
          (List.nodup_cons.mp hrs).1 (heq ▸ List.mem_map_of_mem hx)
        refine depths_cancelIn_head h ho (fun x hx => hne x (List.mem_append_left _ hx))
          (fun x hx => hne x (List.mem_append_right _ hx)) fun lv' hlv' x hx heq => ?_
        refine hdisjoint (List.mem_map_of_mem (f := fun y : Lot => y.1.id) hy) ?_
        exact List.mem_map.mpr ⟨_, mem_lots.mpr ⟨lv', hlv', x, hx, rfl⟩, heq⟩
      · -- the first level has another price, and not this order
        have habsent : ∀ lv' ∈ [lv], ∀ x ∈ lv'.orders, x.id ≠ y.1.id := by
          intro lv' hlv' x hx heq
          rw [List.mem_singleton.mp hlv'] at hx
          refine hdisjoint ?_ (List.mem_map_of_mem (f := fun y : Lot => y.1.id) hy)
          exact List.mem_map.mpr ⟨_, List.mem_map_of_mem hx, heq⟩
        have hstay : cancelIn y.1.id (lv :: rungs) = lv :: cancelIn y.1.id rungs := by
          have hsplit := cancelIn_append y.1.id [lv] rungs
          rw [cancelIn_absent habsent] at hsplit
          exact hsplit
        have hprice : lv.price ≠ y.1.price := by
          obtain ⟨lv', hlv', r, -, rfl⟩ := mem_lots.mp hy
          intro heq
          have hlt := hsorted lv' hlv'
          rw [heq] at hlt
          exact irrefl_of side.comparator _ hlt
        have hpos : 0 < lv.depth := depths_positive h _ List.mem_cons_self
        have hrest := ih hrungs hids.of_append_right hy
        rw [cutDepth] at hrest
        rw [hstay, depthsOf_cons, depthsOf_cons, cutDepth, drain_cons, hrest, if_neg hprice,
          Nat.sub_zero, if_neg (Nat.ne_of_gt hpos)]
        rfl

end Sides

/-! ## Calls on ladders -/

section Ladders

variable {a b : Ladder} {id : OrderId} {side : Side} {price : Price} {qty : Quantity}
  {type : OrderType} {es : List MatchEvent}

/-- Equal on a side and on the other one. -/
theorem depthBook_ext {d d' : DepthBook} (side : Side) (hown : d side = d' side)
    (hother : d side.opposite = d' side.opposite) : d = d' := by
  funext side'
  by_cases hs : side' = side
  · rw [hs, hown]
  · rw [Side.eq_opposite hs, hother]

/-- **A CANCELLATION** cuts the depth at one price. -/
theorem depths_cancelled (hwf : a.WF) (hwf' : b.WF) {y : Lot} (hy : y ∈ lots (a.rungs side))
    (hlots : ∀ side, lots (b.rungs side)
      = (lots (a.rungs side)).filter fun x => x.1.id ≠ y.1.id) :
    b.depths = Function.update a.depths side (cutDepth y.1.price y.2 (a.depths side)) := by
  have hcancel : ∀ side, depthsOf (b.rungs side) = depthsOf (cancelIn y.1.id (a.rungs side)) :=
    fun side => depths_congr (hwf'.side side) ((hwf.side side).cancel y.1.id)
      ((hlots side).trans (cancelIn_lots y.1.id (a.rungs side)).symm)
  refine depthBook_ext side ?_ ?_
  · rw [Function.update_self, Ladder.depths, hcancel]
    exact depths_cancelIn (hwf.side side) (hwf.lots_nodup side) hy
  · rw [Function.update_of_ne (Side.opposite_ne side), Ladder.depths, hcancel, cancelIn_absent]
    · rfl
    · intro lv hlv x hx heq
      have hmem : y.1.id ∈ a.line side.opposite :=
        List.mem_map.mpr ⟨_, mem_lots.mpr ⟨lv, hlv, x, hx, rfl⟩, heq⟩
      exact Side.opposite_ne side (hwf.line_unique (List.mem_map_of_mem hy) hmem)

/-- The levels within reach, and those beyond. -/
theorem depths_reach (hwf : a.WF) (side : Side) (price : Price) (type : OrderType) :
    a.depths.reach side price type = merge Tag.price (a.reachable side price type)
      ∧ a.depths.beyond side price type = merge Tag.price (a.unreachable side price type)
      ∧ a.depths side.opposite
        = a.depths.reach side price type ++ a.depths.beyond side price type := by
  have hnear : ∀ x ∈ merge Tag.price (a.reachable side price type),
      beyondLimit side.opposite price type x.1 = false := by
    intro x hx
    obtain ⟨y, hy, hprice⟩ := merge_names hx
    have hreach := (List.mem_filter.mp hy).2
    rw [hprice] at hreach
    simpa using hreach
  have hfar : ∀ x ∈ merge Tag.price (a.unreachable side price type),
      beyondLimit side.opposite price type x.1 = true := by
    intro x hx
    obtain ⟨y, hy, hprice⟩ := merge_names hx
    exact hprice ▸ (List.mem_filter.mp hy).2
  have hsplit : a.depths side.opposite = merge Tag.price (a.reachable side price type)
      ++ merge Tag.price (a.unreachable side price type) := by
    rw [Ladder.depths, depths_lots (hwf.side side.opposite), ← hwf.reach_split side price type]
    refine merge_append fun x hx y hy heq => ?_
    have hx' := (List.mem_filter.mp hx).2
    have hy' := (List.mem_filter.mp hy).2
    rw [heq] at hy'
    simp [hy'] at hx'
  have hwithin : a.depths.reach side price type
      = merge Tag.price (a.reachable side price type) := by
    rw [DepthBook.reach, hsplit, List.filter_append,
      List.filter_eq_self.mpr fun x hx => by simpa using hnear x hx,
      List.filter_eq_nil_iff.mpr fun x hx => by simpa using hfar x hx, List.append_nil]
  have hbeyond : a.depths.beyond side price type
      = merge Tag.price (a.unreachable side price type) := by
    rw [DepthBook.beyond, hsplit, List.filter_append,
      List.filter_eq_nil_iff.mpr fun x hx => by simpa using hnear x hx,
      List.filter_eq_self.mpr hfar, List.nil_append]
  refine ⟨hwithin, hbeyond, ?_⟩
  rw [hwithin, hbeyond, hsplit]

/-- The events by price are the fills, merged. -/
theorem Executed.byPrice_eq (h : Executed a id side price qty type es b) (hwf : a.WF) :
    byPrice es = fills qty.toNat (merge Tag.price (a.reachable side price type)) := by
  have hpairs := congrArg (List.map fun e : MatchEvent => (e.matchPrice, e.matchQuantity.toNat))
    h.events
  rw [List.map_map, List.map_map] at hpairs
  have hexact : (fills qty.toNat (a.reachable side price type)).map
        (fun f => (f.1.price, (UInt32.ofNat f.2).toNat))
      = (fills qty.toNat (a.reachable side price type)).map fun f => (f.1.price, f.2) := by
    refine List.map_congr_left fun f hf => ?_
    rw [UInt32.toNat_ofNat_of_lt' (fills_lt hwf f hf)]
  have hpairs' : es.map (fun e => (e.matchPrice, e.matchQuantity.toNat))
      = (fills qty.toNat (a.reachable side price type)).map fun f => (f.1.price, f.2) :=
    Eq.trans hpairs hexact
  rw [byPrice, hpairs', fills_merge, merge_rename]

/-- What is left of a LIMIT order is added at its price. -/
theorem Executed.depths_own (h : Executed a id side price qty type es b) (hwf : a.WF)
    (hwf' : b.WF) : (if type = .limit ∧ total (a.reachable side price type) < qty.toNat then
        addDepth side price (qty.toNat - total (a.reachable side price type)) (a.depths side)
      else a.depths side) = b.depths side := by
  have hown := h.own
  by_cases hrests : type = .limit ∧ total (a.reachable side price type) < qty.toNat
  · rw [if_pos hrests] at hown ⊢
    generalize hleft : qty.toNat - total (a.reachable side price type) = left at hown ⊢
    have hlt : left < 2 ^ 32 := by
      have hqty := qty.toNat_lt
      omega
    -- the order as it is queued
    have hrem : (UInt32.ofNat left).toNat = left := UInt32.toNat_ofNat_of_lt' hlt
    have hpos : 0 < UInt32.ofNat left := quantity_pos.mpr (by omega)
    have hlots := insertOrder_lots (hwf.side side) price
      ⟨id, UInt32.ofNat left, UInt32.ofNat left⟩
    have hinsert := depths_congr ((hwf.side side).insert price
      (r := ⟨id, UInt32.ofNat left, UInt32.ofNat left⟩) ⟨hpos, UInt32.le_refl _⟩)
      (hwf'.side side) ?_
    · rw [depths_insertOrder] at hinsert
      dsimp only at hinsert
      rw [hrem] at hinsert
      exact hinsert
    · rw [hlots, hown, restLot, RestingOrder.lot]
      dsimp only
      rw [hrem]
  · rw [if_neg hrests] at hown ⊢
    exact depths_congr (hwf.side side) (hwf'.side side) hown.symm

/-- **AN ACCEPTED ORDER** fills the depths. -/
theorem Executed.depths (h : Executed a id side price qty type es b) (hwf : a.WF)
    (hwf' : b.WF) : a.depths.order side price qty type = (byPrice es, b.depths) := by
  obtain ⟨hreach, hbeyond, -⟩ := depths_reach hwf side price type
  obtain ⟨hreach', hbeyond', hsplit'⟩ := depths_reach hwf' side price type
  obtain ⟨hleft, hfar⟩ := h.reach
  have hother : rest qty.toNat (merge Tag.price (a.reachable side price type))
      ++ merge Tag.price (a.unreachable side price type) = b.depths side.opposite := by
    rw [hsplit', hreach', hbeyond', hleft, hfar, rest_merge]
  rw [DepthBook.order, hreach, hbeyond, hother, total_merge, h.depths_own hwf hwf', h.byPrice_eq hwf]
  refine congrArg _ (depthBook_ext side ?_ ?_)
  · rw [Function.update_self]
  · rw [Function.update_of_ne (Side.opposite_ne side), Function.update_self]

end Ladders

/-! ## In the book -/

section Book

variable {s : OrderBook} {q : LevelPtr → List OrderPtr} {a : Ladder}

theorem Rep.depths_eq (h : Rep s q a) (side : Side) : s.depths side = a.depths side := by
  rw [OrderBook.depths, h.levels_eq]
  rfl

/-- What is told of an order that returns. -/
theorem Rep.notice_add (h : Rep s q a) {c : Call} {id : OrderId} {side : Side} {price : Price}
    {qty : Quantity} {type : OrderType} {es : List MatchEvent}
    (hop : c.op = .addOrder id side price qty type) (hout : (OrderBook.step c s).1 = .events es) :
    OrderBook.notice c s
      = if qty ≠ 0 ∧ ¬ a.Rests id then some (.order side price qty type) else none := by
  rw [OrderBook.notice, hop]
  dsimp only
  rw [h.accepts_add hop hout]
  exact if_congr decide_eq_true_iff rfl rfl

/-- **STEP**: what is told of a call moves the depths as the call moves the book. -/
theorem Rep.notice_step (h : Rep s q a) (hwf : a.WF) (c : Call) :
    DepthBook.step (OrderBook.notice c s) a.depths
      = (byPrice (OrderBook.step c s).1.returned, (Ladder.step c a).2.depths) := by
  have hout := (step_refines h c).1
  have hwf' := hwf.step c
  have heffect := hwf.effect c
  generalize hop : c.op = op at heffect
  generalize Ladder.step c a = v at hout hwf' heffect
  obtain ⟨out, b⟩ := v
  dsimp only at hout hwf' heffect ⊢
  cases heffect with
  | rejected hbad =>
      rw [h.notice_add hop hout, if_neg fun hgood => hbad.elim hgood.1 hgood.2, hout]
      rfl
  | threw hlots =>
      have hnone : OrderBook.notice c s = none := by
        rw [OrderBook.notice, hop, OrderBook.accepts, hop, hout]
        exact if_neg Bool.false_ne_true
      have hsame : b.depths = a.depths := by
        funext side
        exact depths_congr (hwf'.side side) (hwf.side side) (hlots side)
      rw [hnone, hout, hsame]
      rfl
  | unknown hid =>
      have hnone : OrderBook.notice c s = none := by
        rw [OrderBook.notice, hop]
        dsimp only
        rw [h.lookup_none.mpr hid]
        rfl
      rw [hnone, hout]
      rfl
  | cancelled hid hlots =>
      obtain ⟨side, y, hy, rfl⟩ := rests_lots.mp hid
      obtain ⟨x, ⟨o, hlook, hx⟩, hxid, hprice, hside, hrem⟩ := h.lot_resting hy
      have hnotice : OrderBook.notice c s = some (.cancel side y.1.price x.remainingQty) := by
        rw [OrderBook.notice, hop]
        dsimp only
        rw [← hxid, hlook, Option.bind_some, hx, Option.map_some, hside, hprice]
      rw [hnotice, hout, depths_cancelled hwf hwf' hy hlots, ← hrem]
      rfl
  | executed hqty hid hexec =>
      rw [h.notice_add hop hout, if_pos ⟨hqty, hid⟩, hout]
      exact hexec.depths hwf hwf'

theorem Rep.notices_run (h : Rep s q a) (hwf : a.WF) (calls : List Call) :
    DepthBook.run (OrderBook.notices calls s) a.depths
      = ((OrderBook.run calls s).1.map fun out => byPrice out.returned,
          (Ladder.run calls a).2.depths) := by
  induction calls generalizing s q a with
  | nil => rfl
  | cons c calls ih =>
      obtain ⟨-, q', hrep⟩ := step_refines h c
      have hstep := h.notice_step hwf c
      have hrest := ih hrep (hwf.step c)
      have hfirst : DepthBook.run (OrderBook.notices (c :: calls) s) a.depths
          = ((DepthBook.step (OrderBook.notice c s) a.depths).1
              :: (DepthBook.run (OrderBook.notices calls (OrderBook.step c s).2)
                (DepthBook.step (OrderBook.notice c s) a.depths).2).1,
            (DepthBook.run (OrderBook.notices calls (OrderBook.step c s).2)
              (DepthBook.step (OrderBook.notice c s) a.depths).2).2) := rfl
      rw [hfirst, hstep]
      dsimp only
      rw [hrest]
      rfl

end Book

/-- **MARKET BY PRICE**: in every run, what each call trades at each price, and what rests at
    each price in the end, is what `DepthBook` makes of the notices, which name no order. -/
theorem reached_depths (maxOrders maxLevels : Nat) (calls : List Call) :
    (DepthBook.run (OrderBook.notices calls (OrderBook.new maxOrders maxLevels))
          DepthBook.empty).1
        = (OrderBook.run calls (OrderBook.new maxOrders maxLevels)).1.map
            (fun out => byPrice out.returned)
      ∧ ∀ side, (DepthBook.run (OrderBook.notices calls (OrderBook.new maxOrders maxLevels))
          DepthBook.empty).2 side
        = (OrderBook.reached maxOrders maxLevels calls).depths side := by
  have hrun := (Rep.new maxOrders maxLevels).notices_run (Ladder.WF.empty maxOrders maxLevels) calls
  obtain ⟨q, hrep⟩ := Rep.reached maxOrders maxLevels calls
  have hempty : (Ladder.empty maxOrders maxLevels).depths = DepthBook.empty := rfl
  rw [hempty] at hrun
  rw [hrun]
  exact ⟨rfl, fun side => (hrep.depths_eq side).symm⟩

-- two asks at 100 are one level to the taker, and the second one is cancelled
example : (DepthBook.run (OrderBook.notices [⟨.addOrder 1 .sell 100 5 .limit, fun _ => 0⟩,
    ⟨.addOrder 2 .sell 100 4 .limit, fun _ => 0⟩, ⟨.addOrder 3 .buy 101 7 .limit, fun _ => 0⟩,
    ⟨.cancelOrder 2, fun _ => 0⟩] (OrderBook.new 8 8)) DepthBook.empty).1
      = [[], [], [(100, 7)], []] := by decide +kernel

end Lob
