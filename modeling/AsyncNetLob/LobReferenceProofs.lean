import AsyncNetLob.LobBookInvariantProofs
import AsyncNetLob.LobLotsProofs
import AsyncNetLob.LobReference

/-! # The order book is a naive price-time-priority book

    The reference keeps a plain list in order of acceptance; sorted by
    priority, the part of one side is that side's list of lots (`Refers`).
    Looking for the best maker again and again takes the lots in exactly this
    order (`matchAll_lots`), so both books give the same outcomes. -/

namespace Lob

open MachineRun GreedyFill

/-! ## Priority -/

/-- The place of a price in the order of a side. -/
def Side.rank : Side → Price → ℕ
  | .buy, p => 2 ^ 64 - 1 - p.toNat
  | .sell, p => p.toNat

theorem Side.comparator_rank (s : Side) (p p' : Price) :
    s.comparator p p' ↔ s.rank p < s.rank p' := by
  have hp := p.toNat_lt
  have hp' := p'.toNat_lt
  cases s with
  | buy =>
      refine (UInt64.lt_iff_toNat_lt (a := p') (b := p)).trans ?_
      show _ ↔ 2 ^ 64 - 1 - p.toNat < 2 ^ 64 - 1 - p'.toNat
      omega
  | sell => exact UInt64.lt_iff_toNat_lt

theorem Side.rank_inj (s : Side) {p p' : Price} : s.rank p = s.rank p' ↔ p = p' := by
  constructor
  · intro h
    refine @SortedMap.key_eq _ s.comparator _ _ _ ?_ ?_
    · rw [s.comparator_rank]
      omega
    · rw [s.comparator_rank]
      omega
  · rintro rfl
    rfl

theorem RefOrder.before_iff {s : Side} {x y : RefOrder} (h : x.side = s) :
    x.Before y ↔ s.rank x.price < s.rank y.price
      ∨ s.rank x.price = s.rank y.price ∧ x.seq < y.seq := by
  rw [RefOrder.Before, h, s.comparator_rank, s.rank_inj]

theorem first_none {l : List RefOrder} (h : first l = none) : l = [] := by
  cases l with
  | nil => rfl
  | cons x l =>
      rw [first] at h
      split at h
      · cases h
      · split at h <;> cases h

/-- Nothing comes before the first order. -/
theorem first_least {s : Side} {l : List RefOrder} {x : RefOrder}
    (hs : ∀ z ∈ l, z.side = s) (h : first l = some x) : ∀ z ∈ l, ¬ z.Before x := by
  induction l generalizing x with
  | nil =>
      intro z hz
      cases hz
  | cons w l ih =>
      have hw := hs w List.mem_cons_self
      have hl : ∀ z ∈ l, z.side = s := fun z hz => hs z (List.mem_cons_of_mem _ hz)
      rw [first] at h
      cases hfirst : first l with
      | none =>
          rw [hfirst] at h
          obtain rfl := Option.some.inj h
          intro z hz
          rw [first_none hfirst, List.mem_singleton] at hz
          rw [hz, RefOrder.before_iff hw]
          omega
      | some y =>
          have hy := hl y (first_mem hfirst)
          have hleast := ih hl hfirst
          rw [hfirst] at h
          dsimp only at h
          by_cases hyw : y.Before w
          · rw [if_pos hyw] at h
            obtain rfl := Option.some.inj h
            rw [RefOrder.before_iff hy] at hyw
            intro z hz
            rcases List.mem_cons.mp hz with rfl | hz
            · rw [RefOrder.before_iff hw]
              omega
            · exact hleast z hz
          · rw [if_neg hyw] at h
            obtain rfl := Option.some.inj h
            rw [RefOrder.before_iff hy] at hyw
            intro z hz
            rcases List.mem_cons.mp hz with rfl | hz
            · rw [RefOrder.before_iff hw]
              omega
            · have hzy := hleast z hz
              rw [RefOrder.before_iff (hl z hz)] at hzy ⊢
              omega

/-- In a list that can be sorted by priority, the first order is the head. -/
theorem first_eq {s : Side} {l xs : List RefOrder} {x : RefOrder}
    (hs : ∀ z ∈ l, z.side = s) (hperm : (x :: xs).Perm l) (hx : ∀ z ∈ xs, x.Before z) :
    first l = some x := by
  have hxl : x ∈ l := hperm.subset List.mem_cons_self
  cases hfirst : first l with
  | none =>
      rw [first_none hfirst] at hxl
      cases hxl
  | some y =>
      rcases List.mem_cons.mp (hperm.symm.subset (first_mem hfirst)) with rfl | hy
      · rfl
      · exact absurd (hx y hy) (first_least hs hfirst x hxl)

/-! ## Filling one order -/

section Fill

variable {x : RefOrder} {qty : Quantity} {orders : List RefOrder}

/-- The other orders stay. -/
theorem fillOrder_absent (h : x ∉ orders) : fillOrder x qty orders = orders := by
  refine (List.filterMap_congr fun y hy => ?_).trans List.filterMap_some
  rw [if_neg]
  rintro rfl
  exact h hy

theorem fillOrder_cons {y : RefOrder} (h : y ≠ x) :
    fillOrder x qty (y :: orders) = y :: fillOrder x qty orders := by
  rw [fillOrder, List.filterMap_cons, if_neg h]
  rfl

/-- A head that is used up goes. -/
theorem fillOrder_exhaust (h : x ∉ orders) (hz : x.remaining - qty = 0) :
    fillOrder x qty (x :: orders) = orders := by
  rw [fillOrder, List.filterMap_cons, if_pos rfl, if_pos hz]
  exact fillOrder_absent h

/-- A head that is not stays at the head. -/
theorem fillOrder_leaves (h : x ∉ orders) (hz : x.remaining - qty ≠ 0) :
    fillOrder x qty (x :: orders) = { x with remaining := x.remaining - qty } :: orders := by
  rw [fillOrder, List.filterMap_cons, if_pos rfl, if_neg hz]
  exact congrArg (_ :: ·) (fillOrder_absent h)

/-- Filling commutes with every filter that does not look at the remainder. -/
theorem fillOrder_filter {p : RefOrder → Bool}
    (hp : ∀ y rem, p { y with remaining := rem } = p y) :
    (fillOrder x qty orders).filter p = fillOrder x qty (orders.filter p) := by
  rw [fillOrder, fillOrder, List.filter_filterMap, List.filterMap_filter]
  refine List.filterMap_congr fun y _ => ?_
  by_cases hy : y = x
  · subst hy
    rw [if_pos rfl]
    by_cases hz : y.remaining - qty = 0
    · simp [hz]
    · rw [if_neg hz, Option.filter_some, hp]
  · rw [if_neg hy, Option.filter_some]

/-- Filling numbers nothing anew. -/
theorem fillOrder_seqs : ((fillOrder x qty orders).map RefOrder.seq).Sublist
    (orders.map RefOrder.seq) := by
  induction orders with
  | nil => exact List.Sublist.refl _
  | cons y orders ih =>
      by_cases hy : y = x
      · subst hy
        rw [fillOrder, List.filterMap_cons, if_pos rfl]
        split
        · exact ih.cons _
        · next b hb =>
            split at hb
            · cases hb
            · rw [← Option.some.inj hb]
              exact ih.cons_cons _
      · rw [fillOrder_cons hy]
        exact ih.cons_cons _

end Fill

/-! ## Matching -/

section Matching

variable {taker : OrderId} {side : Side} {price : Price} {type : OrderType}
  {left : Quantity} {orders : List RefOrder}

/-- A resting order on the other side whose price is within the limit. -/
def RefOrder.reach (side : Side) (price : Price) (type : OrderType) (x : RefOrder) : Bool :=
  x.side = side.opposite && !beyondLimit side.opposite price type x.price

/-- A price is within the limit, for the order and for the loop over the levels. -/
theorem accepts_iff {side : Side} {price p : Price} {type : OrderType} :
    (type = .limit → side.Accepts price p)
      ↔ beyondLimit side.opposite price type p = false := by
  rw [beyondLimit]
  cases side with
  | buy =>
      show (type = .limit → p ≤ price)
        ↔ (decide (type = .limit) && decide (price < p)) = false
      rw [Bool.and_eq_false_imp, decide_eq_true_iff, decide_eq_false_iff_not, UInt64.not_lt]
  | sell =>
      show (type = .limit → price ≤ p)
        ↔ (decide (type = .limit) && decide (p < price)) = false
      rw [Bool.and_eq_false_imp, decide_eq_true_iff, decide_eq_false_iff_not, UInt64.not_lt]

theorem RefOrder.tradable_iff (x : RefOrder) :
    x.Tradable side price type ↔ x.reach side price type = true ∧ 0 < x.remaining := by
  rw [RefOrder.Tradable, accepts_iff, RefOrder.reach, Bool.and_eq_true, decide_eq_true_iff,
    Bool.not_eq_true']
  constructor
  · rintro ⟨hside, hrem, hb⟩
    exact ⟨⟨hside, hb⟩, hrem⟩
  · rintro ⟨⟨hside, hb⟩, hrem⟩
    exact ⟨hside, hrem, hb⟩

/-- What is within reach is on the other side. -/
theorem filter_reach (os : List RefOrder) :
    (os.filter fun x => x.side = side.opposite).filter (RefOrder.reach side price type)
      = os.filter (RefOrder.reach side price type) := by
  rw [List.filter_filter]
  refine List.filter_congr fun x _ => ?_
  rw [RefOrder.reach]
  cases decide (x.side = side.opposite) <;> simp

/-- The other side is what is within reach and what is not. -/
theorem opposite_split (os : List RefOrder) :
    (os.filter (RefOrder.reach side price type)
      ++ (os.filter fun x => !x.reach side price type).filter
        fun x => x.side = side.opposite).Perm (os.filter fun x => x.side = side.opposite) := by
  rw [List.filter_comm, ← filter_reach os]
  exact List.filter_append_perm _ _

/-- Nothing on the taker's own side is within reach. -/
theorem own_unreached (os : List RefOrder) :
    os.filter (fun x => x.side = side)
      = (os.filter fun x => !x.reach side price type).filter fun x => x.side = side := by
  rw [List.filter_filter]
  refine List.filter_congr fun x _ => ?_
  by_cases hx : x.side = side
  · simp [RefOrder.reach, hx, (Side.opposite_ne side).symm]
  · simp [hx]

/-- Where nothing is within reach, `pick` finds nothing. -/
theorem pick_none (hnil : orders.filter (RefOrder.reach side price type) = []) :
    pick side price type orders = none := by
  have hnone : orders.filter (fun x => x.Tradable side price type) = [] := by
    rw [List.filter_eq_nil_iff] at hnil ⊢
    intro x hx htrade
    exact hnil x hx (x.tradable_iff.mp (of_decide_eq_true htrade)).1
  rw [pick, hnone]
  rfl

/-- `pick` finds the head of the sorted list of what is within reach. -/
theorem pick_head {x : RefOrder} {L : List RefOrder} (hpos : ∀ y ∈ x :: L, 0 < y.remaining)
    (hperm : (x :: L).Perm (orders.filter (RefOrder.reach side price type)))
    (hx : ∀ y ∈ L, x.Before y) : pick side price type orders = some x := by
  have hsame : orders.filter (fun y => y.Tradable side price type)
      = orders.filter (RefOrder.reach side price type) := by
    refine List.filter_congr fun y hy => ?_
    rw [Bool.eq_iff_iff, decide_eq_true_iff, y.tradable_iff]
    constructor
    · exact fun h => h.1
    · exact fun h => ⟨h, hpos y (hperm.symm.subset (List.mem_filter.mpr ⟨hy, h⟩))⟩
  rw [pick, hsame]
  refine first_eq (s := side.opposite) ?_ hperm hx
  intro z hz
  have hreach := (List.mem_filter.mp hz).2
  rw [RefOrder.reach, Bool.and_eq_true, decide_eq_true_iff] at hreach
  exact hreach.1

theorem matchAll_done : matchAll taker side price type 0 orders = ⟨[], 0, orders⟩ := by
  rw [matchAll, dif_pos rfl]

theorem matchAll_none (h : pick side price type orders = none) :
    matchAll taker side price type left orders = ⟨[], left, orders⟩ := by
  rw [matchAll]
  split
  · rfl
  · split
    · rfl
    · next hx => cases h.symm.trans hx

theorem matchAll_some {x : RefOrder} (hleft : left ≠ 0)
    (h : pick side price type orders = some x) :
    matchAll taker side price type left orders
      = { matchAll taker side price type (left - min left x.remaining)
            (fillOrder x (min left x.remaining) orders) with
          events := ⟨x.id, taker, x.price, min left x.remaining, 0⟩
            :: (matchAll taker side price type (left - min left x.remaining)
              (fillOrder x (min left x.remaining) orders)).events } := by
  rw [matchAll, dif_neg hleft]
  split
  · next hnone => cases h.symm.trans hnone
  · next y hy =>
      obtain rfl := Option.some.inj (h.symm.trans hy)
      rfl

/-- The lot of a resting order. -/
def RefOrder.lot (x : RefOrder) : Lot := (⟨x.price, x.id⟩, x.remaining.toNat)

/-- Matching in terms of the lots `L` within reach: what was taken, what is left
    of them and of the other orders. -/
structure MatchedLots (taker : OrderId) (reach : RefOrder → Bool) (left : Quantity)
    (orders L : List RefOrder) (m : RefMatched) : Prop where
  events : m.events = (fills left.toNat (L.map RefOrder.lot)).map (eventOf taker)
  demand : m.left.toNat = left.toNat - total (L.map RefOrder.lot)
  taken  : ∃ L' : List RefOrder, L'.Pairwise RefOrder.Before ∧ L'.Perm (m.orders.filter reach)
    ∧ L'.map RefOrder.lot = rest left.toNat (L.map RefOrder.lot)
  others : m.orders.filter (fun x => !reach x) = orders.filter (fun x => !reach x)
  seqs   : (m.orders.map RefOrder.seq).Sublist (orders.map RefOrder.seq)

/-- **THE BEST MAKER AGAIN AND AGAIN** takes the lots in the order of priority. -/
theorem matchAll_lots {L : List RefOrder} (hsorted : L.Pairwise RefOrder.Before)
    (hpos : ∀ x ∈ L, 0 < x.remaining)
    (hperm : L.Perm (orders.filter (RefOrder.reach side price type))) :
    MatchedLots taker (RefOrder.reach side price type) left orders L
      (matchAll taker side price type left orders) := by
  have hlots : ∀ {L : List RefOrder}, (∀ x ∈ L, 0 < x.remaining) →
      Positive (L.map RefOrder.lot) := by
    intro L hpos lot hlot
    obtain ⟨x, hx, rfl⟩ := List.mem_map.mp hlot
    exact quantity_pos.mp (hpos x hx)
  induction L generalizing left orders with
  | nil =>
      rw [matchAll_none (pick_none hperm.nil_eq.symm)]
      exact ⟨rfl, rfl, ⟨[], List.Pairwise.nil, hperm, rfl⟩, rfl, List.Sublist.refl _⟩
  | cons x L ih =>
      obtain ⟨hx, hL⟩ := List.pairwise_cons.mp hsorted
      have hposL : ∀ y ∈ L, 0 < y.remaining := fun y hy => hpos y (List.mem_cons_of_mem _ hy)
      by_cases hleft : left = 0
      · subst hleft
        rw [matchAll_done]
        refine ⟨?_, ?_, ⟨x :: L, hsorted, hperm, ?_⟩, rfl, List.Sublist.refl _⟩
        · exact (congrArg (List.map (eventOf taker)) (fills_zero _)).symm
        · exact (Nat.zero_sub _).symm
        · exact (rest_zero (hlots hpos)).symm
      · rw [matchAll_some hleft (pick_head hpos hperm hx)]
        have hq : left.toNat ≠ 0 := fun h => hleft (quantity_zero.mpr h)
        have hnot : x ∉ L := by
          intro h
          have hxx := hx x h
          rw [RefOrder.before_iff rfl] at hxx
          omega
        have hperm' : (fillOrder x (min left x.remaining) (x :: L)).Perm
            ((fillOrder x (min left x.remaining) orders).filter
              (RefOrder.reach side price type)) := by
          rw [fillOrder_filter fun _ _ => rfl]
          exact hperm.filterMap _
        have hothers : (fillOrder x (min left x.remaining) orders).filter
              (fun y => !y.reach side price type)
            = orders.filter (fun y => !y.reach side price type) := by
          rw [fillOrder_filter fun _ _ => rfl]
          refine fillOrder_absent fun h => ?_
          have hxreach := (List.mem_filter.mp (hperm.subset List.mem_cons_self)).2
          have hno := (List.mem_filter.mp h).2
          rw [hxreach] at hno
          cases hno
        -- the event of this fill, in front of those of the others
        have hfirst : (⟨x.id, taker, x.price, min left x.remaining, 0⟩ : MatchEvent)
            :: (fills (left.toNat - x.remaining.toNat) (L.map RefOrder.lot)).map (eventOf taker)
              = (fills left.toNat ((x :: L).map RefOrder.lot)).map (eventOf taker) := by
          rw [List.map_cons, RefOrder.lot, fills_cons hq, List.map_cons, eventOf_fill]
        -- the maker goes, or the taker does
        by_cases hz : x.remaining - min left x.remaining = 0
        · rw [fillOrder_exhaust hnot hz] at hperm'
          have hrest := @ih (left - min left x.remaining) _ hL hposL hperm'
          rw [quantity_zero, maker_toNat] at hz
          refine ⟨?_, ?_, ?_, hrest.others.trans hothers, hrest.seqs.trans fillOrder_seqs⟩
          · rw [← hfirst, hrest.events, taker_toNat]
          · rw [hrest.demand, taker_toNat, List.map_cons, RefOrder.lot, total_cons, Nat.sub_sub]
          · obtain ⟨L', hsorted', hperm', hlots'⟩ := hrest.taken
            refine ⟨L', hsorted', hperm', hlots'.trans ?_⟩
            rw [taker_toNat, List.map_cons, RefOrder.lot, rest_exhaust (by omega)]
        · rw [fillOrder_leaves hnot hz] at hperm'
          rw [quantity_zero, maker_toNat] at hz
          have hzero : left - min left x.remaining = 0 := by
            rw [quantity_zero, taker_toNat]
            omega
          have hover : left.toNat - x.remaining.toNat = 0 := by omega
          rw [hzero, matchAll_done]
          refine ⟨?_, ?_, ⟨_, ?_, hperm', ?_⟩, hothers, fillOrder_seqs⟩
          · rw [← hfirst, hover, fills_zero]
            rfl
          · show 0 = _
            rw [List.map_cons, RefOrder.lot, total_cons]
            omega
          · exact List.pairwise_cons.mpr ⟨hx, hL⟩
          · rw [List.map_cons, List.map_cons, RefOrder.lot, RefOrder.lot, rest_leaves (by omega),
              maker_toNat]

end Matching

/-! ## The books agree -/

/-- Resting orders in order of acceptance and the levels of a book: sorted by
    priority, the orders of a side are its lots. -/
structure Refers (orders : List RefOrder) (accepted : ℕ) (rungs : Side → List Rung) :
    Prop where
  side     : ∀ s, ∃ L : List RefOrder, L.Pairwise RefOrder.Before
    ∧ L.Perm (orders.filter fun x => x.side = s) ∧ L.map RefOrder.lot = lots (rungs s)
  seqs     : (orders.map RefOrder.seq).Pairwise (· < ·)
  accepted : ∀ x ∈ orders, x.seq < accepted

section Agree

variable {orders : List RefOrder} {accepted : ℕ} {a : Ladder} {side : Side}

/-- The lots of a selection by price. -/
theorem filter_lot (p : Price → Bool) (L : List RefOrder) :
    (L.filter fun x => p x.price).map RefOrder.lot
      = (L.map RefOrder.lot).filter fun x => p x.1.price := by
  rw [List.filter_map]
  rfl

theorem Refers.rests_iff (h : Refers orders accepted a.rungs) (id : OrderId) :
    (∃ x ∈ orders, x.id = id) ↔ a.Rests id := by
  constructor
  · rintro ⟨x, hx, rfl⟩
    obtain ⟨L, -, hperm, hlots⟩ := h.side x.side
    have hxL : x ∈ L := hperm.symm.subset (List.mem_filter.mpr ⟨hx, by simp⟩)
    have hlot : x.lot ∈ lots (a.rungs x.side) := hlots ▸ List.mem_map_of_mem hxL
    obtain ⟨lv, hlv, r, hr, heq⟩ := mem_lots.mp hlot
    exact ⟨x.side, r, List.mem_flatMap.mpr ⟨lv, hlv, hr⟩, congrArg (fun y => y.1.id) heq⟩
  · rintro ⟨s, r, hr, rfl⟩
    obtain ⟨L, -, hperm, hlots⟩ := h.side s
    obtain ⟨lv, hlv, hr⟩ := List.mem_flatMap.mp hr
    have hlot : r.lot lv.price ∈ L.map RefOrder.lot := hlots ▸ mem_lots.mpr ⟨lv, hlv, r, hr, rfl⟩
    obtain ⟨x, hx, heq⟩ := List.mem_map.mp hlot
    exact ⟨x, (List.mem_filter.mp (hperm.subset hx)).1, congrArg (fun y => y.1.id) heq⟩

theorem Refers.empty (maxOrders maxLevels : Nat) :
    Refers [] 0 (Ladder.empty maxOrders maxLevels).rungs :=
  ⟨fun _ => ⟨[], List.Pairwise.nil, List.Perm.refl _, rfl⟩, List.Pairwise.nil,
    fun _ h => absurd h List.not_mem_nil⟩

/-- **MATCHING** keeps the books in agreement. -/
theorem Refers.matched (h : Refers orders accepted a.rungs) (hwf : a.WF)
    (now : Nat → Timestamp) (id : OrderId) (side : Side) (price : Price) (qty : Quantity)
    (type : OrderType) :
    (matchAll id side price type qty orders).events
        = (a.swept now id side price qty type).events.map Relabelling.identity.event
      ∧ (matchAll id side price type qty orders).left
        = (a.swept now id side price qty type).left
      ∧ Refers (matchAll id side price type qty orders).orders accepted
        (a.afterSweep side (a.swept now id side price qty type)).rungs := by
  obtain ⟨L, hsorted, hperm, hlots⟩ := h.side side.opposite
  have hsideL : ∀ x ∈ L, x.side = side.opposite :=
    fun x hx => of_decide_eq_true (List.mem_filter.mp (hperm.subset hx)).2
  -- within reach, on the other side, is a matter of the price
  have hreach : L.filter (RefOrder.reach side price type)
      = L.filter (fun x => !beyondLimit side.opposite price type x.price) := by
    refine List.filter_congr fun x hx => ?_
    rw [RefOrder.reach, decide_eq_true (hsideL x hx), Bool.true_and]
  have hreachLots : (L.filter (RefOrder.reach side price type)).map RefOrder.lot
      = a.reachable side price type := by
    rw [hreach, Ladder.reachable, ← hlots]
    exact filter_lot (fun p => !beyondLimit side.opposite price type p) L
  have hpos : ∀ x ∈ L.filter (RefOrder.reach side price type), 0 < x.remaining := by
    intro x hx
    have hlot : x.lot ∈ lots (a.rungs side.opposite) :=
      hlots ▸ List.mem_map_of_mem (List.mem_of_mem_filter hx)
    exact quantity_pos.mpr (lots_positive (hwf.side side.opposite).live x.lot hlot)
  have hmatched : MatchedLots id (RefOrder.reach side price type) qty orders
      (L.filter (RefOrder.reach side price type)) (matchAll id side price type qty orders) :=
    matchAll_lots (hsorted.filter _) hpos (filter_reach orders ▸ hperm.filter _)
  have hswept := hwf.swept_lots now id side price qty type
  generalize matchAll id side price type qty orders = m' at *
  generalize a.swept now id side price qty type = m at *
  refine ⟨by rw [hmatched.events, hswept.events, hreachLots],
    by rw [← UInt32.toNat_inj, hmatched.demand, hswept.demand, hreachLots], ?_⟩
  obtain ⟨L', hsorted', hperm', hlots'⟩ := hmatched.taken
  refine ⟨fun s => ?_, h.seqs.sublist hmatched.seqs, fun x hx => ?_⟩
  · by_cases hs : s = side.opposite
    · subst hs
      rw [Ladder.afterSweep_opposite, hswept.taken]
      refine ⟨L' ++ L.filter (fun x => beyondLimit side.opposite price type x.price), ?_, ?_, ?_⟩
      · refine List.pairwise_append.mpr ⟨hsorted', hsorted.filter _, fun x hx y hy => ?_⟩
        -- an order within reach comes before one beyond it
        have hx := (List.mem_filter.mp (hperm'.subset hx)).2
        rw [RefOrder.reach, Bool.and_eq_true, decide_eq_true_iff, Bool.not_eq_true'] at hx
        have hy := (List.mem_filter.mp hy).2
        left
        rw [hx.1]
        by_contra hno
        by_cases hyx : side.opposite.comparator y.price x.price
        · exact absurd (beyondLimit_mono _ _ hyx hy) (by simp [hx.2])
        · rw [← SortedMap.key_eq hno hyx, hx.2] at hy
          cases hy
      · -- what is left is what is within reach, and what never was
        have hbeyond : L.filter (fun x => beyondLimit side.opposite price type x.price)
            = L.filter (fun x => !x.reach side price type) := by
          refine List.filter_congr fun x hx => ?_
          rw [RefOrder.reach, decide_eq_true (hsideL x hx), Bool.true_and, Bool.not_not]
        refine List.Perm.trans (hperm'.append ?_) (opposite_split m'.orders)
        rw [hbeyond, hmatched.others, List.filter_comm]
        exact hperm.filter _
      · rw [List.map_append, hlots', hreachLots, Ladder.unreachable, ← hlots]
        exact congrArg (_ ++ ·) (filter_lot (beyondLimit side.opposite price type) L)
    · obtain rfl : s = side := by
        rw [Side.eq_opposite hs, Side.opposite_opposite]
      rw [Ladder.afterSweep_own]
      rw [own_unreached, hmatched.others, ← own_unreached]
      exact h.side s
  · obtain ⟨y, hy, hseq⟩ := List.mem_map.mp (hmatched.seqs.subset (List.mem_map_of_mem hx))
    rw [← hseq]
    exact h.accepted y hy

/-- **RESTING** an order keeps the books in agreement. -/
theorem Refers.rest {rungs : Side → List Rung} (h : Refers orders accepted rungs)
    (hside : SideWF side (rungs side)) (id : OrderId) (price : Price) (qty left : Quantity) :
    Refers (orders ++ [⟨id, side, price, left, accepted⟩]) (accepted + 1)
      (Function.update rungs side (insertOrder side price ⟨id, qty, left⟩ (rungs side))) where
  side := fun s => by
    by_cases hs : s = side
    · subst hs
      obtain ⟨L, hsorted, hperm, hlots⟩ := h.side s
      have hL : ∀ x ∈ L, x.side = s ∧ x.seq < accepted := fun x hx => by
        obtain ⟨hmem, hxs⟩ := List.mem_filter.mp (hperm.subset hx)
        exact ⟨of_decide_eq_true hxs, h.accepted x hmem⟩
      refine ⟨(L.filter fun x => !decide (s.comparator price x.price))
        ++ ⟨id, s, price, left, accepted⟩ :: L.filter fun x => decide (s.comparator price x.price),
        ?_, ?_, ?_⟩
      · -- it comes after everything that is not worse, being the last one accepted
        refine List.pairwise_append.mpr ⟨hsorted.filter _,
          List.pairwise_cons.mpr ⟨fun y hy => ?_, hsorted.filter _⟩, fun x hx y hy => ?_⟩
        · exact Or.inl (of_decide_eq_true (List.mem_filter.mp hy).2)
        · obtain ⟨hxL, hnot⟩ := List.mem_filter.mp hx
          obtain ⟨hxs, hxseq⟩ := hL x hxL
          rw [Bool.not_eq_true', decide_eq_false_iff_not, s.comparator_rank] at hnot
          rw [RefOrder.before_iff hxs]
          rcases List.mem_cons.mp hy with rfl | hy
          · show s.rank x.price < s.rank price ∨ s.rank x.price = s.rank price ∧ x.seq < accepted
            omega
          · have hworse := of_decide_eq_true (List.mem_filter.mp hy).2
            rw [s.comparator_rank] at hworse
            omega
      · rw [List.filter_append, List.filter_cons_of_pos (by simp), List.filter_nil]
        refine List.perm_middle.trans (List.Perm.trans ?_ List.perm_append_comm)
        refine (List.Perm.trans ?_ hperm).cons _
        exact List.perm_append_comm.trans (List.filter_append_perm _ L)
      · have hnot := filter_lot (fun p => !decide (s.comparator price p)) L
        have hworse := filter_lot (fun p => decide (s.comparator price p)) L
        rw [Function.update_self, insertOrder_lots hside, ← hlots, List.map_append, List.map_cons,
          hnot, hworse]
        rfl
    · rw [Function.update_of_ne hs, List.filter_append,
        List.filter_cons_of_neg (by simpa using Ne.symm hs), List.filter_nil, List.append_nil]
      exact h.side s
  seqs := by
    rw [List.map_append, List.pairwise_append]
    refine ⟨h.seqs, List.pairwise_singleton _ _, fun n hn n' hn' => ?_⟩
    obtain ⟨x, hx, rfl⟩ := List.mem_map.mp hn
    rw [List.map_singleton, List.mem_singleton] at hn'
    rw [hn']
    exact h.accepted x hx
  accepted := fun x hx => by
    rcases List.mem_append.mp hx with hx | hx
    · exact Nat.lt_succ_of_lt (h.accepted x hx)
    · rw [List.mem_singleton.mp hx]
      exact Nat.lt_succ_self accepted

/-- Accepting an order that does not rest. -/
theorem Refers.accept {rungs : Side → List Rung} (h : Refers orders accepted rungs) :
    Refers orders (accepted + 1) rungs :=
  ⟨h.side, h.seqs, fun x hx => Nat.lt_succ_of_lt (h.accepted x hx)⟩

/-- **CANCELLING** keeps the books in agreement. -/
theorem Refers.cancel {rungs : Side → List Rung} (h : Refers orders accepted rungs)
    (id : OrderId) : Refers (orders.filter fun x => x.id ≠ id) accepted
      (fun s => cancelIn id (rungs s)) where
  side := fun s => by
    obtain ⟨L, hsorted, hperm, hlots⟩ := h.side s
    refine ⟨L.filter fun x => x.id ≠ id, hsorted.filter _, ?_, ?_⟩
    · rw [List.filter_comm]
      exact hperm.filter _
    · rw [cancelIn_lots, ← hlots, List.filter_map]
      rfl
  seqs := h.seqs.sublist (List.Sublist.map _ List.filter_sublist)
  accepted := fun x hx => h.accepted x (List.mem_of_mem_filter hx)

end Agree

/-- **STEP**: a call that does not find a pool exhausted has the outcome of the
    reference and keeps the books in agreement. -/
theorem Refers.step {b : RefBook} {a : Ladder} (h : Refers b.orders b.accepted a.rungs)
    (hwf : a.WF) (c : Call) (hc : (Ladder.step c a).1 ≠ .threw .poolExhausted) :
    (RefBook.step c b).1 = (Ladder.step c a).1.untimed
      ∧ Refers (RefBook.step c b).2.orders (RefBook.step c b).2.accepted
        (Ladder.step c a).2.rungs := by
  obtain ⟨op, now⟩ := c
  cases op with
  | cancelOrder id =>
      show (RefBook.cancelOrder id b).1 = (Ladder.cancelOrder id a).1.untimed
        ∧ Refers (RefBook.cancelOrder id b).2.orders (RefBook.cancelOrder id b).2.accepted
          (Ladder.cancelOrder id a).2.rungs
      rw [RefBook.cancelOrder, Ladder.cancelOrder]
      by_cases hr : a.Rests id
      · have hb : b.Rests id := (h.rests_iff id).mpr hr
        rw [if_pos hr, if_pos hb]
        exact ⟨rfl, h.cancel id⟩
      · have hb : ¬ b.Rests id := mt (h.rests_iff id).mp hr
        rw [if_neg hr, if_neg hb]
        exact ⟨rfl, h⟩
  | addOrder id side price qty type =>
      have hbad : qty = 0 ∨ b.Rests id ↔ qty = 0 ∨ a.Rests id := or_congr_right (h.rests_iff id)
      obtain ⟨hevents, hleft, hmatched⟩ := h.matched hwf now id side price qty type
      show (RefBook.addOrder id side price qty type b).1
          = (Ladder.addOrder now id side price qty type a).1.untimed
        ∧ Refers (RefBook.addOrder id side price qty type b).2.orders
          (RefBook.addOrder id side price qty type b).2.accepted
          (Ladder.addOrder now id side price qty type a).2.rungs
      have hcase := addOrder_cases now id side price qty type a
      change (Ladder.addOrder now id side price qty type a).1 ≠ _ at hc
      generalize Ladder.addOrder now id side price qty type a = v at hcase hc ⊢
      obtain ⟨out, a'⟩ := v
      rw [RefBook.addOrder]
      cases hcase with
      | rejected hrej =>
          rw [if_pos (hbad.mpr hrej)]
          exact ⟨rfl, h⟩
      | refused => exact absurd rfl hc
      | leaked => exact absurd rfl hc
      | rested hqty hid _ hpos hlimit =>
          have hown : (a.afterSweep side (a.swept now id side price qty type)).rungs side
              = a.rungs side := Ladder.afterSweep_own a side _
          have hrests : (matchAll id side price type qty b.orders).left > 0 ∧ type = .limit := by
            rw [hleft, quantity_pos]
            exact ⟨Nat.pos_of_ne_zero (mt quantity_zero.mpr hpos), hlimit⟩
          rw [if_neg (mt hbad.mp (not_or.mpr ⟨hqty, hid⟩))]
          dsimp only
          rw [if_pos hrests, hleft]
          refine ⟨congrArg Outcome.events hevents, ?_⟩
          have hrest := hmatched.rest (hown.symm ▸ hwf.side side) id price qty
            (a.swept now id side price qty type).left
          rw [hown] at hrest
          exact hrest
      | finished hqty hid _ hdone =>
          have hrests : ¬ ((matchAll id side price type qty b.orders).left > 0
              ∧ type = .limit) := by
            rintro ⟨hpos, hlimit⟩
            rw [hleft, quantity_pos] at hpos
            rcases hdone with hzero | hlimit'
            · rw [quantity_zero] at hzero
              omega
            · exact hlimit' hlimit
          rw [if_neg (mt hbad.mp (not_or.mpr ⟨hqty, hid⟩))]
          dsimp only
          rw [if_neg hrests, List.append_nil]
          exact ⟨congrArg Outcome.events hevents, hmatched.accept⟩

/-! ## Runs -/

/-- The queue at a price: ids and remainders, first come first. -/
def OrderBook.queueAt (s : OrderBook) (side : Side) (price : Price) :
    List (OrderId × Quantity) :=
  ((s.levels side).filter fun lv => lv.price = price).flatMap
    fun lv => lv.orders.map RestingOrder.standing

/-- The book holds what the reference holds. -/
structure Agrees (s : OrderBook) (b : RefBook) : Prop where
  /-- At every price, the orders in order of acceptance. -/
  queues : ∀ side price, s.queueAt side price = b.queueAt side price
  seqs   : (b.orders.map RefOrder.seq).Pairwise (· < ·)
  /-- And no level without an order. -/
  levels : ∀ side, ∀ lv ∈ s.levels side, lv.orders ≠ []
  known  : ∀ id, s.orderMap.lookup id ≠ none ↔ b.Rests id

/-- The queue at a price, from the lots. -/
theorem queueAt_lots (rungs : List Rung) (price : Price) :
    (rungs.filter fun lv => lv.price = price).flatMap
        (fun lv => lv.orders.map RestingOrder.standing)
      = ((lots rungs).filter fun x => x.1.price = price).map
        fun x => (x.1.id, UInt32.ofNat x.2) := by
  have hprice := lots_filter_price (fun p => decide (p = price)) rungs
  rw [hprice, lots, List.map_flatMap]
  refine List.flatMap_congr fun lv _ => ?_
  exact (lotsOf_standing lv.price lv.orders).symm

/-- Sorted by priority, the orders at one price are in order of acceptance. -/
theorem Refers.queueAt {b : RefBook} {rungs : Side → List Rung}
    (h : Refers b.orders b.accepted rungs) (side : Side) (price : Price) :
    ((rungs side).filter fun lv => lv.price = price).flatMap
      (fun lv => lv.orders.map RestingOrder.standing) = b.queueAt side price := by
  obtain ⟨L, hsorted, hperm, hlots⟩ := h.side side
  have hprice := filter_lot (fun p => decide (p = price)) L
  have hsame : L.filter (fun x => x.price = price)
      = b.orders.filter fun x => x.side = side ∧ x.price = price := by
    have hperm' : (L.filter fun x => x.price = price).Perm
        (b.orders.filter fun x => x.side = side ∧ x.price = price) := by
      refine (hperm.filter _).trans (List.Perm.of_eq ?_)
      rw [List.filter_filter]
      refine List.filter_congr fun x _ => ?_
      rw [Bool.decide_and, Bool.and_comm]
    have hless : ∀ x y : RefOrder, x.seq < y.seq → ¬ y.seq < x.seq := fun _ _ => Nat.lt_asymm
    refine List.Perm.eq_of_pairwise (fun x y _ _ hxy hyx => absurd hyx (hless x y hxy)) ?_ ?_ hperm'
    · refine (hsorted.filter _).imp_of_mem fun {x y} hx hy hxy => ?_
      have hxp := of_decide_eq_true (List.mem_filter.mp hx).2
      have hyp := of_decide_eq_true (List.mem_filter.mp hy).2
      rw [RefOrder.before_iff rfl, hxp, hyp] at hxy
      omega
    · exact (List.pairwise_map.mp h.seqs).filter _
  rw [queueAt_lots, ← hlots, ← hprice, hsame, List.map_map, RefBook.queueAt]
  refine List.map_congr_left fun x _ => ?_
  show (x.id, UInt32.ofNat x.remaining.toNat) = (x.id, x.remaining)
  rw [UInt32.ofNat_toNat]

theorem Rep.agrees {s : OrderBook} {q : LevelPtr → List OrderPtr} {a : Ladder}
    (hrep : Rep s q a) (hwf : a.WF) {b : RefBook} (h : Refers b.orders b.accepted a.rungs) :
    Agrees s b where
  queues := fun side price => by
    rw [OrderBook.queueAt, hrep.levels_eq]
    exact h.queueAt side price
  seqs := h.seqs
  levels := fun side lv hlv => by
    rw [hrep.levels_eq] at hlv
    exact (hwf.side side).nonempty lv hlv
  known := fun id => by
    rw [← hrep.rests_iff]
    exact (h.rests_iff id).symm

/-- **PRICE-TIME PRIORITY**: as long as no pool is exhausted, every call returns
    what the reference returns, and the book holds what the reference holds. -/
theorem reached_reference (maxOrders maxLevels : Nat) (calls : List Call)
    (h : ∀ o ∈ (OrderBook.run calls (OrderBook.new maxOrders maxLevels)).1,
      o ≠ .threw .poolExhausted) :
    (OrderBook.run calls (OrderBook.new maxOrders maxLevels)).1.map Outcome.untimed
        = (RefBook.run calls RefBook.empty).1
      ∧ ∀ n, Agrees (OrderBook.reached maxOrders maxLevels (calls.take n))
        (RefBook.run (calls.take n) RefBook.empty).2 := by
  rw [(new_refines maxOrders maxLevels calls).1] at h ⊢
  have hrun : ∀ calls : List Call,
      Along Ladder.step (fun c a => (Ladder.step c a).1 ≠ .threw .poolExhausted) calls
        (Ladder.empty maxOrders maxLevels) →
      List.Forall₂ (fun o o' => o.untimed = o')
          (Ladder.run calls (Ladder.empty maxOrders maxLevels)).1
          (RefBook.run calls RefBook.empty).1
        ∧ Refers (RefBook.run calls RefBook.empty).2.orders
          (RefBook.run calls RefBook.empty).2.accepted
          (Ladder.reached maxOrders maxLevels calls).rungs := by
    intro calls halong
    obtain ⟨houts, -, hrefers⟩ := run_simulation (Q := Eq)
      (R := fun (a : Ladder) (b : RefBook) => a.WF ∧ Refers b.orders b.accepted a.rungs)
      (O := fun o o' => Outcome.untimed o = o') (t := RefBook.empty)
      (fun c c' a b hcc hc ⟨hwf, hrefers⟩ => by
        subst hcc
        obtain ⟨hout, hnext⟩ := hrefers.step hwf c hc
        exact ⟨hout.symm, hwf.step c, hnext⟩)
      (List.forall₂_same.mpr fun c _ => rfl) halong
      ⟨Ladder.WF.empty maxOrders maxLevels, Refers.empty maxOrders maxLevels⟩
    exact ⟨houts, hrefers⟩
  have halong : Along Ladder.step (fun c a => (Ladder.step c a).1 ≠ .threw .poolExhausted)
      calls (Ladder.empty maxOrders maxLevels) := Along.of_outputs h
  constructor
  · rw [← List.forall₂_eq_eq_eq, List.forall₂_map_left_iff]
    exact (hrun calls halong).1
  · intro n
    obtain ⟨q, hrep⟩ := Rep.reached maxOrders maxLevels (calls.take n)
    rw [← List.take_append_drop n calls] at halong
    exact hrep.agrees (Ladder.WF.reached maxOrders maxLevels (calls.take n))
      (hrun (calls.take n) halong.of_append).2

/-- Two makers at one price: the earlier one is filled first, the rest of the
    later one is cancelled. -/
theorem reached_reference_queue : Agrees
    (OrderBook.reached defaultMaxOrders defaultMaxLevels
      [⟨.addOrder 1 .sell 100 5 .limit, fun _ => 1⟩, ⟨.addOrder 2 .sell 100 5 .limit, fun _ => 2⟩,
        ⟨.addOrder 3 .buy 101 7 .limit, fun _ => 3⟩, ⟨.cancelOrder 2, fun _ => 4⟩])
    (RefBook.run [⟨.addOrder 1 .sell 100 5 .limit, fun _ => 1⟩,
      ⟨.addOrder 2 .sell 100 5 .limit, fun _ => 2⟩,
      ⟨.addOrder 3 .buy 101 7 .limit, fun _ => 3⟩, ⟨.cancelOrder 2, fun _ => 4⟩]
      RefBook.empty).2 :=
  (reached_reference defaultMaxOrders defaultMaxLevels
    [⟨.addOrder 1 .sell 100 5 .limit, fun _ => 1⟩, ⟨.addOrder 2 .sell 100 5 .limit, fun _ => 2⟩,
      ⟨.addOrder 3 .buy 101 7 .limit, fun _ => 3⟩, ⟨.cancelOrder 2, fun _ => 4⟩]
    (by decide +kernel)).2 4

end Lob
