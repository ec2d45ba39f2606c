import AsyncNetLob.LobEffectProofs
import Mathlib.Data.Finset.Card

/-! # A band of prices

    The slot that a run can lose is lost for want of a price level
    (`OrderBook.LosesSlot`).  A book needs no more levels than there are prices at
    which LIMIT orders were submitted (`reached_mem_lots`), so with a level slot for each of
    these prices the pools stay whole, and what `addOrder` throws means that every
    order slot holds a resting order (`reached_banded`). -/

namespace Lob

/-- A LIMIT order has one of these prices. -/
def Op.Within (band : Finset Price) : Op → Prop
  | .addOrder _ _ price _ type => type = .limit → price ∈ band
  | .cancelOrder _ => True

instance (band : Finset Price) : ∀ op : Op, Decidable (op.Within band)
  | .addOrder _ _ price _ type => inferInstanceAs (Decidable (type = .limit → price ∈ band))
  | .cancelOrder _ => inferInstanceAs (Decidable True)

section Ladders

variable {a : Ladder} {side : Side} {price : Price} {band : Finset Price}

/-- All prices that have a level, from one side and from the other. -/
def Ladder.prices (a : Ladder) (side : Side) : List Price :=
  (a.rungs side).map Rung.price ++ (a.rungs side.opposite).map Rung.price

/-- No price has two levels. -/
theorem Ladder.WF.prices_nodup (h : a.WF) (side : Side) : (a.prices side).Nodup := by
  refine List.nodup_append.mpr ⟨(h.side side).prices_nodup, (h.side side.opposite).prices_nodup,
    fun p hp p' hp' heq => ?_⟩
  obtain ⟨lv, hlv, rfl⟩ := List.mem_map.mp hp
  obtain ⟨lv', hlv', rfl⟩ := List.mem_map.mp hp'
  have hlt := h.uncrossed side lv hlv lv' hlv'
  rw [heq] at hlt
  exact irrefl_of side.comparator _ hlt

/-- **A LEVEL IS FREE** for a price in the band. -/
theorem Ladder.WF.level_free (h : a.WF) (hcard : band.card ≤ a.levelSlots)
    (hband : ∀ p ∈ a.prices side, p ∈ band) (hprice : price ∈ band) :
    ¬ a.NoLevelFor side price := by
  rintro ⟨hother, hown, hfull⟩
  -- the price would be one more than the levels have
  have hnew : price ∉ a.prices side := by
    intro hmem
    rcases List.mem_append.mp hmem with hp | hp
    · obtain ⟨lv, hlv, heq⟩ := List.mem_map.mp hp
      exact hown ⟨lv, hlv, heq⟩
    · obtain ⟨lv, hlv, rfl⟩ := List.mem_map.mp hp
      exact irrefl_of side.opposite.comparator _ (hother lv hlv)
  have hsub : price :: a.prices side ⊆ band.toList := by
    intro p hp
    rw [Finset.mem_toList]
    rcases List.mem_cons.mp hp with rfl | hp
    · exact hprice
    · exact hband p hp
  have hlength := (List.subperm_of_subset
    (List.nodup_cons.mpr ⟨hnew, h.prices_nodup side⟩) hsub).length_le
  rw [List.length_cons, Ladder.prices, List.length_append, List.length_map, List.length_map,
    ← Ladder.levelCount_eq, Finset.length_toList] at hlength
  omega

end Ladders

/-- The prices of a book are those of submitted LIMIT orders. -/
theorem reached_prices {maxOrders maxLevels : Nat} {calls : List Call} {band : Finset Price}
    (h : ∀ c ∈ calls, c.op.Within band) (side : Side) :
    ∀ p ∈ (Ladder.reached maxOrders maxLevels calls).prices side, p ∈ band := by
  have hwf := Ladder.WF.reached maxOrders maxLevels calls
  have hside : ∀ {side : Side} {p : Price},
      p ∈ ((Ladder.reached maxOrders maxLevels calls).rungs side).map Rung.price → p ∈ band := by
    intro side p hp
    obtain ⟨y, hy, rfl⟩ := (hwf.side side).prices_lots.mp hp
    obtain ⟨c, hc, qty, hop⟩ := reached_mem_lots hy
    have hwithin := h c hc
    rw [hop] at hwithin
    exact hwithin rfl
  intro p hp
  exact (List.mem_append.mp hp).elim hside hside

/-- **NO SLOT IS LOST** by a call within the band. -/
theorem reached_keepsSlot {maxOrders maxLevels : Nat} {calls : List Call} {band : Finset Price}
    (hcard : band.card ≤ maxLevels) (h : ∀ c ∈ calls, c.op.Within band) {c : Call}
    (hc : c.op.Within band) : ¬ (OrderBook.reached maxOrders maxLevels calls).LosesSlot c := by
  rintro ⟨id, side, price, qty, hop, -, -, -, hlevel⟩
  obtain ⟨q, hrep⟩ := Rep.reached maxOrders maxLevels calls
  have hwf := Ladder.WF.reached maxOrders maxLevels calls
  rw [hrep.noLevelFor_iff hwf] at hlevel
  rw [hop] at hc
  refine hwf.level_free ?_ (reached_prices h side) (hc rfl) hlevel
  rw [reached_levelSlots]
  exact hcard

theorem reached_orderSlots {maxOrders maxLevels : Nat} {calls : List Call} {band : Finset Price}
    (hcard : band.card ≤ maxLevels) (h : ∀ c ∈ calls, c.op.Within band) :
    (Ladder.reached maxOrders maxLevels calls).orderSlots = maxOrders := by
  induction calls using List.reverseRecOn with
  | nil => rfl
  | append_singleton calls c ih =>
      have hbefore : ∀ c ∈ calls, c.op.Within band := fun c' hc' =>
        h c' (List.mem_append_left _ hc')
      have hkeeps := @reached_keepsSlot maxOrders maxLevels calls band hcard hbefore c
        (h c (List.mem_append_right _ List.mem_cons_self))
      rcases reached_orderSlots_snoc maxOrders maxLevels calls c with ⟨-, hsame⟩ | ⟨hlost, -⟩
      · exact hsame.trans (ih hbefore)
      · exact absurd hlost hkeeps

/-- Both pools account for every slot. -/
theorem reached_accounted {maxOrders maxLevels : Nat} {calls : List Call} {band : Finset Price}
    (hcard : band.card ≤ maxLevels) (h : ∀ c ∈ calls, c.op.Within band) :
    Conserved maxOrders maxLevels (OrderBook.reached maxOrders maxLevels calls) := by
  obtain ⟨q, hrep⟩ := Rep.reached maxOrders maxLevels calls
  exact (hrep.conserved_iff (reached_levelSlots maxOrders maxLevels calls)).mpr
    (reached_orderSlots hcard h)

/-- **ONLY A FULL BOOK** throws. -/
theorem reached_full {maxOrders maxLevels : Nat} {calls : List Call} {band : Finset Price}
    (hcard : band.card ≤ maxLevels) (h : ∀ c ∈ calls, c.op.Within band) {c : Call}
    (hc : c.op.Within band) {f : Fault}
    (hthrew : (OrderBook.step c (OrderBook.reached maxOrders maxLevels calls)).1 = .threw f) :
    (OrderBook.reached maxOrders maxLevels calls).activeOrdersCount = maxOrders := by
  obtain ⟨q, hrep⟩ := Rep.reached maxOrders maxLevels calls
  have hwf := Ladder.WF.reached maxOrders maxLevels calls
  obtain ⟨op, now⟩ := c
  cases op with
  | cancelOrder id =>
      have hcancel := (step_refines hrep ⟨.cancelOrder id, now⟩).1.symm.trans hthrew
      have hcancel' : (Ladder.cancelOrder id (Ladder.reached maxOrders maxLevels calls)).1
          = .threw f := hcancel
      rw [Ladder.cancelOrder] at hcancel'
      split at hcancel' <;> cases hcancel'
  | addOrder id side price qty type =>
      -- it throws for want of an order slot, since there is a level
      have hthrows : (OrderBook.reached maxOrders maxLevels calls).Throws id side price qty type := by
        by_contra hno
        obtain ⟨es, s', hrun⟩ := hrep.addOrder_returns hwf now hno
        rw [OrderBook.step] at hthrew
        dsimp only at hthrew
        rw [hrun] at hthrew
        cases hthrew
      obtain ⟨hqty, hid, hwhy⟩ := hthrows
      refine (reached_accounted hcard h).refused ?_
      by_contra hfree
      obtain ⟨rfl, hlevel⟩ := hwhy.resolve_left hfree
      exact reached_keepsSlot hcard h hc ⟨id, side, price, qty, rfl, hqty, hid, hfree, hlevel⟩

/-- **WITHIN A BAND** of no more prices than there are level slots, both pools account for every
    slot after every call, and a call only throws when all order slots hold resting
    orders. -/
theorem reached_banded (maxOrders : Nat) {maxLevels : Nat} {band : Finset Price}
    (hcard : band.card ≤ maxLevels) {calls : List Call} (h : ∀ c ∈ calls, c.op.Within band) :
    Conserved maxOrders maxLevels (OrderBook.reached maxOrders maxLevels calls)
      ∧ ∀ c : Call, c.op.Within band → ∀ f,
        (OrderBook.step c (OrderBook.reached maxOrders maxLevels calls)).1 = .threw f →
        (OrderBook.reached maxOrders maxLevels calls).activeOrdersCount = maxOrders :=
  ⟨reached_accounted hcard h, fun _ hc _ hthrew => reached_full hcard h hc hthrew⟩

/-- Two prices and two level slots, and one order slot that is taken. -/
theorem reached_banded_full :
    Conserved 1 2 (OrderBook.reached 1 2 [⟨.addOrder 1 .buy 100 5 .limit, fun _ => 0⟩])
      ∧ ∀ c : Call, c.op.Within {100, 101} → ∀ f,
        (OrderBook.step c (OrderBook.reached 1 2
          [⟨.addOrder 1 .buy 100 5 .limit, fun _ => 0⟩])).1 = .threw f →
        (OrderBook.reached 1 2
          [⟨.addOrder 1 .buy 100 5 .limit, fun _ => 0⟩]).activeOrdersCount = 1 :=
  reached_banded 1 (by decide) (by decide)

end Lob
