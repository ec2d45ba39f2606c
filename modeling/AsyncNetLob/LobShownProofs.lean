import AsyncNetLob.LobPoolProofs
import AsyncNetLob.LobTracelessProofs

/-! # A book is what it shows

    The history of a book leaves more behind than its levels: the order of the free
    lists, stale values in freed slots, the counters.  None of it is ever seen.  Books
    with the same levels and as many free slots answer all calls alike, wherever their
    orders lie (`reached_alike`); so a book that was emptied, in whatever order, is a new
    one, but for the order slots it has lost (`reached_emptied`). -/

namespace Lob

open MachineRun

/-! ## The counters -/

/-- The ladder with the counters further on. -/
def Ladder.count (t v : Nat) (a : Ladder) : Ladder :=
  { a with trades := a.trades + t, volume := a.volume + v }

section Counters

variable {t v : Nat}

theorem Ladder.afterSweep_count (a : Ladder) (side : Side) (m : Swept) :
    (a.count t v).afterSweep side m = (a.afterSweep side m).count t v := by
  simp only [Ladder.afterSweep, Ladder.count, Ladder.setRungs, Nat.add_right_comm]

/-- **A CALL** does not read the counters. -/
theorem Ladder.step_count (c : Call) (a : Ladder) :
    Ladder.step c (a.count t v) = ((Ladder.step c a).1, (Ladder.step c a).2.count t v) := by
  obtain ⟨op, now⟩ := c
  cases op with
  | cancelOrder id =>
      show Ladder.cancelOrder id (a.count t v)
        = ((Ladder.cancelOrder id a).1, (Ladder.cancelOrder id a).2.count t v)
      rw [Ladder.cancelOrder, Ladder.cancelOrder]
      by_cases hrests : a.Rests id
      · rw [if_pos hrests, if_pos (show (a.count t v).Rests id from hrests)]
        rfl
      · rw [if_neg hrests, if_neg (show ¬ (a.count t v).Rests id from hrests)]
  | addOrder id side price qty type =>
      show Ladder.addOrder now id side price qty type (a.count t v)
        = ((Ladder.addOrder now id side price qty type a).1,
          (Ladder.addOrder now id side price qty type a).2.count t v)
      rw [Ladder.addOrder, Ladder.addOrder]
      by_cases hbad : qty = 0 ∨ a.Rests id
      · rw [if_pos hbad, if_pos (show qty = 0 ∨ (a.count t v).Rests id from hbad)]
      · rw [if_neg hbad, if_neg (show ¬ (qty = 0 ∨ (a.count t v).Rests id) from hbad)]
        by_cases hfull : a.orderSlots ≤ a.orderCount
        · rw [if_pos hfull, if_pos (show (a.count t v).orderSlots ≤ (a.count t v).orderCount
            from hfull)]
        · rw [if_neg hfull, if_neg (show ¬ (a.count t v).orderSlots ≤ (a.count t v).orderCount
            from hfull)]
          have hswept : (a.count t v).swept now id side price qty type
              = a.swept now id side price qty type := rfl
          dsimp only
          rw [hswept, Ladder.afterSweep_count]
          generalize a.swept now id side price qty type = m
          generalize a.afterSweep side m = b
          by_cases hrest : m.left > 0 ∧ type = .limit
          · rw [if_pos hrest, if_pos hrest]
            by_cases hroom : b.HasLevel side price ∨ b.levelCount < b.levelSlots
            · rw [if_pos hroom, if_pos (show (b.count t v).HasLevel side price
                ∨ (b.count t v).levelCount < (b.count t v).levelSlots from hroom)]
              rfl
            · rw [if_neg hroom, if_neg (show ¬ ((b.count t v).HasLevel side price
                ∨ (b.count t v).levelCount < (b.count t v).levelSlots) from hroom)]
          · rw [if_neg hrest, if_neg hrest]
            rfl

theorem Ladder.run_count (calls : List Call) (a : Ladder) :
    Ladder.run calls (a.count t v) = ((Ladder.run calls a).1, (Ladder.run calls a).2.count t v) := by
  induction calls generalizing a with
  | nil => rfl
  | cons c calls ih =>
      show (_ :: (Ladder.run _ _).1, (Ladder.run _ _).2) = _
      rw [Ladder.step_count, ih]
      rfl

end Counters

/-! ## Books that show the same -/

/-- The same levels, and as many free slots. -/
structure Alike (s s' : OrderBook) : Prop where
  levels     : ∀ side, s.levels side = s'.levels side
  orderSlots : s.orderPool.available = s'.orderPool.available
  levelSlots : s.levelPool.available = s'.levelPool.available

/-- The ladders of books that show the same differ in their counters. -/
theorem Alike.ladders {s s' : OrderBook} {q q' : LevelPtr → List OrderPtr} {a b : Ladder}
    (h : Alike s s') (hrep : Rep s q a) (hrep' : Rep s' q' b) :
    ∃ c : Ladder, a = c.count a.trades a.volume ∧ b = c.count b.trades b.volume := by
  have hrungs : a.rungs = b.rungs := by
    funext side
    rw [← hrep.levels_eq, ← hrep'.levels_eq, h.levels]
  have horders : a.orderSlots = b.orderSlots := by
    rw [← hrep.orderSlots, ← hrep'.orderSlots, h.orderSlots, Ladder.orderCount, Ladder.orderCount,
      hrungs]
  have hlevels : a.levelSlots = b.levelSlots := by
    rw [← hrep.levelSlots, ← hrep'.levelSlots, h.levelSlots, Ladder.levelCount, Ladder.levelCount,
      hrungs]
  refine ⟨{ a with trades := 0, volume := 0 }, ?_, ?_⟩
  · rw [Ladder.count, Nat.zero_add, Nat.zero_add]
  · rw [Ladder.count, Nat.zero_add, Nat.zero_add]
    dsimp only
    rw [hrungs, horders, hlevels]

/-- Two books that answered calls alike. -/
structure AnsweredAlike (calls : List Call) (s s' : OrderBook) : Prop where
  outcomes : (OrderBook.run calls s).1 = (OrderBook.run calls s').1
  alike    : Alike (OrderBook.run calls s).2 (OrderBook.run calls s').2
  known    : ∀ id, (OrderBook.run calls s).2.orderMap.lookup id = none
    ↔ (OrderBook.run calls s').2.orderMap.lookup id = none
  /-- The counters went on by the same amounts. -/
  counters : (OrderBook.run calls s).2.totalTradesCount - s.totalTradesCount
      = (OrderBook.run calls s').2.totalTradesCount - s'.totalTradesCount
    ∧ (OrderBook.run calls s).2.totalVolumeTraded - s.totalVolumeTraded
      = (OrderBook.run calls s').2.totalVolumeTraded - s'.totalVolumeTraded

theorem counter_sub (n t : Nat) : UInt64.ofNat (n + t) - UInt64.ofNat t = UInt64.ofNat n := by
  rw [UInt64.ofNat_add, UInt64.add_sub_cancel]

/-- **ALIKE** represented books answer alike. -/
theorem Alike.answered {s s' : OrderBook} {q q' : LevelPtr → List OrderPtr} {a b : Ladder}
    (h : Alike s s') (hrep : Rep s q a) (hrep' : Rep s' q' b) (calls : List Call) :
    AnsweredAlike calls s s' := by
  obtain ⟨c, ha, hb⟩ := h.ladders hrep hrep'
  obtain ⟨houts, q₁, hrep₁⟩ := run_refines calls hrep
  obtain ⟨houts', q₂, hrep₂⟩ := run_refines calls hrep'
  have hrun := Ladder.run_count (t := a.trades) (v := a.volume) calls c
  have hrun' := Ladder.run_count (t := b.trades) (v := b.volume) calls c
  rw [← ha] at hrun
  rw [← hb] at hrun'
  rw [hrun] at houts hrep₁
  rw [hrun'] at houts' hrep₂
  dsimp only at houts houts' hrep₁ hrep₂
  generalize (Ladder.run calls c).2 = d at hrep₁ hrep₂
  refine ⟨houts.trans houts'.symm, ⟨?_, ?_, ?_⟩, ?_, ?_, ?_⟩
  · intro side
    rw [hrep₁.levels_eq, hrep₂.levels_eq]
    rfl
  · have hslots := hrep₁.orderSlots.trans hrep₂.orderSlots.symm
    exact Nat.add_right_cancel hslots
  · have hslots := hrep₁.levelSlots.trans hrep₂.levelSlots.symm
    exact Nat.add_right_cancel hslots
  · intro id
    rw [hrep₁.lookup_none, hrep₂.lookup_none]
    exact Iff.rfl
  · rw [hrep₁.trades, hrep₂.trades, hrep.trades, hrep'.trades]
    exact (counter_sub d.trades a.trades).trans (counter_sub d.trades b.trades).symm
  · rw [hrep₁.volume, hrep₂.volume, hrep.volume, hrep'.volume]
    exact (counter_sub d.volume a.volume).trans (counter_sub d.volume b.volume).symm

/-- **ONLY WHAT IS SHOWN**: two reachable books with the same levels and as many free
    slots, whatever calls led to them, answer the same calls with the same events, flags
    and exceptions, and show the same again. -/
theorem reached_alike {s s' : OrderBook} (hs : s.Reachable) (hs' : s'.Reachable)
    (halike : Alike s s') (calls : List Call) : AnsweredAlike calls s s' := by
  obtain ⟨maxOrders, maxLevels, before, rfl⟩ := hs
  obtain ⟨maxOrders', maxLevels', before', rfl⟩ := hs'
  obtain ⟨q, hrep⟩ := Rep.reached maxOrders maxLevels before
  obtain ⟨q', hrep'⟩ := Rep.reached maxOrders' maxLevels' before'
  exact halike.answered hrep hrep' calls

/-- The second book has had an order more, and hands its slots out in another order. -/
theorem reached_alike_recycled : AnsweredAlike
    [⟨.addOrder 2 .sell 100 1 .limit, fun _ => 3⟩, ⟨.addOrder 3 .buy 100 5 .limit, fun _ => 4⟩]
    (OrderBook.reached 4 2 [⟨.addOrder 1 .sell 100 5 .limit, fun _ => 1⟩])
    (OrderBook.reached 4 2
      [⟨.addOrder 7 .buy 99 1 .limit, fun _ => 1⟩, ⟨.addOrder 1 .sell 100 5 .limit, fun _ => 2⟩,
        ⟨.cancelOrder 7, fun _ => 3⟩]) := by
  refine reached_alike ⟨_, _, _, rfl⟩ ⟨_, _, _, rfl⟩ ⟨?_, ?_, ?_⟩ _
  · intro side
    cases side with
    | buy => decide +kernel
    | sell => decide +kernel
  · decide +kernel
  · decide +kernel

/-! ## A book that is emptied -/

/-- Cancelling takes one id away. -/
theorem rests_cancelled (a : Ladder) (id id' : OrderId) :
    (Ladder.cancelOrder id a).2.Rests id' ↔ a.Rests id' ∧ id' ≠ id := by
  rw [Ladder.cancelOrder]
  by_cases hrests : a.Rests id
  · rw [if_pos hrests]
    constructor
    · rintro ⟨side, r, hr, rfl⟩
      have hr' : r ∈ (cancelIn id (a.rungs side)).flatMap Rung.orders := hr
      rw [cancelIn_orders, List.mem_filter] at hr'
      exact ⟨⟨side, r, hr'.1, rfl⟩, of_decide_eq_true hr'.2⟩
    · rintro ⟨⟨side, r, hr, rfl⟩, hne⟩
      refine ⟨side, r, ?_, rfl⟩
      show r ∈ (cancelIn id (a.rungs side)).flatMap Rung.orders
      rw [cancelIn_orders, List.mem_filter]
      exact ⟨hr, decide_eq_true hne⟩
  · rw [if_neg hrests]
    constructor
    · intro hrests'
      refine ⟨hrests', ?_⟩
      rintro rfl
      exact hrests hrests'
    · exact And.left

/-- **EMPTYING** a ladder: each order that rests is cancelled once, in any order. -/
theorem Ladder.run_cancels {cancels : List Call} {ids : List OrderId} {a : Ladder}
    (hops : cancels.map Call.op = ids.map .cancelOrder) (hnodup : ids.Nodup)
    (hall : ∀ id, a.Rests id ↔ id ∈ ids) :
    (Ladder.run cancels a).1 = ids.map (fun _ => .cancelled true)
      ∧ (∀ id, ¬ (Ladder.run cancels a).2.Rests id)
      ∧ (Ladder.run cancels a).2.orderSlots = a.orderSlots := by
  induction cancels generalizing ids a with
  | nil =>
      obtain rfl := List.map_eq_nil_iff.mp hops.symm
      exact ⟨rfl, fun id hrests => List.not_mem_nil ((hall id).mp hrests), rfl⟩
  | cons c cancels ih =>
      cases ids with
      | nil => cases hops
      | cons id ids =>
          obtain ⟨hop, hops⟩ := List.cons_eq_cons.mp hops
          obtain ⟨hnot, hnodup⟩ := List.nodup_cons.mp hnodup
          have hstep : Ladder.step c a = Ladder.cancelOrder id a := by rw [Ladder.step, hop]
          have hrests : a.Rests id := (hall id).mpr List.mem_cons_self
          obtain ⟨houts, hnone, hslots⟩ := ih hops hnodup (a := (Ladder.cancelOrder id a).2) (by
            intro id'
            rw [rests_cancelled, hall id', List.mem_cons]
            constructor
            · rintro ⟨rfl | hmem, hne⟩
              · exact absurd rfl hne
              · exact hmem
            · intro hmem
              refine ⟨Or.inr hmem, ?_⟩
              rintro rfl
              exact hnot hmem)
          have hfirst : Ladder.cancelOrder id a
              = (.cancelled true, { a with rungs := fun side => cancelIn id (a.rungs side) }) := by
            rw [Ladder.cancelOrder, if_pos hrests]
          refine ⟨?_, ?_, ?_⟩
          · show (Ladder.step c a).1 :: (Ladder.run cancels (Ladder.step c a).2).1 = _
            rw [hstep, houts, hfirst]
            rfl
          · show ∀ id', ¬ (Ladder.run cancels (Ladder.step c a).2).2.Rests id'
            rw [hstep]
            exact hnone
          · show (Ladder.run cancels (Ladder.step c a).2).2.orderSlots = a.orderSlots
            rw [hstep, hslots, hfirst]

/-- A well-formed ladder in which nothing rests has no levels. -/
theorem Ladder.WF.nothing {a : Ladder} (hwf : a.WF) (hnone : ∀ id, ¬ a.Rests id) (side : Side) :
    a.rungs side = [] := by
  rw [List.eq_nil_iff_forall_not_mem]
  intro lv hlv
  obtain ⟨r, hr⟩ := List.exists_mem_of_ne_nil _ ((hwf.side side).nonempty lv hlv)
  exact hnone r.id ⟨side, r, List.mem_flatMap.mpr ⟨lv, hlv, hr⟩, rfl⟩

/-- What cancelling all orders leaves of a book with `maxLevels` level slots. -/
structure Emptied (maxLevels : Nat) (s : OrderBook) (ids : List OrderId) (cancels : List Call) :
    Prop where
  outcomes   : (OrderBook.run cancels s).1 = ids.map fun _ => .cancelled true
  empty      : ∀ side, (OrderBook.run cancels s).2.levels side = []
  orderSlots : (OrderBook.run cancels s).2.orderPool.available
    = s.orderPool.available + s.activeOrdersCount
  levelSlots : (OrderBook.run cancels s).2.levelPool.available = maxLevels
  /-- Later calls find a new book, with the order slots that are left. -/
  anew       : ∀ later, AnsweredAlike later (OrderBook.run cancels s).2
    (OrderBook.new (OrderBook.run cancels s).2.orderPool.available maxLevels)

/-- **EMPTIED**: however a book got its orders, and in whatever order they are all
    cancelled, every cancellation succeeds, the pools have their slots back, and the book
    answers whatever comes as a new one does. -/
theorem reached_emptied (maxOrders maxLevels : Nat) (calls : List Call) (ids : List OrderId)
    (cancels : List Call) (hops : cancels.map Call.op = ids.map .cancelOrder)
    (hnodup : ids.Nodup) (hall : ∀ id,
      (OrderBook.reached maxOrders maxLevels calls).orderMap.lookup id ≠ none ↔ id ∈ ids) :
    Emptied maxLevels (OrderBook.reached maxOrders maxLevels calls) ids cancels := by
  obtain ⟨q, hrep⟩ := Rep.reached maxOrders maxLevels calls
  have hwf := Ladder.WF.reached maxOrders maxLevels calls
  have hlevelSlots := reached_levelSlots maxOrders maxLevels calls
  generalize OrderBook.reached maxOrders maxLevels calls = s at *
  generalize Ladder.reached maxOrders maxLevels calls = a at *
  obtain ⟨houts, hnone, hslots⟩ := Ladder.run_cancels hops hnodup fun id =>
    hrep.rests_iff.trans (hall id)
  obtain ⟨houts', q', hrep'⟩ := run_refines cancels hrep
  have hwf' : (Ladder.run cancels a).2.WF := run_invariant (fun c _ h => h.step c) cancels hwf
  have hlevelSlots' : (Ladder.run cancels a).2.levelSlots = maxLevels :=
    run_invariant (I := fun b => b.levelSlots = maxLevels)
      (fun c b hb => (levelSlots_step c b).trans hb) cancels hlevelSlots
  have hempty := hwf'.nothing hnone
  rw [houts] at houts'
  generalize (Ladder.run cancels a).2 = b at *
  have hcounts : b.orderCount = 0 ∧ b.levelCount = 0 := by
    rw [Ladder.orderCount, Ladder.levelCount, hempty, hempty]
    exact ⟨rfl, rfl⟩
  have horders : (OrderBook.run cancels s).2.orderPool.available
      = s.orderPool.available + s.activeOrdersCount := by
    have hbefore := hrep.orderSlots
    have hafter := hrep'.orderSlots
    have hknown := hrep.known
    omega
  have hlevels : (OrderBook.run cancels s).2.levelPool.available = maxLevels := by
    have hafter := hrep'.levelSlots
    omega
  refine ⟨houts', ?_, horders, hlevels, fun later => ?_⟩
  · intro side
    rw [hrep'.levels_eq, hempty]
  · have hnew := Rep.new (OrderBook.run cancels s).2.orderPool.available maxLevels
    refine Alike.answered ⟨?_, ?_, ?_⟩ hrep' hnew later
    · intro side
      rw [hrep'.levels_eq, hempty, hnew.levels_eq]
      rfl
    · exact (ObjectPool.initialFree_length _).symm
    · exact hlevels.trans (ObjectPool.initialFree_length _).symm

/-- Two asks and a bid, cancelled from the middle. -/
theorem reached_emptied_three : Emptied 2
    (OrderBook.reached 4 2
      [⟨.addOrder 1 .sell 100 5 .limit, fun _ => 1⟩, ⟨.addOrder 2 .sell 100 3 .limit, fun _ => 2⟩,
        ⟨.addOrder 3 .buy 99 4 .limit, fun _ => 3⟩])
    [2, 3, 1]
    [⟨.cancelOrder 2, fun _ => 4⟩, ⟨.cancelOrder 3, fun _ => 5⟩, ⟨.cancelOrder 1, fun _ => 6⟩] := by
  refine reached_emptied 4 2 _ [2, 3, 1] _ rfl (by decide) fun id => ?_
  have hkeys : (OrderBook.reached 4 2
      [⟨.addOrder 1 .sell 100 5 .limit, fun _ => 1⟩, ⟨.addOrder 2 .sell 100 3 .limit, fun _ => 2⟩,
        ⟨.addOrder 3 .buy 99 4 .limit, fun _ => 3⟩]).orderMap.keys = [3, 2, 1] := by
    decide +kernel
  rw [Ne, AList.lookup_eq_none, not_not, AList.mem_keys, hkeys]
  exact (List.Perm.swap 2 3 [1]).mem_iff

end Lob
