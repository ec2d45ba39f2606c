import AsyncNetLob.LobLadderProofs

/-! # Calls commute with renaming sides and prices

    A RELABELLING renames the two sides and all prices so that the priorities
    stay what they are.  Every call commutes with it (`Relabelling.step`): the
    renamed call on the renamed ladder has the renamed outcome and leaves the
    renamed ladder.

    A renamed event has no time: what the clock shows is seen in the time stamps
    of the events and nowhere else, which is the case of the relabelling that
    renames nothing. -/

namespace Lob

open MachineRun

structure Relabelling where
  side       : Side → Side
  price      : Price → Price
  involutive : ∀ s, side (side s) = s
  opposite   : ∀ s, side s.opposite = (side s).opposite
  comparator : ∀ s p p', (side s).comparator (price p) (price p') ↔ s.comparator p p'

namespace Relabelling

variable (ρ : Relabelling)

/-- Different prices stay different. -/
theorem price_inj {p p' : Price} : ρ.price p = ρ.price p' ↔ p = p' := by
  constructor
  · intro heq
    have hirrefl : ∀ p p', ρ.price p = ρ.price p' → ¬ Side.buy.comparator p p' := by
      intro p p' heq hlt
      rw [← ρ.comparator, heq] at hlt
      exact irrefl_of _ _ hlt
    exact SortedMap.key_eq (hirrefl p p' heq) (hirrefl p' p heq.symm)
  · rintro rfl
    rfl

/-! ## What is renamed -/

def event (e : MatchEvent) : MatchEvent :=
  { e with matchPrice := ρ.price e.matchPrice, timestamp := 0 }

def rung (lv : Rung) : Rung := { lv with price := ρ.price lv.price }

def swept (m : Swept) : Swept := ⟨m.events.map ρ.event, m.left, m.rungs.map ρ.rung⟩

def ladder (a : Ladder) : Ladder :=
  { a with rungs := fun side => (a.rungs (ρ.side side)).map ρ.rung }

def outcome : Outcome → Outcome
  | .events es => .events (es.map ρ.event)
  | .cancelled flag => .cancelled flag
  | .threw fault => .threw fault

def op : Op → Op
  | .addOrder id side price qty type => .addOrder id (ρ.side side) (ρ.price price) qty type
  | .cancelOrder id => .cancelOrder id

def call (c : Call) : Call := ⟨ρ.op c.op, fun _ => 0⟩

@[simp] theorem ladder_rungs (a : Ladder) (side : Side) :
    (ρ.ladder a).rungs (ρ.side side) = (a.rungs side).map ρ.rung := by
  show (a.rungs (ρ.side (ρ.side side))).map ρ.rung = _
  rw [ρ.involutive]

@[simp] theorem tradedQty_events (es : List MatchEvent) :
    tradedQty (es.map ρ.event) = tradedQty es := by
  rw [tradedQty, List.map_map]
  rfl

@[simp] theorem lengths_rungs (rs : List Rung) :
    (rs.map ρ.rung).map (fun lv => lv.orders.length)
      = rs.map (fun lv => lv.orders.length) := by
  rw [List.map_map]
  rfl

@[simp] theorem ordersIn_rungs (rs : List Rung) : ordersIn (rs.map ρ.rung) = ordersIn rs := by
  rw [ordersIn, lengths_rungs, ordersIn]

@[simp] theorem orderCount_ladder (a : Ladder) : (ρ.ladder a).orderCount = a.orderCount := by
  rw [Ladder.orderCount_eq _ (ρ.side .buy), Ladder.orderCount_eq _ .buy, ← ρ.opposite,
    ladder_rungs, ladder_rungs, ordersIn_rungs, ordersIn_rungs]

@[simp] theorem levelCount_ladder (a : Ladder) : (ρ.ladder a).levelCount = a.levelCount := by
  rw [Ladder.levelCount_eq _ (ρ.side .buy), Ladder.levelCount_eq _ .buy, ← ρ.opposite,
    ladder_rungs, ladder_rungs, List.length_map, List.length_map]

theorem queue_ladder (a : Ladder) (side : Side) :
    (ρ.ladder a).queue (ρ.side side) = a.queue side := by
  rw [Ladder.queue, ladder_rungs, List.flatMap_map]
  rfl

@[simp] theorem rests_ladder (a : Ladder) (id : OrderId) :
    (ρ.ladder a).Rests id ↔ a.Rests id := by
  constructor
  · rintro ⟨side, h⟩
    rw [← ρ.involutive side, ρ.queue_ladder] at h
    exact ⟨_, h⟩
  · rintro ⟨side, h⟩
    rw [← ρ.queue_ladder] at h
    exact ⟨_, h⟩

@[simp] theorem hasLevel_ladder (a : Ladder) (side : Side) (price : Price) :
    (ρ.ladder a).HasLevel (ρ.side side) (ρ.price price) ↔ a.HasLevel side price := by
  rw [Ladder.HasLevel, ladder_rungs]
  constructor
  · rintro ⟨lv', hlv', hprice⟩
    obtain ⟨lv, hlv, rfl⟩ := List.mem_map.mp hlv'
    exact ⟨lv, hlv, ρ.price_inj.mp hprice⟩
  · rintro ⟨lv, hlv, rfl⟩
    exact ⟨ρ.rung lv, List.mem_map_of_mem hlv, rfl⟩

theorem ladder_setRungs (a : Ladder) (side : Side) (rs : List Rung) :
    ρ.ladder (a.setRungs side rs) = (ρ.ladder a).setRungs (ρ.side side) (rs.map ρ.rung) := by
  rw [ladder, ladder, Ladder.setRungs, Ladder.setRungs]
  congr 1
  funext side'
  by_cases hs : side' = ρ.side side
  · subst hs
    simp [ρ.involutive]
  · have hne : ρ.side side' ≠ side := by
      rintro rfl
      exact hs (ρ.involutive side').symm
    simp [hs, hne]

/-! ## The loops -/

section Loops

variable (now : Nat → Timestamp) (taker : OrderId)

theorem fillQueue_relabel (price : Price) (count count' : Nat) (left volume : Quantity)
    (rs : List RestingOrder) :
    fillQueue (fun _ => 0) taker (ρ.price price) count' left volume rs
      = { fillQueue now taker price count left volume rs with
          events := (fillQueue now taker price count left volume rs).events.map ρ.event } := by
  induction rs generalizing count count' left volume with
  | nil => rfl
  | cons r rs ih =>
      by_cases hpos : left > 0
      · by_cases hz : r.remainingQty - min left r.remainingQty = 0
        · rw [fillQueue_exhaust hpos hz, fillQueue_exhaust hpos hz, ih (count + 1)]
          rfl
        · rw [fillQueue_leaves hpos hz, fillQueue_leaves hpos hz, ih (count + 1)]
          rfl
      · rw [fillQueue_done hpos, fillQueue_done hpos]
        rfl

theorem sweep_relabel {beyond beyond' : Price → Bool}
    (hbeyond : ∀ p, beyond' (ρ.price p) = beyond p) (count count' : Nat) (left : Quantity)
    (rungs : List Rung) :
    sweep (fun _ => 0) taker beyond' count' left (rungs.map ρ.rung)
      = ρ.swept (sweep now taker beyond count left rungs) := by
  induction rungs generalizing count count' left with
  | nil => rfl
  | cons lv rungs ih =>
      rw [List.map_cons]
      by_cases hgo : left > 0 ∧ beyond lv.price = false
      · have hgo' : left > 0 ∧ beyond' (ρ.rung lv).price = false :=
          ⟨hgo.1, (hbeyond lv.price).trans hgo.2⟩
        generalize hf : fillQueue now taker lv.price count left lv.totalVolume lv.orders = f
        have hf' := ρ.fillQueue_relabel now taker lv.price count count' left lv.totalVolume
          lv.orders
        rw [hf] at hf'
        by_cases hnil : f.orders = []
        · rw [sweep_emptied hgo hf hnil, sweep_emptied hgo' hf' hnil,
            ih (count + f.events.length), swept, swept, List.map_append]
        · rw [sweep_kept hgo hf hnil, sweep_kept hgo' hf' hnil,
            ih (count + f.events.length), swept, swept, List.map_append]
          rfl
      · have hgo' : ¬ (left > 0 ∧ beyond' (ρ.rung lv).price = false) :=
          fun h => hgo ⟨h.1, (hbeyond lv.price).symm.trans h.2⟩
        rw [sweep_stop hgo, sweep_stop hgo']
        rfl

end Loops

theorem beyondLimit_relabel (resting : Side) (limit : Price) (type : OrderType) (p : Price) :
    beyondLimit (ρ.side resting) (ρ.price limit) type (ρ.price p)
      = beyondLimit resting limit type p := by
  rw [beyondLimit, beyondLimit]
  congr 1
  exact decide_eq_decide.mpr (ρ.comparator resting limit p)

theorem insertOrder_relabel (side : Side) (price : Price) (r : RestingOrder)
    (rungs : List Rung) :
    insertOrder (ρ.side side) (ρ.price price) r (rungs.map ρ.rung)
      = (insertOrder side price r rungs).map ρ.rung := by
  induction rungs with
  | nil => rfl
  | cons lv rungs ih =>
      have hbetter : (ρ.side side).comparator (ρ.price price) (ρ.rung lv).price
          ↔ side.comparator price lv.price := ρ.comparator side price lv.price
      have hsame : ρ.price price = (ρ.rung lv).price ↔ price = lv.price := ρ.price_inj
      rw [List.map_cons, insertOrder, insertOrder]
      by_cases hlt : side.comparator price lv.price
      · rw [if_pos hlt, if_pos (hbetter.mpr hlt)]
        rfl
      · rw [if_neg hlt, if_neg (mt hbetter.mp hlt)]
        by_cases heq : price = lv.price
        · rw [if_pos heq, if_pos (hsame.mpr heq)]
          rfl
        · rw [if_neg heq, if_neg (mt hsame.mp heq), ih]
          rfl

theorem cancelIn_relabel (id : OrderId) (rungs : List Rung) :
    cancelIn id (rungs.map ρ.rung) = (cancelIn id rungs).map ρ.rung := by
  rw [cancelIn, cancelIn, List.filterMap_map, List.map_filterMap]
  refine List.filterMap_congr fun lv _ => ?_
  have horders : (ρ.rung lv).orders = lv.orders := rfl
  rw [Function.comp_apply, horders]
  cases lv.orders.find? (fun x => x.id = id) with
  | none => rfl
  | some r =>
      show Rung.without _ r = (lv.without r).map ρ.rung
      rw [Rung.without, Rung.without]
      show (if lv.orders.filter (fun x => x.id ≠ r.id) = [] then none else _) = _
      split <;> rfl

/-! ## The calls -/

section Calls

variable (now : Nat → Timestamp) (id : OrderId) (side : Side) (price : Price)
  (qty : Quantity) (type : OrderType) (a : Ladder)

theorem swept_relabel :
    (ρ.ladder a).swept (fun _ => 0) id (ρ.side side) (ρ.price price) qty type
      = ρ.swept (a.swept now id side price qty type) := by
  rw [Ladder.swept, Ladder.swept, ← ρ.opposite, ladder_rungs]
  exact ρ.sweep_relabel now id (ρ.beyondLimit_relabel side.opposite price type) 0 0 qty _

theorem afterSweep_relabel (m : Swept) :
    (ρ.ladder a).afterSweep (ρ.side side) (ρ.swept m) = ρ.ladder (a.afterSweep side m) := by
  have hset : ρ.ladder (a.setRungs side.opposite m.rungs)
      = (ρ.ladder a).setRungs (ρ.side side).opposite (ρ.swept m).rungs := by
    rw [ρ.ladder_setRungs, ρ.opposite]
    rfl
  rw [Ladder.afterSweep, ← hset]
  show Ladder.mk _ _ _ (_ + (m.events.map ρ.event).length)
    (_ + tradedQty (m.events.map ρ.event)) = _
  rw [List.length_map, tradedQty_events]
  rfl

theorem addOrder_relabel :
    Ladder.addOrder (fun _ => 0) id (ρ.side side) (ρ.price price) qty type (ρ.ladder a)
      = (ρ.outcome (Ladder.addOrder now id side price qty type a).1,
          ρ.ladder (Ladder.addOrder now id side price qty type a).2) := by
  rw [Ladder.addOrder, Ladder.addOrder, ρ.swept_relabel now]
  dsimp only
  rw [ρ.afterSweep_relabel]
  generalize a.swept now id side price qty type = m
  by_cases hbad : qty = 0 ∨ a.Rests id
  · rw [if_pos hbad, if_pos (hbad.imp_right (ρ.rests_ladder a id).mpr)]
    rfl
  · rw [if_neg hbad, if_neg fun h => hbad (h.imp_right (ρ.rests_ladder a id).mp)]
    rw [orderCount_ladder]
    by_cases hfull : a.orderSlots ≤ a.orderCount
    · rw [if_pos hfull]
      exact if_pos hfull
    · rw [if_neg hfull]
      refine (if_neg hfull).trans ?_
      by_cases hrest : m.left > 0 ∧ type = .limit
      · rw [if_pos hrest]
        refine (if_pos hrest).trans ?_
        generalize a.afterSweep side m = b
        have hroom : (ρ.ladder b).HasLevel (ρ.side side) (ρ.price price)
            ∨ (ρ.ladder b).levelCount < (ρ.ladder b).levelSlots
            ↔ b.HasLevel side price ∨ b.levelCount < b.levelSlots := by
          rw [hasLevel_ladder, levelCount_ladder]
          exact Iff.rfl
        by_cases hlevel : b.HasLevel side price ∨ b.levelCount < b.levelSlots
        · rw [if_pos hlevel, if_pos (hroom.mpr hlevel), ladder_rungs]
          show (_, Ladder.giveBack ((ρ.ladder _).setRungs _ (insertOrder _ _
            ⟨id, qty, m.left⟩ _))) = _
          rw [ρ.insertOrder_relabel, ← ρ.ladder_setRungs]
          rfl
        · rw [if_neg hlevel, if_neg (mt hroom.mp hlevel)]
          rfl
      · rw [if_neg hrest]
        exact if_neg hrest

theorem cancelOrder_relabel :
    Ladder.cancelOrder id (ρ.ladder a)
      = (ρ.outcome (Ladder.cancelOrder id a).1, ρ.ladder (Ladder.cancelOrder id a).2) := by
  rw [Ladder.cancelOrder, Ladder.cancelOrder]
  by_cases hr : a.Rests id
  · rw [if_pos hr, if_pos ((ρ.rests_ladder a id).mpr hr)]
    show (_, Ladder.mk (fun side => cancelIn id ((a.rungs (ρ.side side)).map ρ.rung)) _ _ _ _)
      = (_, Ladder.mk (fun side => (cancelIn id (a.rungs (ρ.side side))).map ρ.rung) _ _ _ _)
    congr 2
    funext side
    exact ρ.cancelIn_relabel id _
  · rw [if_neg hr, if_neg fun h => hr ((ρ.rests_ladder a id).mp h)]
    rfl

end Calls

/-- **A CALL** commutes with the relabelling. -/
theorem step (c : Call) (a : Ladder) : Ladder.step (ρ.call c) (ρ.ladder a)
    = (ρ.outcome (Ladder.step c a).1, ρ.ladder (Ladder.step c a).2) := by
  obtain ⟨op, now⟩ := c
  cases op with
  | addOrder id side price qty type => exact ρ.addOrder_relabel now id side price qty type a
  | cancelOrder id => exact ρ.cancelOrder_relabel id a

/-- **A RUN** commutes with the relabelling. -/
theorem run (calls : List Call) (a : Ladder) :
    Ladder.run (calls.map ρ.call) (ρ.ladder a)
      = ((Ladder.run calls a).1.map ρ.outcome, ρ.ladder (Ladder.run calls a).2) := by
  induction calls generalizing a with
  | nil => rfl
  | cons c calls ih =>
      show (_ :: (Ladder.run _ _).1, (Ladder.run _ _).2) = _
      rw [ρ.step, ih]
      rfl

/-- The empty ladder has nothing to rename. -/
theorem ladder_empty (maxOrders maxLevels : Nat) :
    ρ.ladder (Ladder.empty maxOrders maxLevels) = Ladder.empty maxOrders maxLevels := rfl

/-- Nothing is renamed, only the time is forgotten. -/
def identity : Relabelling := ⟨id, id, fun _ => rfl, fun _ => rfl, fun _ _ _ => Iff.rfl⟩

theorem identity_ladder (a : Ladder) : identity.ladder a = a := by
  have hrung : identity.rung = id := rfl
  rw [ladder, hrung]
  simp only [List.map_id_fun, id]
  rfl

end Relabelling

/-- What the caller sees, apart from the time stamps. -/
def Outcome.untimed (o : Outcome) : Outcome := Relabelling.identity.outcome o

/-- The call, at time zero. -/
def Call.untimed (c : Call) : Call := Relabelling.identity.call c

/-- **THE CLOCK** is only seen in the time stamps. -/
theorem Ladder.run_untimed (calls : List Call) (a : Ladder) :
    Ladder.run (calls.map Call.untimed) a
      = ((Ladder.run calls a).1.map Outcome.untimed, (Ladder.run calls a).2) := by
  have hrun := Relabelling.identity.run calls a
  rw [Relabelling.identity_ladder, Relabelling.identity_ladder] at hrun
  exact hrun

end Lob
