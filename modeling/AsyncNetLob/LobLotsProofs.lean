import AsyncNetLob.GreedyFillProofs
import AsyncNetLob.LobRelabellingProofs

/-! # A side as a list of lots

    Forget where one level ends and the next begins: what is left of a side is
    the list of its orders, best price first and first come first served, each
    tagged with its price.  In these terms the three operations are

    * matching: a greedy fill of the lots the taker may reach (`sweep_lots`);
    * resting: insertion behind everything that is not worse (`insertOrder_lots`);
    * cancelling: a filter (`cancelIn_lots`).

    Nothing the outside sees is lost: the lots of a well-formed side determine
    its levels and queues (`shape_of_lots`). -/

namespace Lob

open GreedyFill

/-- What stays the same while an order rests. -/
structure Tag where
  price : Price
  id    : OrderId
  deriving DecidableEq

/-- A tag and a remainder. -/
abbrev Lot := Tag × ℕ

def RestingOrder.lot (price : Price) (r : RestingOrder) : Lot :=
  (⟨price, r.id⟩, r.remainingQty.toNat)

def lotsOf (price : Price) (rs : List RestingOrder) : List Lot :=
  rs.map (RestingOrder.lot price)

def lots (rungs : List Rung) : List Lot := rungs.flatMap fun lv => lotsOf lv.price lv.orders

/-- The event of a fill. -/
def eventOf (taker : OrderId) (f : Lot) : MatchEvent where
  makerOrderId := f.1.id
  takerOrderId := taker
  matchPrice := f.1.price
  matchQuantity := UInt32.ofNat f.2
  timestamp := 0

@[simp] theorem lotsOf_nil (price : Price) : lotsOf price [] = [] := rfl

@[simp] theorem lotsOf_cons (price : Price) (r : RestingOrder) (rs : List RestingOrder) :
    lotsOf price (r :: rs) = r.lot price :: lotsOf price rs := rfl

@[simp] theorem lots_nil : lots [] = [] := rfl

@[simp] theorem lots_cons (lv : Rung) (rungs : List Rung) :
    lots (lv :: rungs) = lotsOf lv.price lv.orders ++ lots rungs := rfl

theorem mem_lots {rungs : List Rung} {x : Lot} :
    x ∈ lots rungs ↔ ∃ lv ∈ rungs, ∃ r ∈ lv.orders, r.lot lv.price = x := by
  rw [lots, List.mem_flatMap]
  constructor
  · rintro ⟨lv, hlv, hx⟩
    obtain ⟨r, hr, rfl⟩ := List.mem_map.mp hx
    exact ⟨lv, hlv, r, hr, rfl⟩
  · rintro ⟨lv, hlv, r, hr, rfl⟩
    exact ⟨lv, hlv, List.mem_map_of_mem hr⟩

/-- Selecting lots by price is selecting levels. -/
theorem lots_filter_price (p : Price → Bool) (rungs : List Rung) :
    (lots rungs).filter (fun x => p x.1.price) = lots (rungs.filter fun lv => p lv.price) := by
  induction rungs with
  | nil => rfl
  | cons lv rungs ih =>
      rw [lots_cons, List.filter_append, ih]
      by_cases hp : p lv.price = true
      · rw [List.filter_cons, if_pos hp, lots_cons, List.filter_eq_self.mpr]
        intro x hx
        obtain ⟨r, -, rfl⟩ := List.mem_map.mp hx
        exact hp
      · rw [List.filter_cons, if_neg hp, List.filter_eq_nil_iff.mpr, List.nil_append]
        intro x hx
        obtain ⟨r, -, rfl⟩ := List.mem_map.mp hx
        exact hp

/-- The ids that rest, from the lots. -/
theorem rests_lots {a : Ladder} {id : OrderId} :
    a.Rests id ↔ ∃ side, ∃ x ∈ lots (a.rungs side), x.1.id = id := by
  constructor
  · rintro ⟨side, r, hr, rfl⟩
    obtain ⟨lv, hlv, hr⟩ := List.mem_flatMap.mp hr
    exact ⟨side, _, mem_lots.mpr ⟨lv, hlv, r, hr, rfl⟩, rfl⟩
  · rintro ⟨side, x, hx, rfl⟩
    obtain ⟨lv, hlv, r, hr, rfl⟩ := mem_lots.mp hx
    exact ⟨side, r, List.mem_flatMap.mpr ⟨lv, hlv, hr⟩, rfl⟩

theorem ordersIn_lots (rungs : List Rung) : ordersIn rungs = (lots rungs).length := by
  rw [lots, List.length_flatMap, ordersIn]
  refine congrArg List.sum (List.map_congr_left fun lv _ => ?_)
  rw [lotsOf, List.length_map]

/-! ## Well-formed sides -/

/-- The prices that have a level, from the lots. -/
theorem SideWF.prices_lots {side : Side} {rungs : List Rung} (h : SideWF side rungs)
    {p : Price} : p ∈ rungs.map Rung.price ↔ ∃ x ∈ lots rungs, x.1.price = p := by
  constructor
  · intro hp
    obtain ⟨lv, hlv, rfl⟩ := List.mem_map.mp hp
    obtain ⟨r, rs, hrs⟩ := List.exists_cons_of_ne_nil (h.nonempty lv hlv)
    exact ⟨_, mem_lots.mpr ⟨lv, hlv, r, by simp [hrs], rfl⟩, rfl⟩
  · rintro ⟨x, hx, rfl⟩
    obtain ⟨lv, hlv, r, -, rfl⟩ := mem_lots.mp hx
    exact List.mem_map_of_mem hlv

theorem SideWF.prices_nodup {side : Side} {rungs : List Rung} (h : SideWF side rungs) :
    (rungs.map Rung.price).Nodup :=
  h.sorted.imp fun {p p'} hlt heq => by
    subst heq
    exact irrefl_of side.comparator p hlt

theorem SideWF.of_cons {side : Side} {lv : Rung} {rungs : List Rung}
    (h : SideWF side (lv :: rungs)) :
    (∀ x ∈ rungs, side.comparator lv.price x.price) ∧ SideWF side rungs := by
  have hsorted := h.sorted
  rw [List.map_cons, List.pairwise_cons] at hsorted
  refine ⟨fun x hx => hsorted.1 _ (List.mem_map_of_mem hx), hsorted.2, ?_, ?_⟩
  · exact fun x hx => h.nonempty x (List.mem_cons_of_mem _ hx)
  · exact fun x hx => h.live x (List.mem_cons_of_mem _ hx)

/-! ## Matching -/

section Matching

variable {now : Nat → Timestamp} {taker : OrderId} {price : Price} {count : Nat}
  {left volume : Quantity}

theorem lotsOf_positive {rs : List RestingOrder} (h : ∀ r ∈ rs, 0 < r.remainingQty) :
    Positive (lotsOf price rs) := by
  intro x hx
  obtain ⟨r, hr, rfl⟩ := List.mem_map.mp hx
  exact quantity_pos.mp (h r hr)

theorem lots_positive {rungs : List Rung}
    (h : ∀ lv ∈ rungs, ∀ r ∈ lv.orders, 0 < r.remainingQty ∧ r.remainingQty ≤ r.quantity) :
    Positive (lots rungs) := by
  intro x hx
  obtain ⟨lv, hlv, r, hr, rfl⟩ := mem_lots.mp hx
  exact quantity_pos.mp (h lv hlv r hr).1

/-- The event of a fill takes the smaller remainder. -/
theorem eventOf_fill (tag : Tag) (left rem : Quantity) :
    eventOf taker (tag, min left.toNat rem.toNat)
      = ⟨tag.id, taker, tag.price, min left rem, 0⟩ := by
  rw [eventOf, ← min_toNat, UInt32.ofNat_toNat]

/-- A queue is filled greedily. -/
theorem fillQueue_lots {rs : List RestingOrder} (hlive : ∀ r ∈ rs, 0 < r.remainingQty) :
    (fillQueue now taker price count left volume rs).events.map Relabelling.identity.event
        = (fills left.toNat (lotsOf price rs)).map (eventOf taker)
      ∧ (fillQueue now taker price count left volume rs).left.toNat
        = left.toNat - total (lotsOf price rs)
      ∧ lotsOf price (fillQueue now taker price count left volume rs).orders
        = rest left.toNat (lotsOf price rs) := by
  induction rs generalizing count left volume with
  | nil => exact ⟨rfl, rfl, rfl⟩
  | cons r rs ih =>
      have hlive' : ∀ r ∈ rs, 0 < r.remainingQty :=
        fun x hx => hlive x (List.mem_cons_of_mem _ hx)
      obtain ⟨hevents, hleft, horders⟩ := @ih (count + 1) (left - min left r.remainingQty)
        (volume - min left r.remainingQty) hlive'
      rw [taker_toNat] at hevents hleft horders
      by_cases hpos : left > 0
      · have hq : left.toNat ≠ 0 := Nat.ne_of_gt (quantity_pos.mp hpos)
        -- the first event, in front of those of the rest of the queue
        have hfirst : (⟨r.id, taker, price, min left r.remainingQty, 0⟩ : MatchEvent)
            :: (fills (left.toNat - r.remainingQty.toNat) (lotsOf price rs)).map (eventOf taker)
              = (fills left.toNat (lotsOf price (r :: rs))).map (eventOf taker) := by
          rw [lotsOf_cons, RestingOrder.lot, fills_cons hq, List.map_cons]
          exact congrArg (· :: _) (eventOf_fill ⟨price, r.id⟩ left r.remainingQty).symm
        -- the maker is exhausted, or the taker is
        by_cases hz : r.remainingQty - min left r.remainingQty = 0
        · rw [fillQueue_exhaust hpos hz]
          rw [quantity_zero, maker_toNat] at hz
          refine ⟨?_, ?_, ?_⟩
          · rw [← hfirst, ← hevents]
            rfl
          · refine hleft.trans ?_
            rw [lotsOf_cons, RestingOrder.lot, total_cons, Nat.sub_sub]
          · refine horders.trans ?_
            rw [lotsOf_cons, RestingOrder.lot, rest_exhaust (by omega)]
        · rw [fillQueue_leaves hpos hz]
          rw [quantity_zero, maker_toNat] at hz
          have hdone : left.toNat - r.remainingQty.toNat = 0 := by omega
          refine ⟨?_, ?_, ?_⟩
          · rw [← hfirst, ← hevents]
            rfl
          · refine hleft.trans ?_
            rw [lotsOf_cons, RestingOrder.lot, total_cons, Nat.sub_sub]
          · rw [hdone, rest_zero (lotsOf_positive hlive')] at horders
            rw [lotsOf_cons, horders, lotsOf_cons, RestingOrder.lot, RestingOrder.lot,
              rest_leaves (by omega), maker_toNat]
      · rw [fillQueue_done hpos]
        rw [quantity_pos, Nat.pos_iff_ne_zero, not_not] at hpos
        rw [hpos, fills_zero, Nat.zero_sub, rest_zero (lotsOf_positive hlive)]
        exact ⟨rfl, rfl, rfl⟩

/-- **A SIDE** is filled greedily, as far as the taker reaches. -/
theorem sweep_lots {side : Side} {beyond : Price → Bool} {rungs : List Rung}
    (hside : SideWF side rungs)
    (hmono : ∀ p p', side.comparator p p' → beyond p = true → beyond p' = true) :
    (sweep now taker beyond count left rungs).events.map Relabelling.identity.event
        = (fills left.toNat ((lots rungs).filter fun x => !beyond x.1.price)).map (eventOf taker)
      ∧ (sweep now taker beyond count left rungs).left.toNat
        = left.toNat - total ((lots rungs).filter fun x => !beyond x.1.price)
      ∧ lots (sweep now taker beyond count left rungs).rungs
        = rest left.toNat ((lots rungs).filter fun x => !beyond x.1.price)
          ++ (lots rungs).filter fun x => beyond x.1.price := by
  have hprice : ∀ rungs : List Rung, (lots rungs).filter (fun x => !beyond x.1.price)
      = lots (rungs.filter fun lv => !beyond lv.price) :=
    fun rungs => lots_filter_price (fun p => !beyond p) rungs
  rw [hprice, lots_filter_price]
  clear hprice
  induction rungs generalizing count left with
  | nil => exact ⟨rfl, rfl, rfl⟩
  | cons lv rungs ih =>
      obtain ⟨hsorted, hrungs⟩ := hside.of_cons
      have hlive : ∀ r ∈ lv.orders, 0 < r.remainingQty :=
        fun r hr => (hside.live lv List.mem_cons_self r hr).1
      by_cases hb : beyond lv.price = true
      · -- no level is within reach
        have hall : ∀ x ∈ lv :: rungs, beyond x.price = true := by
          rintro x hx
          rcases List.mem_cons.mp hx with rfl | hx
          · exact hb
          · exact hmono _ _ (hsorted x hx) hb
        have hnone : (lv :: rungs).filter (fun lv => !beyond lv.price) = [] :=
          List.filter_eq_nil_iff.mpr fun x hx => by simp [hall x hx]
        have hself : (lv :: rungs).filter (fun lv => beyond lv.price) = lv :: rungs :=
          List.filter_eq_self.mpr hall
        rw [hnone, hself, sweep_stop fun hgo => by simp [hb] at hgo]
        exact ⟨rfl, rfl, rfl⟩
      · have hreach : beyond lv.price = false := by simpa using hb
        have hlots : Positive (lots (rungs.filter fun lv => !beyond lv.price)) :=
          lots_positive fun x hx => hrungs.live x (List.mem_of_mem_filter hx)
        rw [List.filter_cons_of_pos (by simpa using hb), List.filter_cons, if_neg hb, lots_cons]
        -- the level is filled as a queue, and the taker goes on with what is left
        by_cases hpos : left > 0
        · generalize hf : fillQueue now taker lv.price count left lv.totalVolume lv.orders = f
          obtain ⟨hevents, hleft, horders⟩ := hf ▸ fillQueue_lots hlive
          obtain ⟨hevents', hleft', horders'⟩ :=
            @ih (count + f.events.length) f.left hrungs
          rw [hleft] at hevents' hleft' horders'
          rw [sweep, if_pos ⟨hpos, hreach⟩, hf]
          refine ⟨?_, ?_, ?_⟩
          · rw [List.map_append, hevents, hevents', fills_append, List.map_append]
          · refine hleft'.trans ?_
            rw [total_append, Nat.sub_sub]
          · rw [rest_append hlots, List.append_assoc, ← horders', ← horders]
            dsimp only
            split
            · next hnil => rw [hnil, lotsOf_nil, List.nil_append]
            · rfl
        · rw [sweep_stop fun hgo => hpos hgo.1]
          have horders := (@ih count left hrungs).2.2
          rw [sweep_done hpos] at horders
          rw [quantity_pos, Nat.pos_iff_ne_zero, not_not] at hpos
          rw [hpos, rest_zero hlots] at horders
          rw [hpos, fills_zero, Nat.zero_sub, rest_zero, List.append_assoc, ← horders]
          · exact ⟨rfl, rfl, rfl⟩
          · rintro x hx
            rcases List.mem_append.mp hx with hx | hx
            · exact lotsOf_positive hlive x hx
            · exact hlots x hx

/-- The lots that are not worse than a price come first. -/
theorem lots_split {side : Side} {rungs : List Rung} (h : SideWF side rungs) (price : Price) :
    (lots rungs).filter (fun x => !decide (side.comparator price x.1.price))
      ++ (lots rungs).filter (fun x => decide (side.comparator price x.1.price))
      = lots rungs := by
  -- a taker of nothing sweeps nothing
  have hlots := (@sweep_lots (fun _ => 0) 0 0 0 side
    (fun p => decide (side.comparator price p)) rungs h fun p p' hp hworse =>
      decide_eq_true (trans_of side.comparator (of_decide_eq_true hworse) hp)).2.2
  rw [sweep_done (by decide)] at hlots
  refine (congrArg (· ++ _) (rest_zero fun x hx => ?_).symm).trans hlots.symm
  exact lots_positive h.live x (List.mem_of_mem_filter hx)

/-- A price is beyond the limit if a better one is. -/
theorem beyondLimit_mono {resting : Side} {limit : Price} {type : OrderType} (p p' : Price)
    (h : resting.comparator p p') (hb : beyondLimit resting limit type p = true) :
    beyondLimit resting limit type p' = true := by
  rw [beyondLimit, Bool.and_eq_true, decide_eq_true_iff, decide_eq_true_iff] at hb ⊢
  exact ⟨hb.1, trans_of resting.comparator hb.2 h⟩

/-- The lots that an order may trade with, and those of the same side that it
    may not. -/
def Ladder.reachable (a : Ladder) (side : Side) (price : Price) (type : OrderType) : List Lot :=
  (lots (a.rungs side.opposite)).filter fun x => !beyondLimit side.opposite price type x.1.price

def Ladder.unreachable (a : Ladder) (side : Side) (price : Price) (type : OrderType) :
    List Lot :=
  (lots (a.rungs side.opposite)).filter fun x => beyondLimit side.opposite price type x.1.price

/-- The matching phase of a call in terms of lots. -/
structure SweptLots (a : Ladder) (id : OrderId) (side : Side) (price : Price)
    (qty : Quantity) (type : OrderType) (m : Swept) : Prop where
  events : m.events.map Relabelling.identity.event
    = (fills qty.toNat (a.reachable side price type)).map (eventOf id)
  demand : m.left.toNat = qty.toNat - total (a.reachable side price type)
  taken  : lots m.rungs
    = rest qty.toNat (a.reachable side price type) ++ a.unreachable side price type

theorem Ladder.WF.swept_lots {a : Ladder} (h : a.WF) (now : Nat → Timestamp) (id : OrderId)
    (side : Side) (price : Price) (qty : Quantity) (type : OrderType) :
    SweptLots a id side price qty type (a.swept now id side price qty type) := by
  obtain ⟨hevents, hleft, hrungs⟩ := sweep_lots (h.side side.opposite) beyondLimit_mono
  exact ⟨hevents, hleft, hrungs⟩

end Matching

/-! ## Resting and cancelling -/

/-- **RESTING** behind everything that is not worse. -/
theorem insertOrder_lots {side : Side} {rungs : List Rung} (h : SideWF side rungs)
    (price : Price) (r : RestingOrder) :
    lots (insertOrder side price r rungs)
      = (lots rungs).filter (fun x => !decide (side.comparator price x.1.price))
        ++ r.lot price
          :: (lots rungs).filter fun x => decide (side.comparator price x.1.price) := by
  have hworse := lots_filter_price fun p => decide (side.comparator price p)
  have hkept := lots_filter_price fun p => !decide (side.comparator price p)
  rw [hworse, hkept]
  clear hworse hkept
  induction rungs with
  | nil => rfl
  | cons lv rungs ih =>
      obtain ⟨hsorted, hrungs⟩ := h.of_cons
      by_cases hlt : side.comparator price lv.price
      · -- every level is worse
        have hall : ∀ x ∈ lv :: rungs, side.comparator price x.price := by
          rintro x hx
          rcases List.mem_cons.mp hx with rfl | hx
          · exact hlt
          · exact trans_of side.comparator hlt (hsorted x hx)
        rw [insertOrder, if_pos hlt,
          List.filter_eq_nil_iff.mpr fun x hx => by simpa using hall x hx,
          List.filter_eq_self.mpr fun x hx => by simpa using hall x hx]
        rfl
      · rw [insertOrder, if_neg hlt, List.filter_cons_of_pos (by simpa using hlt),
          List.filter_cons_of_neg (by simpa using hlt)]
        by_cases heq : price = lv.price
        · subst heq
          rw [if_pos rfl,
            List.filter_eq_nil_iff.mpr fun x hx => by simpa using hsorted x hx,
            List.filter_eq_self.mpr fun x hx => by simpa using hsorted x hx]
          simp [lotsOf]
        · rw [if_neg heq, lots_cons, ih hrungs, lots_cons, List.append_assoc]

/-- **CANCELLING** is a filter. -/
theorem cancelIn_lots (id : OrderId) (rungs : List Rung) :
    lots (cancelIn id rungs) = (lots rungs).filter fun x => x.1.id ≠ id := by
  rw [lots, cancelIn_flatMap (fun _ => rfl), lots, List.filter_flatMap]
  refine List.flatMap_congr fun lv _ => ?_
  rw [lotsOf, lotsOf, List.filter_map]
  rfl

/-! ## Nothing is lost -/

/-- An order of a queue, from the outside. -/
def RestingOrder.standing (r : RestingOrder) : OrderId × Quantity := (r.id, r.remainingQty)

/-- A level, from the outside. -/
def Rung.shape (lv : Rung) : Price × List (OrderId × Quantity) :=
  (lv.price, lv.orders.map RestingOrder.standing)

theorem lotsOf_standing (price : Price) (rs : List RestingOrder) :
    (lotsOf price rs).map (fun x => (x.1.id, UInt32.ofNat x.2)) = rs.map RestingOrder.standing := by
  rw [lotsOf, List.map_map]
  refine List.map_congr_left fun r _ => ?_
  show (r.id, UInt32.ofNat r.remainingQty.toNat) = (r.id, r.remainingQty)
  rw [UInt32.ofNat_toNat]

/-- The lots of the first level are those at its price. -/
theorem SideWF.first_lots {side : Side} {lv : Rung} {rungs : List Rung}
    (h : SideWF side (lv :: rungs)) :
    (lots (lv :: rungs)).filter (fun x => x.1.price = lv.price) = lotsOf lv.price lv.orders := by
  have hprice := lots_filter_price (fun p => decide (p = lv.price)) (lv :: rungs)
  obtain ⟨hsorted, -⟩ := h.of_cons
  rw [hprice, List.filter_cons_of_pos (by simp), lots_cons, List.filter_eq_nil_iff.mpr]
  · simp
  · rintro x hx
    have hne : x.price ≠ lv.price := by
      intro heq
      have hlt := hsorted x hx
      rw [heq] at hlt
      exact irrefl_of side.comparator _ hlt
    simpa using hne

/-- **THE LOTS** of a well-formed side determine its levels and queues. -/
theorem shape_of_lots {side : Side} {rungs rungs' : List Rung} (h : SideWF side rungs)
    (h' : SideWF side rungs') (heq : lots rungs = lots rungs') :
    rungs.map Rung.shape = rungs'.map Rung.shape := by
  have hempty : ∀ {lv : Rung} {rungs : List Rung}, SideWF side (lv :: rungs) →
      ∃ r rs, lv.orders = r :: rs :=
    fun hwf => List.exists_cons_of_ne_nil (hwf.nonempty _ List.mem_cons_self)
  induction rungs generalizing rungs' with
  | nil =>
      cases rungs' with
      | nil => rfl
      | cons lv' rungs' =>
          obtain ⟨r, rs, hrs⟩ := hempty h'
          rw [lots_cons, hrs] at heq
          cases heq
  | cons lv rungs ih =>
      obtain ⟨r, rs, hrs⟩ := hempty h
      cases rungs' with
      | nil =>
          rw [lots_cons, hrs] at heq
          cases heq
      | cons lv' rungs' =>
          obtain ⟨r', rs', hrs'⟩ := hempty h'
          have hprice : lv.price = lv'.price := by
            rw [lots_cons, hrs, lots_cons, hrs', lotsOf_cons, lotsOf_cons, List.cons_append,
              List.cons_append, List.cons.injEq] at heq
            exact congrArg (fun x => x.1.price) heq.1
          have hfirst : lotsOf lv.price lv.orders = lotsOf lv'.price lv'.orders := by
            rw [← h.first_lots, ← h'.first_lots, heq, hprice]
          have hshape : lv.shape = lv'.shape := by
            rw [Rung.shape, Rung.shape, ← lotsOf_standing lv.price, ← lotsOf_standing lv'.price,
              hfirst, hprice]
          have hrest : lots rungs = lots rungs' := by
            rw [lots_cons, lots_cons, hfirst] at heq
            exact List.append_cancel_left heq
          rw [List.map_cons, List.map_cons, ih h.of_cons.2 h'.of_cons.2 hrest, hshape]

end Lob
