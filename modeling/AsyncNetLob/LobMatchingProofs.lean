import AsyncNetLob.LobRepresentationProofs
import Mathlib.Tactic.Ring

/-! # The matching loops compute the sweep of a ladder

    While a call matches, its incoming order sits in a live slot outside every
    queue (`Sweeping`).  One fill either shrinks the maker's remainder or takes
    the maker out of the book (`fillMaker_step`); by induction on the queue the
    inner loop computes `fillQueue` (`matchMakers_sim`), and by induction on
    the levels the outer loop computes `sweep` (`matchLevels_sim`).

    The inductions keep a part of the queue, or of the map, that was already
    passed: a maker with a remainder stays behind the iterator, and so does a
    level with makers. -/

namespace Lob

open StateExcept SortedMap LinkedSegment

/-- The book during a matching phase: the incoming order `τ` is in slot `t`,
    which no queue holds. -/
structure Sweeping (s : OrderBook) (q : LevelPtr → List OrderPtr) (t : OrderPtr)
    (τ : Order) : Prop where
  core    : Core s q
  taker   : s.order? t = some τ
  outside : ∀ {side k l}, (k, l) ∈ (s.levelMap side).entries → t ∉ q l

/-- `s'` is `s` after the trades `es` turned the orders `L` of level `l` into
    `L'`: besides the level's header, these orders, the incoming order `t`, the
    id map, the free slots and the counters, at most links have changed. -/
structure Traded (l : LevelPtr) (t : OrderPtr) (L L' : List OrderPtr)
    (es : List MatchEvent) (s s' : OrderBook) : Prop where
  maps      : ∀ side, s'.levelMap side = s.levelMap side
  volumes   : ∀ l', l' ≠ l → s'.volumeOf l' = s.volumeOf l'
  orders    : ∀ j, j ≠ t → j ∉ L →
    (s'.order? j).map Order.data = (s.order? j).map Order.data
  levelFree : s'.levelPool.freeList = s.levelPool.freeList
  orderCap  : s'.orderPool.capacity = s.orderPool.capacity
  levelCap  : s'.levelPool.capacity = s.levelPool.capacity
  free      : s'.orderPool.available + L'.length = s.orderPool.available + L.length
  known     : s'.orderMap.entries.length + L.length
    = s.orderMap.entries.length + L'.length
  trades    : s'.totalTradesCount = s.totalTradesCount + UInt64.ofNat es.length
  volume    : s'.totalVolumeTraded = s.totalVolumeTraded + UInt64.ofNat (tradedQty es)

namespace Traded

variable {l : LevelPtr} {t : OrderPtr} {L L' M M' : List OrderPtr}
  {es es' : List MatchEvent} {s s' s'' : OrderBook}

/-- Nothing was traded. -/
theorem refl (l : LevelPtr) (t : OrderPtr) (L : List OrderPtr) (s : OrderBook) :
    Traded l t L L [] s s where
  maps := fun _ => rfl
  volumes := fun _ _ => rfl
  orders := fun _ _ _ => rfl
  levelFree := rfl
  orderCap := rfl
  levelCap := rfl
  free := rfl
  known := rfl
  trades := (UInt64.add_zero _).symm
  volume := (UInt64.add_zero _).symm

theorem trans (h : Traded l t L L' es s s') (h' : Traded l t M M' es' s' s'') :
    Traded l t (L ++ M) (L' ++ M') (es ++ es') s s'' where
  maps := fun side => (h'.maps side).trans (h.maps side)
  volumes := fun l' hl => (h'.volumes l' hl).trans (h.volumes l' hl)
  orders := fun j hj hn => by
    rw [List.mem_append, not_or] at hn
    exact (h'.orders j hj hn.2).trans (h.orders j hj hn.1)
  levelFree := h'.levelFree.trans h.levelFree
  orderCap := h'.orderCap.trans h.orderCap
  levelCap := h'.levelCap.trans h.levelCap
  free := by
    have h1 := h.free
    have h2 := h'.free
    simp only [List.length_append]
    omega
  known := by
    have h1 := h.known
    have h2 := h'.known
    simp only [List.length_append]
    omega
  trades := by
    rw [h'.trades, h.trades, List.length_append, UInt64.ofNat_add, UInt64.add_assoc]
  volume := by
    rw [h'.volume, h.volume, tradedQty_append, UInt64.ofNat_add, UInt64.add_assoc]

/-- The view of other orders stays. -/
theorem viewQueue (h : Traded l t L L' es s s') (hM : ∀ j ∈ M, j ≠ t ∧ j ∉ L) :
    s'.viewQueue M = s.viewQueue M :=
  viewQueue_congr fun j hj => h.orders j (hM j hj).1 (hM j hj).2

end Traded

/-! ## One fill -/

/-- The book after a fill, the maker still in its place. -/
def OrderBook.filled (s : OrderBook) (t : OrderPtr) (l : LevelPtr) (o : OrderPtr)
    (fillQty : Quantity) : OrderBook :=
  { s with
    toHeap := ((s.toHeap.modifyOrder t fun x =>
        { x with remainingQty := x.remainingQty - fillQty }).modifyOrder o fun x =>
        { x with remainingQty := x.remainingQty - fillQty }).modifyLevel l fun lv =>
        { lv with totalVolume := lv.totalVolume - fillQty }
    totalTradesCount := s.totalTradesCount + 1
    totalVolumeTraded := s.totalVolumeTraded + fillQty.toUInt64 }

@[simp] theorem filled_levelMap (s : OrderBook) (t : OrderPtr) (l : LevelPtr)
    (o : OrderPtr) (fillQty : Quantity) (side : Side) :
    (s.filled t l o fillQty).levelMap side = s.levelMap side := by
  cases side <;> rfl

/-- Removing an exhausted maker does not change the volume. -/
theorem clampedVolume_zero (v : Quantity) : clampedVolume v 0 = v := by
  simp [clampedVolume]

section Fill

variable {s : OrderBook} {q : LevelPtr → List OrderPtr} {t o : OrderPtr}
  {τ x : Order} {side : Side} {k : Price} {l : LevelPtr} {D L : List OrderPtr}
  {lv : PriceLevel} {f : Quantity}

theorem filled_level?_self (hlv : s.level? l = some lv) :
    (s.filled t l o f).level? l
      = some { lv with totalVolume := lv.totalVolume - f } := by
  simp [OrderBook.filled, hlv]

theorem filled_order?_maker (hx : s.order? o = some x) (hne : t ≠ o) :
    (s.filled t l o f).order? o
      = some { x with remainingQty := x.remainingQty - f } := by
  simp [OrderBook.filled, hx, hne.symm]

theorem filled_order?_taker (ht : s.order? t = some τ) (hne : t ≠ o) :
    (s.filled t l o f).order? t
      = some { τ with remainingQty := τ.remainingQty - f } := by
  simp [OrderBook.filled, ht, hne]

theorem filled_order?_other {j : OrderPtr} (hjt : j ≠ t) (hjo : j ≠ o) :
    (s.filled t l o f).order? j = s.order? j := by
  simp [OrderBook.filled, hjt, hjo]

/-- Shrinking two remainders and a volume keeps the structure. -/
theorem Sweeping.filled (h : Sweeping s q t τ) (hne : t ≠ o)
    (f : Quantity) : Sweeping (s.filled t l o f) q t
      { τ with remainingQty := τ.remainingQty - f } where
  core := by
    refine h.core.transport (filled_levelMap s t l o f) rfl ?_ ?_ ?_
    · intro side k l' he
      refine Represents.modifyLevel ?_ (fun _ => rfl) (fun _ => rfl) (fun _ => rfl)
      refine Represents.modifyOrder ?_ (fun _ => rfl) (fun _ => rfl)
      exact (h.core.represents he).modifyOrder (fun _ => rfl) (fun _ => rfl)
    · intro side k l' lv' he hlv'
      obtain ⟨lv, hlv, -⟩ := h.core.live_level he
      refine ⟨lv, hlv, ?_⟩
      by_cases hl : l' = l
      · subst hl
        rw [filled_level?_self hlv] at hlv'
        rw [← Option.some.inj hlv']
      · have hsame : (s.filled t l o f).level? l' = s.level? l' := by
          simp [OrderBook.filled, hl]
        rw [hsame, hlv] at hlv'
        rw [← Option.some.inj hlv']
    · intro side k l' j he hj
      obtain ⟨y, hy⟩ := (h.core.represents he).live j hj
      have hjt : j ≠ t := fun hj' => h.outside he (hj' ▸ hj)
      by_cases hjo : j = o
      · subst hjo
        exact ⟨y, _, hy, filled_order?_maker hy hne, rfl,
          fun hr => ⟨hr.level, hr.price, hr.side, hr.limit⟩⟩
      · exact ⟨y, y, hy, by rw [filled_order?_other hjt hjo, hy], rfl, id⟩
  taker := filled_order?_taker h.taker hne
  outside := fun he => h.outside (by simpa using he)

theorem recordTrade_run (now : Nat → Timestamp) (n : Nat)
    (ht : s.order? t = some τ) (hx : s.order? o = some x)
    (hlv : s.level? l = some lv) (hne : t ≠ o) :
    OrderBook.recordTrade now t l o n s
      = .ok ⟨x.id, τ.id, lv.price, min τ.remainingQty x.remainingQty, now n⟩
          (s.filled t l o (min τ.remainingQty x.remainingQty)) := by
  simp [OrderBook.recordTrade, bind, EStateM.bind, liftM_heap, readOrder,
    updateOrder, readLevel, updateLevel, ht, hx, hlv, hne, hne.symm,
    OrderBook.filled]

/-- A statement on the heap returns in the book. -/
theorem liftM_ok {α : Type} {m : HeapM α} {a : α} {h : Heap}
    (hm : m s.toHeap = .ok a h) :
    (liftM m : BookM α) s = .ok a { s with toHeap := h } := by
  rw [liftM_heap, hm]

/-- A maker with a remainder stays. -/
theorem retireIfFilled_run_kept (hx : s.order? o = some x)
    (hpos : x.remainingQty ≠ 0) : OrderBook.retireIfFilled l o s = .ok () s := by
  rw [OrderBook.retireIfFilled, bind_ok (liftM_ok (readOrder_ok hx)), if_neg hpos]
  rfl

/-- An exhausted maker leaves the id map, its queue and its slot. -/
theorem retireIfFilled_run_full (hc : Core s q)
    (he : (k, l) ∈ (s.levelMap side).entries) (hq : q l = D ++ o :: L)
    (hx : s.order? o = some x) (hzero : x.remainingQty = 0) :
    OrderBook.retireIfFilled l o s = .ok () (s.dropOrder l o x) := by
  have hr : Represents s.toHeap l (D ++ o :: L) := hq ▸ hc.represents he
  have herased : (liftM (PriceLevel.remove l (some o)) : BookM Unit)
      { s with orderMap := s.orderMap.erase x.id }
      = .ok () { s with toHeap := s.toHeap.removed l o x
                        orderMap := s.orderMap.erase x.id } :=
    liftM_ok (hr.remove_ok hx)
  have hfreed : (liftM (deallocateOrder (some o)) : BookM Unit)
      { s with toHeap := s.toHeap.removed l o x
               orderMap := s.orderMap.erase x.id }
      = .ok () (s.dropOrder l o x) :=
    liftM_ok (deallocateOrder_ok (hr.removed_self hx))
  rw [OrderBook.retireIfFilled, bind_ok (liftM_ok (readOrder_ok hx)), if_pos hzero,
    bind_ok (liftM_ok (readOrder_ok hx)), bind_ok (modify_ok _ _),
    bind_ok herased, hfreed]

theorem filled_order?_data {j : OrderPtr} (hjt : j ≠ t) (hjo : j ∉ [o]) :
    ((s.filled t l o f).order? j).map Order.data = (s.order? j).map Order.data := by
  rw [filled_order?_other hjt (by simpa using hjo)]

theorem filled_volumeOf_ne {l' : LevelPtr} (hl : l' ≠ l) :
    (s.filled t l o f).volumeOf l' = s.volumeOf l' := by
  simp [Heap.volumeOf, OrderBook.filled, hl]

/-- A fill that leaves a remainder only counts the trade. -/
theorem Sweeping.traded_kept (s : OrderBook) (t o : OrderPtr) (l : LevelPtr)
    (e : MatchEvent) :
    Traded l t [o] [o] [e] s (s.filled t l o e.matchQuantity) where
  maps := filled_levelMap s t l o _
  volumes := fun _ => filled_volumeOf_ne
  orders := fun _ => filled_order?_data
  levelFree := rfl
  orderCap := rfl
  levelCap := rfl
  free := rfl
  known := rfl
  trades := rfl
  volume := by simp [OrderBook.filled]

/-- The entry of an order in the id map is one of its entries. -/
theorem erase_length {id : OrderId} (hid : s.orderMap.lookup id = some o) :
    (s.orderMap.erase id).entries.length + 1 = s.orderMap.entries.length := by
  have hmem : id ∈ s.orderMap.keys :=
    AList.lookup_isSome.mp (by rw [hid]; rfl)
  have hlen : ∀ m : AList (fun _ : OrderId => OrderPtr),
      m.entries.length = m.keys.length := fun m => (List.length_map _).symm
  rw [hlen, hlen, AList.keys_erase, List.length_erase_of_mem hmem]
  have := List.length_pos_of_mem hmem
  omega

/-- A fill that exhausts the maker frees its slot and its id. -/
theorem Sweeping.traded_full (h : Sweeping s q t τ) (hne : t ≠ o)
    (he : (k, l) ∈ (s.levelMap side).entries) (hq : q l = D ++ o :: L)
    (hx : s.order? o = some x) (e : MatchEvent) {x' : Order}
    (hx' : x' = { x with remainingQty := x.remainingQty - e.matchQuantity }) :
    Traded l t [o] [] [e] s ((s.filled t l o e.matchQuantity).dropOrder l o x') where
  maps := fun side => by simp
  volumes := fun l' hl => by
    show ((((s.filled t l o e.matchQuantity).toHeap.removed l o x').level? l').map
      PriceLevel.totalVolume).getD 0 = _
    rw [removed_level?_ne hl]
    exact filled_volumeOf_ne hl
  orders := fun j hjt hjo => by
    rw [Core.dropOrder_order? (by simpa using hjo),
      filled_order?_other hjt (by simpa using hjo)]
    cases s.order? j <;> rfl
  levelFree := removed_levelFree _ l o x'
  orderCap := (ObjectPool.release_capacity _ o).trans (removed_orderCapacity _ l o x')
  levelCap := removed_levelCapacity _ l o x'
  free := by
    subst hx'
    have hlive := filled_order?_maker (l := l) (f := e.matchQuantity) hx hne
    have he' : (k, l) ∈ ((s.filled t l o e.matchQuantity).levelMap side).entries := by
      simpa using he
    exact (h.filled hne _).core.dropOrder_available he' hq hlive
  known := by
    have hxid := (h.core.resting he (by simp [hq]) hx).2
    subst hx'
    exact erase_length hxid
  trades := rfl
  volume := by simp [OrderBook.filled, OrderBook.dropOrder]

/-- The incoming order stays outside when another order leaves the book. -/
theorem Sweeping.dropOrder (h : Sweeping s q t τ)
    (he : (k, l) ∈ (s.levelMap side).entries) (hq : q l = D ++ o :: L)
    (hx : s.order? o = some x) :
    Sweeping (s.dropOrder l o x) (Function.update q l (D ++ L)) t τ where
  core := h.core.dropOrder he hq hx
  taker := by
    rw [h.core.dropOrder_outside he hq hx (h.outside he), h.taker]
  outside := fun {side' k' l'} he' => by
    rw [OrderBook.dropOrder_levelMap] at he'
    have hout := h.outside he'
    by_cases hl : l' = l
    · subst hl
      rw [Function.update_self]
      rw [hq] at hout
      simp only [List.mem_append, List.mem_cons, not_or] at hout ⊢
      exact ⟨hout.1, hout.2.2⟩
    · rwa [Function.update_of_ne hl]

/-- What a fill leaves of a maker in its queue. -/
def keptMaker (o : OrderPtr) (left : Quantity) : List OrderPtr :=
  if left = 0 then [] else [o]

/-- **ONE FILL**: the incoming order and the maker trade the smaller of their
    remainders at the level's price, and an exhausted maker is gone. -/
theorem fillMaker_step (h : Sweeping s q t τ)
    (he : (k, l) ∈ (s.levelMap side).entries) (hq : q l = D ++ o :: L)
    (hx : s.order? o = some x) (now : Nat → Timestamp) (n : Nat) {fillQty : Quantity}
    (hf : fillQty = min τ.remainingQty x.remainingQty) :
    ∃ s', OrderBook.fillMaker now t l o n s = .ok ⟨x.id, τ.id, k, fillQty, now n⟩ s'
      ∧ Sweeping s' (Function.update q l
          (D ++ keptMaker o (x.remainingQty - fillQty) ++ L)) t
          { τ with remainingQty := τ.remainingQty - fillQty }
      ∧ Traded l t [o] (keptMaker o (x.remainingQty - fillQty))
          [⟨x.id, τ.id, k, fillQty, now n⟩] s s'
      ∧ s'.volumeOf l = s.volumeOf l - fillQty
      ∧ s'.viewQueue (keptMaker o (x.remainingQty - fillQty))
          = if x.remainingQty - fillQty = 0 then []
            else [{ x.view with remainingQty := x.remainingQty - fillQty }] := by
  obtain ⟨lv, hlv, hkey⟩ := h.core.live_level he
  have hol : o ∈ q l := by simp [hq]
  have hne : t ≠ o := fun heq => h.outside he (heq ▸ hol)
  have hrec := recordTrade_run now n h.taker hx hlv hne
  rw [← hf, hkey] at hrec
  have hmaker := filled_order?_maker (l := l) (f := fillQty) hx hne
  have hsw := h.filled hne (l := l) fillQty
  have he' : (k, l) ∈ ((s.filled t l o fillQty).levelMap side).entries := by
    simpa using he
  by_cases hz : x.remainingQty - fillQty = 0
  · -- the maker is exhausted
    have hret := retireIfFilled_run_full hsw.core he' hq hmaker hz
    refine ⟨(s.filled t l o fillQty).dropOrder l o _, (bind_ok hrec).trans
      (bind_ok hret), ?_, ?_, ?_, ?_⟩
    · rw [keptMaker, if_pos hz, List.append_nil]
      exact hsw.dropOrder he' hq hmaker
    · rw [keptMaker, if_pos hz]
      exact h.traded_full hne he hq hx ⟨x.id, τ.id, k, fillQty, now n⟩ rfl
    · rw [hsw.core.dropOrder_volumeOf he', hz, clampedVolume_zero]
      simp [Heap.volumeOf, filled_level?_self hlv, hlv]
    · rw [keptMaker, if_pos hz, if_pos hz]
      rfl
  · -- the maker keeps a remainder
    have hret := retireIfFilled_run_kept (l := l) hmaker hz
    refine ⟨s.filled t l o fillQty, (bind_ok hrec).trans (bind_ok hret),
      ?_, ?_, ?_, ?_⟩
    · rw [keptMaker, if_neg hz]
      have hsame : Function.update q l (D ++ [o] ++ L) = q := by
        rw [List.append_assoc, List.singleton_append, ← hq, Function.update_eq_self]
      rw [hsame]
      exact hsw
    · rw [keptMaker, if_neg hz]
      exact Sweeping.traded_kept s t o l ⟨x.id, τ.id, k, fillQty, now n⟩
    · simp [Heap.volumeOf, filled_level?_self hlv, hlv]
    · rw [keptMaker, if_neg hz, if_neg hz, viewQueue_cons hmaker]
      rfl

end Fill

/-! ## The inner loop -/

section InnerLoop

variable {t : OrderPtr} {side : Side} {k : Price} {l : LevelPtr}

/-- What the loop over the makers `L` of level `l` did: the book went from `s`
    to `s'`, and what is left of `L` is `L'`, as the filled queue `r` says. -/
structure Drained (q : LevelPtr → List OrderPtr) (t : OrderPtr) (τ : Order)
    (l : LevelPtr) (D L L' : List OrderPtr) (r : Filled) (s s' : OrderBook) :
    Prop where
  sweeping : Sweeping s' (Function.update q l (D ++ L')) t
    { τ with remainingQty := r.left }
  traded   : Traded l t L L' r.events s s'
  view     : s'.viewQueue L' = r.orders
  volume   : s'.volumeOf l = r.totalVolume

/-- A loop that does not start fills nothing. -/
theorem Drained.refl {s : OrderBook} {q : LevelPtr → List OrderPtr} {τ : Order}
    {D L : List OrderPtr} (h : Sweeping s q t τ) (hq : q l = D ++ L) :
    Drained q t τ l D L L ⟨[], τ.remainingQty, s.volumeOf l, s.viewQueue L⟩ s s where
  sweeping := by
    rw [← hq, Function.update_eq_self]
    exact h
  traded := Traded.refl l t L s
  view := rfl
  volume := rfl

/-- **THE INNER LOOP** fills the incoming order from the queue of a level.
    The induction is on the makers still ahead of the iterator; `D` are those
    already passed. -/
theorem matchMakers_sim (now : Nat → Timestamp) (L : List OrderPtr) :
    ∀ {s : OrderBook} {q : LevelPtr → List OrderPtr} {τ : Order}
      {D : List OrderPtr} {fuel : Nat},
      Sweeping s q t τ → (k, l) ∈ (s.levelMap side).entries →
      ∀ matched : List MatchEvent, q l = D ++ L →
      L.length < fuel → ∃ s' L',
        OrderBook.matchMakers now t l fuel L.head? matched s
          = .ok (matched ++ (fillQueue now τ.id k matched.length τ.remainingQty
              (s.volumeOf l) (s.viewQueue L)).events) s'
        ∧ Drained q t τ l D L L' (fillQueue now τ.id k matched.length τ.remainingQty
            (s.volumeOf l) (s.viewQueue L)) s s' := by
  induction L with
  | nil =>
      intro s q τ D fuel h he matched hq hfuel
      obtain ⟨fuel, rfl⟩ : ∃ n, fuel = n + 1 := ⟨fuel - 1, by omega⟩
      refine ⟨s, [], ?_, Drained.refl h hq⟩
      rw [viewQueue_nil, fillQueue, List.append_nil]
      rfl
  | cons o L ih =>
      intro s q τ D fuel h he matched hq hfuel
      obtain ⟨fuel, rfl⟩ : ∃ n, fuel = n + 1 := ⟨fuel - 1, by simp at hfuel; omega⟩
      have hr : Represents s.toHeap l (D ++ o :: L) := hq ▸ h.core.represents he
      obtain ⟨x, hx⟩ := hr.live o (by simp)
      rw [viewQueue_cons hx, List.head?_cons, OrderBook.matchMakers,
        bind_ok (liftM_ok (readOrder_ok h.taker))]
      by_cases hpos : τ.remainingQty > 0
      · rw [if_pos hpos, fillQueue, if_pos hpos, bind_ok (liftM_ok (readOrder_ok hx)),
          (hr.links hx).2]
        -- one fill, then the makers behind
        obtain ⟨s₁, hrun, hsw, htr, hvol, hkept⟩ :=
          fillMaker_step h he hq hx now matched.length rfl
        rw [bind_ok hrun]
        generalize hf : min τ.remainingQty x.remainingQty = f at *
        have hf' : min τ.remainingQty x.view.remainingQty = f := hf
        rw [hf']
        generalize hK : keptMaker o (x.remainingQty - f) = K at *
        have hout : ∀ j ∈ o :: L, j ≠ t := fun j hj heq =>
          h.outside he (by rw [hq, ← heq]; exact List.mem_append_right _ hj)
        have hoL : o ∉ L :=
          (List.nodup_cons.mp (List.nodup_append.mp hr.nodup).2.1).1
        have hviewL : s₁.viewQueue L = s.viewQueue L := htr.viewQueue fun j hj =>
          ⟨hout j (List.mem_cons_of_mem _ hj), fun ho =>
            hoL (List.mem_singleton.mp ho ▸ hj)⟩
        have he₁ : (k, l) ∈ (s₁.levelMap side).entries := by
          rw [htr.maps]
          exact he
        obtain ⟨s₂, L', hrun₂, hd⟩ := ih hsw he₁
          (matched ++ [⟨x.id, τ.id, k, f, now matched.length⟩])
          (Function.update_self l _ q) (Nat.lt_of_succ_lt_succ hfuel)
        rw [List.length_append, List.length_singleton, hvol, hviewL] at hrun₂ hd
        -- the maker just passed is not touched any more
        have hKL : ∀ j ∈ K, j ≠ t ∧ j ∉ L := by
          intro j hj
          have hjo : j = o := by
            rw [← hK, keptMaker] at hj
            split at hj
            · cases hj
            · exact List.mem_singleton.mp hj
          exact ⟨hout j (hjo ▸ List.mem_cons_self), hjo ▸ hoL⟩
        refine ⟨s₂, K ++ L', ?_, ?_, ?_, ?_, ?_⟩
        · rw [hrun₂, List.append_assoc]
          rfl
        · have hsw₂ := hd.sweeping
          rw [Function.update_idem, List.append_assoc] at hsw₂
          exact hsw₂
        · exact htr.trans hd.traded
        · rw [viewQueue_append, hd.traded.viewQueue hKL, hkept, hd.view]
          show _ = if x.remainingQty - f = 0 then _ else _
          by_cases hz : x.remainingQty - f = 0
          · rw [if_pos hz, if_pos hz]
            rfl
          · rw [if_neg hz, if_neg hz]
            rfl
        · exact hd.volume
      · rw [if_neg hpos, fillQueue, if_neg hpos]
        refine ⟨s, o :: L, ?_, ?_⟩
        · rw [List.append_nil]
          rfl
        · rw [← viewQueue_cons hx]
          exact Drained.refl h hq

end InnerLoop

/-! ## The outer loop -/

/-- Views of levels whose queue, volume and orders are the same are the same. -/
theorem viewLevel_congr {h h' : Heap} {q q' : LevelPtr → List OrderPtr}
    {e : Price × LevelPtr} (hq : q' e.2 = q e.2)
    (hv : h'.volumeOf e.2 = h.volumeOf e.2)
    (ho : h'.viewQueue (q e.2) = h.viewQueue (q e.2)) :
    h'.viewLevel q' e = h.viewLevel q e := by
  rw [Heap.viewLevel, Heap.viewLevel, hq, hv, ho]

section OuterLoop

variable {t : OrderPtr} {τ : Order} {s s' : OrderBook}
  {q q' : LevelPtr → List OrderPtr} {resting side : Side} {k : Price} {l : LevelPtr}

/-- The loop over one level leaves the view of all others. -/
theorem Drained.viewLevel_ne {L' : List OrderPtr} {r : Filled}
    (hd : Drained q t τ l [] (q l) L' r s s') (h : Sweeping s q t τ)
    (he : (k, l) ∈ (s.levelMap resting).entries) {e : Price × LevelPtr}
    (hmem : e ∈ (s.levelMap side).entries) (hne : e.2 ≠ l) :
    s'.viewLevel (Function.update q l ([] ++ L')) e = s.viewLevel q e := by
  refine viewLevel_congr (Function.update_of_ne hne _ q) (hd.traded.volumes _ hne) ?_
  refine hd.traded.viewQueue fun j hj => ⟨?_, ?_⟩
  · rintro rfl
    exact h.outside hmem hj
  · intro hjl
    exact hne (h.core.queue_unique hmem he hj hjl)

/-- The incoming order stays outside when an empty level leaves the book. -/
theorem Sweeping.dropLevel (h : Sweeping s q t τ) {A B : List (Price × LevelPtr)}
    (hs : (s.levelMap side).entries = A ++ (k, l) :: B) (hq : q l = []) :
    Sweeping (s.dropLevel side k l) q t τ where
  core := h.core.dropLevel hs hq
  taker := h.taker
  outside := fun {side' k' l'} he => by
    rw [OrderBook.dropLevel_levelMap] at he
    exact h.outside (OrderBook.mem_erase_split hs he).1

/-- Levels other than the dropped one look the same. -/
theorem dropLevel_viewLevel {e : Price × LevelPtr} (hne : e.2 ≠ l) :
    (s.dropLevel side k l).viewLevel q e = s.viewLevel q e := by
  refine viewLevel_congr rfl ?_ rfl
  show (((s.toHeap.freeLevel l).level? e.2).map PriceLevel.totalVolume).getD 0 = _
  rw [Heap.level?_freeLevel, if_neg hne]
  rfl

/-- Deallocating an emptied level and erasing its entry. -/
theorem eraseLevel_run {A B : List (Price × LevelPtr)} {lv : PriceLevel}
    (hs : (s.levelMap side).entries = A ++ (k, l) :: B)
    (hlv : s.level? l = some lv) :
    (liftM (deallocateLevel (some l)) : BookM Unit) s
        = .ok () { s with toHeap := s.toHeap.freeLevel l }
      ∧ OrderBook.eraseLevel side k { s with toHeap := s.toHeap.freeLevel l }
        = .ok (B.head?.map Prod.fst) (s.dropLevel side k l) := by
  have hmap : ∀ h : Heap, ({ s with toHeap := h } : OrderBook).levelMap side
      = s.levelMap side := by
    intro h
    cases side <;> rfl
  refine ⟨liftM_ok (deallocateLevel_ok hlv), ?_⟩
  rw [OrderBook.eraseLevel, bind_ok (get_ok _), bind_ok (set_ok _ _), hmap,
    SMap.next?_split hs, OrderBook.dropLevel]
  cases side <;> rfl

/-- What the loop over the levels `post` of the side `resting` did: the book
    went from `s` to `s'`, and what is left of the levels is as the sweep `m`
    says.  The levels `pre` were passed before. -/
structure Cleared (resting : Side) (t : OrderPtr) (τ : Order)
    (pre post : List (Price × LevelPtr)) (m : Swept)
    (q q' : LevelPtr → List OrderPtr) (s s' : OrderBook) : Prop where
  sweeping : Sweeping s' q' t { τ with remainingQty := m.left }
  entries  : ∃ post', (s'.levelMap resting).entries = pre ++ post'
    ∧ post'.map (s'.viewLevel q') = m.rungs
  passed   : ∀ e ∈ pre, s'.viewLevel q' e = s.viewLevel q e
  others   : ∀ side, side ≠ resting → s'.levelMap side = s.levelMap side
    ∧ ∀ e ∈ (s.levelMap side).entries, s'.viewLevel q' e = s.viewLevel q e
  orderCap : s'.orderPool.capacity = s.orderPool.capacity
  levelCap : s'.levelPool.capacity = s.levelPool.capacity
  free     : s'.orderPool.available + ordersIn m.rungs
    = s.orderPool.available + ordersIn (post.map (s.viewLevel q))
  known    : s'.orderMap.entries.length + ordersIn (post.map (s.viewLevel q))
    = s.orderMap.entries.length + ordersIn m.rungs
  levels   : s'.levelPool.available + m.rungs.length
    = s.levelPool.available + post.length
  trades   : s'.totalTradesCount = s.totalTradesCount + UInt64.ofNat m.events.length
  volume   : s'.totalVolumeTraded = s.totalVolumeTraded + UInt64.ofNat (tradedQty m.events)

/-- A loop that does not start sweeps nothing. -/
theorem Cleared.refl (h : Sweeping s q t τ) {pre post : List (Price × LevelPtr)}
    (hs : (s.levelMap resting).entries = pre ++ post) :
    Cleared resting t τ pre post ⟨[], τ.remainingQty, post.map (s.viewLevel q)⟩
      q q s s where
  sweeping := h
  entries := ⟨post, hs, rfl⟩
  passed := fun _ _ => rfl
  others := fun _ _ => ⟨rfl, fun _ _ => rfl⟩
  orderCap := rfl
  levelCap := rfl
  free := rfl
  known := rfl
  levels := by rw [List.length_map]
  trades := (UInt64.add_zero _).symm
  volume := (UInt64.add_zero _).symm

/-- The number of orders a view of a queue shows. -/
theorem Core.viewQueue_length (hc : Core s q)
    (he : (k, l) ∈ (s.levelMap side).entries) :
    (s.viewQueue (q l)).length = (q l).length :=
  Lob.viewQueue_length (hc.represents he).live

/-- A queue is not longer than the order pool. -/
theorem Core.queue_fuel (hc : Core s q) (he : (k, l) ∈ (s.levelMap side).entries) :
    (q l).length < s.orderPool.capacity + 1 := by
  have hr := hc.represents he
  refine Nat.lt_succ_of_le (s.orderPool.length_le_capacity hr.nodup ?_)
  intro o ho hnone
  obtain ⟨x, hx⟩ := hr.live o ho
  have hx' : s.orderPool.poolStorage o = some x := hx
  rw [hnone] at hx'
  cases hx'

/-- The other levels of a map have other objects. -/
theorem Core.split_ne (hc : Core s q) {A B : List (Price × LevelPtr)}
    (hs : (s.levelMap side).entries = A ++ (k, l) :: B) {e : Price × LevelPtr}
    (he : e ∈ A ∨ e ∈ B) : e.2 ≠ l := by
  obtain ⟨hA, hB⟩ := SMap.split_sorted hs
  rintro rfl
  have hmem : (e.1, e.2) ∈ (s.levelMap side).entries := by
    rw [hs]
    rcases he with h | h <;> simp [h]
  obtain ⟨-, hk⟩ := hc.apart hmem (show (k, e.2) ∈ _ by rw [hs]; simp)
  rcases he with h | h
  · exact irrefl_of side.comparator k (hk ▸ hA e h)
  · exact irrefl_of side.comparator k (hk ▸ hB e h)

/-- The levels of the other map have other objects. -/
theorem Core.other_side (hc : Core s q) {side side' : Side}
    (he : (k, l) ∈ (s.levelMap side).entries) {e : Price × LevelPtr}
    (he' : e ∈ (s.levelMap side').entries) (hside : side' ≠ side) : e.2 ≠ l := by
  rintro rfl
  exact hside (hc.apart (k := e.1) he' he).1

/-- The queue left of a level has as many orders as its view. -/
theorem Drained.orders_length {L L' : List OrderPtr} {r : Filled}
    (hd : Drained q t τ l [] L L' r s s')
    (he : (k, l) ∈ (s.levelMap resting).entries) : r.orders.length = L'.length := by
  have he' : (k, l) ∈ (s'.levelMap resting).entries := by
    rw [hd.traded.maps]
    exact he
  have hlen := hd.sweeping.core.viewQueue_length he'
  rwa [Function.update_self, List.nil_append, hd.view] at hlen

variable {pre post : List (Price × LevelPtr)} {f : Filled} {m : Swept}
  {s₁ s₂ : OrderBook}

/-- The orders in front of the loop are those of its first level and of the others. -/
theorem Core.ordersIn_ahead (hc : Core s q) (he : (k, l) ∈ (s.levelMap resting).entries) :
    ordersIn (((k, l) :: post).map (s.viewLevel q))
      = (q l).length + ordersIn (post.map (s.viewLevel q)) := by
  rw [List.map_cons, ordersIn_cons, ← hc.viewQueue_length he]
  rfl

/-- The levels ahead are as they were when the first one stays. -/
theorem Drained.ahead {L' : List OrderPtr} (hd : Drained q t τ l [] (q l) L' f s s₁)
    (h : Sweeping s q t τ) (hs : (s.levelMap resting).entries = pre ++ (k, l) :: post) :
    post.map (s₁.viewLevel (Function.update q l ([] ++ L'))) = post.map (s.viewLevel q) := by
  have he : (k, l) ∈ (s.levelMap resting).entries := by simp [hs]
  refine List.map_congr_left fun e hmem => ?_
  exact hd.viewLevel_ne h he (OrderBook.mem_of_split hs (Or.inr hmem))
    (h.core.split_ne hs (Or.inr hmem))

/-- They are when it leaves the book. -/
theorem Drained.ahead_dropped (hd : Drained q t τ l [] (q l) [] f s s₁)
    (h : Sweeping s q t τ) (hs : (s.levelMap resting).entries = pre ++ (k, l) :: post) :
    post.map ((s₁.dropLevel resting k l).viewLevel (Function.update q l ([] ++ [])))
      = post.map (s.viewLevel q) := by
  refine (List.map_congr_left fun e hmem => ?_).trans (hd.ahead h hs)
  exact dropLevel_viewLevel (h.core.split_ne hs (Or.inr hmem))

/-- The loop's first round empties its level, which leaves the book. -/
theorem Cleared.cons_emptied (h : Sweeping s q t τ)
    (hs : (s.levelMap resting).entries = pre ++ (k, l) :: post)
    (hd : Drained q t τ l [] (q l) [] f s s₁)
    (hc : Cleared resting t { τ with remainingQty := f.left } pre post m
      (Function.update q l ([] ++ [])) q' (s₁.dropLevel resting k l) s₂) :
    Cleared resting t τ pre ((k, l) :: post) ⟨f.events ++ m.events, m.left, m.rungs⟩
      q q' s s₂ := by
  have he : (k, l) ∈ (s.levelMap resting).entries := by simp [hs]
  have hs₁ : (s₁.levelMap resting).entries = pre ++ (k, l) :: post := by
    rw [hd.traded.maps]
    exact hs
  have hlive : ∃ lv, s₁.levelPool.poolStorage l = some lv := by
    have he₁ : (k, l) ∈ (s₁.levelMap resting).entries := by simp [hs₁]
    obtain ⟨lv, hlv, -⟩ := hd.sweeping.core.live_level he₁
    exact ⟨lv, hlv⟩
  have hsame : ∀ {side e}, e ∈ (s.levelMap side).entries → e.2 ≠ l →
      (s₁.dropLevel resting k l).viewLevel (Function.update q l ([] ++ [])) e
        = s.viewLevel q e := by
    intro side e hmem hne
    rw [dropLevel_viewLevel hne]
    exact hd.viewLevel_ne h he hmem hne
  have hpost := hd.ahead_dropped h hs
  have hview := @Core.ordersIn_ahead _ _ _ _ _ post h.core he
  have hpool : (s₁.dropLevel resting k l).orderPool = s₁.orderPool := by
    cases resting <;> rfl
  constructor
  case sweeping => exact hc.sweeping
  case entries => exact hc.entries
  case passed =>
    intro e hmem
    rw [hc.passed e hmem]
    exact hsame (OrderBook.mem_of_split hs (Or.inl hmem)) (h.core.split_ne hs (Or.inl hmem))
  case others =>
    intro side hside
    obtain ⟨hmaps, hviews⟩ := hc.others side hside
    have hmap : (s₁.dropLevel resting k l).levelMap side = s.levelMap side := by
      rw [OrderBook.dropLevel_levelMap, OrderBook.levelMap_setLevelMap_ne _ hside,
        hd.traded.maps]
    refine ⟨hmaps.trans hmap, ?_⟩
    rintro ⟨k', l'⟩ hmem
    have hne : l' ≠ l := h.core.other_side he hmem hside
    rw [hviews _ (by rw [hmap]; exact hmem)]
    exact hsame hmem hne
  case orderCap => rw [hc.orderCap, hpool, hd.traded.orderCap]
  case levelCap =>
    rw [hc.levelCap, ← hd.traded.levelCap]
    exact ObjectPool.release_capacity _ l
  case free =>
    have h1 := hc.free
    have h2 := hd.traded.free
    rw [hpool, hpost] at h1
    rw [hview]
    simp only [List.length_nil] at h2
    show s₂.orderPool.available + ordersIn m.rungs = _
    omega
  case known =>
    have h1 := hc.known
    have h2 := hd.traded.known
    rw [OrderBook.dropLevel_orderMap, hpost] at h1
    rw [hview]
    simp only [List.length_nil] at h2
    show _ = s.orderMap.entries.length + ordersIn m.rungs
    omega
  case levels =>
    obtain ⟨lv, hlv⟩ := hlive
    have h1 := hc.levels
    have hfree : (s₁.dropLevel resting k l).levelPool.available
        = s.levelPool.available + 1 := by
      show (s₁.levelPool.release l).freeList.length = _
      rw [ObjectPool.release_freeList hlv, hd.traded.levelFree]
      rfl
    rw [hfree] at h1
    rw [List.length_cons]
    show s₂.levelPool.available + m.rungs.length = _
    omega
  case trades =>
    have htr : (s₁.dropLevel resting k l).totalTradesCount = s₁.totalTradesCount := by
      cases resting <;> rfl
    rw [hc.trades, htr, hd.traded.trades, List.length_append, UInt64.ofNat_add,
      UInt64.add_assoc]
  case volume =>
    have hvo : (s₁.dropLevel resting k l).totalVolumeTraded = s₁.totalVolumeTraded := by
      cases resting <;> rfl
    rw [hc.volume, hvo, hd.traded.volume, tradedQty_append, UInt64.ofNat_add,
      UInt64.add_assoc]

/-- The loop's first round leaves makers in its level, which stays. -/
theorem Cleared.cons_kept (h : Sweeping s q t τ)
    (hs : (s.levelMap resting).entries = pre ++ (k, l) :: post) {L' : List OrderPtr}
    (hd : Drained q t τ l [] (q l) L' f s s₁)
    (hc : Cleared resting t { τ with remainingQty := f.left } (pre ++ [(k, l)]) post m
      (Function.update q l ([] ++ L')) q' s₁ s₂) :
    Cleared resting t τ pre ((k, l) :: post)
      ⟨f.events ++ m.events, m.left, ⟨k, f.totalVolume, f.orders⟩ :: m.rungs⟩
      q q' s s₂ := by
  have he : (k, l) ∈ (s.levelMap resting).entries := by simp [hs]
  have hpost := hd.ahead h hs
  have hself : s₁.viewLevel (Function.update q l ([] ++ L')) (k, l)
      = ⟨k, f.totalVolume, f.orders⟩ := by
    rw [Heap.viewLevel, Function.update_self, List.nil_append, hd.view, hd.volume]
  have hview := @Core.ordersIn_ahead _ _ _ _ _ post h.core he
  have hlen := hd.orders_length he
  constructor
  case sweeping => exact hc.sweeping
  case entries =>
    obtain ⟨post', hent, hmap⟩ := hc.entries
    refine ⟨(k, l) :: post', by rw [hent]; simp, ?_⟩
    rw [List.map_cons, hmap, hc.passed (k, l) (by simp), hself]
  case passed =>
    intro e hmem
    rw [hc.passed e (by simp [hmem])]
    exact hd.viewLevel_ne h he (OrderBook.mem_of_split hs (Or.inl hmem))
      (h.core.split_ne hs (Or.inl hmem))
  case others =>
    intro side hside
    obtain ⟨hmaps, hviews⟩ := hc.others side hside
    refine ⟨hmaps.trans (hd.traded.maps side), ?_⟩
    rintro ⟨k', l'⟩ hmem
    have hne : l' ≠ l := h.core.other_side he hmem hside
    rw [hviews _ (by rw [hd.traded.maps]; exact hmem)]
    exact hd.viewLevel_ne h he hmem hne
  case orderCap => rw [hc.orderCap, hd.traded.orderCap]
  case levelCap => rw [hc.levelCap, hd.traded.levelCap]
  case free =>
    have h1 := hc.free
    have h2 := hd.traded.free
    rw [hpost] at h1
    rw [hview, ordersIn_cons]
    show s₂.orderPool.available + (f.orders.length + ordersIn m.rungs) = _
    omega
  case known =>
    have h1 := hc.known
    have h2 := hd.traded.known
    rw [hpost] at h1
    rw [hview, ordersIn_cons]
    show _ = s.orderMap.entries.length + (f.orders.length + ordersIn m.rungs)
    omega
  case levels =>
    have h1 := hc.levels
    have hfree : s₁.levelPool.available = s.levelPool.available := by
      rw [ObjectPool.available, hd.traded.levelFree]
      rfl
    rw [hfree] at h1
    rw [List.length_cons, List.length_cons]
    show s₂.levelPool.available + (m.rungs.length + 1) = _
    omega
  case trades =>
    rw [hc.trades, hd.traded.trades, List.length_append, UInt64.ofNat_add,
      UInt64.add_assoc]
  case volume =>
    rw [hc.volume, hd.traded.volume, tradedQty_append, UInt64.ofNat_add,
      UInt64.add_assoc]

/-- The header of a level that was looped over says whether makers are left. -/
theorem Drained.empty_iff {L L' : List OrderPtr} (hd : Drained q t τ l [] L L' f s s₁)
    (he : (k, l) ∈ (s.levelMap resting).entries) :
    ∃ lv, s₁.level? l = some lv ∧ (lv.empty = true ↔ L' = []) := by
  have he₁ : (k, l) ∈ (s₁.levelMap resting).entries := by
    rw [hd.traded.maps]
    exact he
  obtain ⟨lv, hlv, hhead, -⟩ := (hd.sweeping.core.represents he₁).header
  refine ⟨lv, hlv, ?_⟩
  rw [PriceLevel.empty, hhead, Function.update_self]
  cases L' <;> simp

/-- **THE OUTER LOOP** sweeps the levels of a side.  The induction is on the
    levels still ahead of the iterator; `pre` are those already passed. -/
theorem matchLevels_sim (now : Nat → Timestamp) {beyond : PriceLevel → Order → Bool}
    (hb : ∀ lv x, beyond lv x = beyondLimit resting x.price x.type lv.price)
    (post : List (Price × LevelPtr)) :
    ∀ {s : OrderBook} {q : LevelPtr → List OrderPtr} {τ : Order}
      {pre : List (Price × LevelPtr)} {fuel : Nat},
      Sweeping s q t τ → ∀ matched : List MatchEvent,
      (s.levelMap resting).entries = pre ++ post →
      post.length < fuel → ∃ s' q',
        OrderBook.matchLevels now resting beyond t fuel (post.head?.map Prod.fst) matched s
          = .ok (matched ++ (sweep now τ.id (beyondLimit resting τ.price τ.type)
              matched.length τ.remainingQty (post.map (s.viewLevel q))).events) s'
        ∧ Cleared resting t τ pre post (sweep now τ.id
            (beyondLimit resting τ.price τ.type) matched.length τ.remainingQty
            (post.map (s.viewLevel q))) q q' s s' := by
  induction post with
  | nil =>
      intro s q τ pre fuel h matched hs hfuel
      obtain ⟨fuel, rfl⟩ : ∃ n, fuel = n + 1 := ⟨fuel - 1, by omega⟩
      refine ⟨s, q, ?_, Cleared.refl h hs⟩
      rw [List.map_nil, sweep, List.append_nil]
      rfl
  | cons e post ih =>
      obtain ⟨k, l⟩ := e
      intro s q τ pre fuel h matched hs hfuel
      obtain ⟨fuel, rfl⟩ : ∃ n, fuel = n + 1 := ⟨fuel - 1, by simp at hfuel; omega⟩
      have hfuel' : post.length < fuel := by
        rw [List.length_cons] at hfuel
        omega
      have he : (k, l) ∈ (s.levelMap resting).entries := by simp [hs]
      obtain ⟨lv, hlv, hhead, -⟩ := (h.core.represents he).header
      have hkey : lv.price = k := h.core.key he hlv
      have hderef : OrderBook.derefLevel resting k s = .ok l s := by
        rw [OrderBook.derefLevel, bind_ok (get_ok s), SMap.find?_split hs]
        rfl
      rw [List.map_cons, List.head?_cons, Option.map_some, OrderBook.matchLevels,
        bind_ok (liftM_ok (readOrder_ok h.taker))]
      -- does the loop look at this level at all?
      by_cases hgo : τ.remainingQty > 0 ∧ beyondLimit resting τ.price τ.type k = false
      · have hgo' : τ.remainingQty > 0
            ∧ beyondLimit resting τ.price τ.type (s.viewLevel q (k, l)).price = false := hgo
        rw [if_pos hgo.1, bind_ok hderef, bind_ok (liftM_ok (readLevel_ok hlv)),
          bind_ok (liftM_ok (readOrder_ok h.taker)), hb, hkey, if_neg (by simp [hgo.2]),
          bind_ok (liftM_ok (readLevel_ok hlv)), bind_ok (get_ok s), hhead]
        obtain ⟨s₁, L', hrun, hd⟩ := matchMakers_sim now (q l) h he matched
          (List.nil_append _).symm (h.core.queue_fuel he)
        rw [bind_ok hrun]
        generalize hf : fillQueue now τ.id k matched.length τ.remainingQty
          (s.volumeOf l) (s.viewQueue (q l)) = f at *
        obtain ⟨lv₁, hlv₁, hempty⟩ := hd.empty_iff he
        have hlen := hd.orders_length he
        have hs₁ : (s₁.levelMap resting).entries = pre ++ (k, l) :: post := by
          rw [hd.traded.maps]
          exact hs
        have hnil : f.orders = [] ↔ L' = [] := by
          rw [← List.length_eq_zero_iff, hlen, List.length_eq_zero_iff]
        rw [bind_ok (liftM_ok (readLevel_ok hlv₁))]
        by_cases hL : L' = []
        · -- the level was emptied
          subst hL
          obtain ⟨hdealloc, herase⟩ := eraseLevel_run hs₁ hlv₁
          rw [if_pos (hempty.mpr rfl), bind_ok hdealloc, bind_ok herase,
            sweep_emptied hgo' hf (hnil.mpr rfl)]
          have hgone : Function.update q l ([] ++ []) l = [] := Function.update_self l _ q
          have hsw := hd.sweeping.dropLevel hs₁ hgone
          have hs₂ : ((s₁.dropLevel resting k l).levelMap resting).entries = pre ++ post := by
            rw [OrderBook.dropLevel_levelMap, OrderBook.levelMap_setLevelMap_self,
              SMap.erase_split hs₁]
          obtain ⟨s₂, q₂, hrun₂, hc⟩ := ih hsw (matched ++ f.events) hs₂ hfuel'
          rw [hd.ahead_dropped h hs, List.length_append] at hrun₂ hc
          refine ⟨s₂, q₂, ?_, hc.cons_emptied h hs hd⟩
          rw [hrun₂, List.append_assoc]
        · -- the incoming order was exhausted in this level
          rw [if_neg (fun h' => hL (hempty.mp h')),
            sweep_kept hgo' hf (fun h' => hL (hnil.mp h'))]
          have hnext : OrderBook.nextLevel resting k s₁
              = .ok (post.head?.map Prod.fst) s₁ := by
            rw [OrderBook.nextLevel, bind_ok (get_ok s₁), SMap.next?_split hs₁]
            rfl
          rw [bind_ok hnext]
          have hs₂ : (s₁.levelMap resting).entries = (pre ++ [(k, l)]) ++ post := by
            rw [hs₁]
            simp
          obtain ⟨s₂, q₂, hrun₂, hc⟩ := ih hd.sweeping (matched ++ f.events) hs₂ hfuel'
          rw [hd.ahead h hs, List.length_append] at hrun₂ hc
          refine ⟨s₂, q₂, ?_, hc.cons_kept h hs hd⟩
          rw [hrun₂, List.append_assoc]
      · -- it returns before this level
        have hstop : ¬ (τ.remainingQty > 0
            ∧ beyondLimit resting τ.price τ.type (s.viewLevel q (k, l)).price = false) := hgo
        rw [sweep_stop hstop, List.append_nil, ← List.map_cons]
        refine ⟨s, q, ?_, Cleared.refl h hs⟩
        by_cases hpos : τ.remainingQty > 0
        · have hbeyond : beyondLimit resting τ.price τ.type k = true := by
            simpa using fun hfalse => hgo ⟨hpos, hfalse⟩
          rw [if_pos hpos, bind_ok hderef, bind_ok (liftM_ok (readLevel_ok hlv)),
            bind_ok (liftM_ok (readOrder_ok h.taker)), hb, hkey, if_pos hbeyond]
          rfl
        · rw [if_neg hpos]
          rfl

end OuterLoop

end Lob
