import AsyncNetLob.LobLadder
import AsyncNetLob.LobIntrusiveListProofs

/-! # Which heaps represent a book

    `Core s q` is the structure of a well-formed order book: `q` names, for
    each level slot, the queue of order slots the level's links spell out.
    Maps, levels, links and `orderMap_` agree, and no level object serves two
    map entries.  Quantities play no part in it; they are in the VIEW of the
    book as a ladder.

    Each primitive change of the book is shown once to keep `Core`: assigning
    quantities (`Core.transport`), taking an order out of its level
    (`Core.dropOrder`), erasing an empty level (`Core.dropLevel`), creating a
    level (`Core.addLevel`), queueing an order (`Core.addOrder`), and taking
    or returning a slot outside the book (`Core.heapOutside`). -/

namespace Lob

open StateExcept SortedMap LinkedSegment

/-! ## Views -/

/-- What a ladder shows of an order. -/
def Order.view (x : Order) : RestingOrder := ⟨x.id, x.quantity, x.remainingQty⟩

/-- The orders in some slots. -/
def Heap.viewQueue (h : Heap) (L : List OrderPtr) : List RestingOrder :=
  L.filterMap (fun o => (h.order? o).map Order.view)

/-- `level->totalVolume`. -/
def Heap.volumeOf (h : Heap) (l : LevelPtr) : Quantity :=
  ((h.level? l).map PriceLevel.totalVolume).getD 0

/-- The level of a map entry, with its queue. -/
def Heap.viewLevel (h : Heap) (q : LevelPtr → List OrderPtr)
    (e : Price × LevelPtr) : Rung :=
  ⟨e.1, h.volumeOf e.2, h.viewQueue (q e.2)⟩

@[simp] theorem viewQueue_nil (h : Heap) : h.viewQueue [] = [] := rfl

@[simp] theorem viewQueue_append (h : Heap) (L M : List OrderPtr) :
    h.viewQueue (L ++ M) = h.viewQueue L ++ h.viewQueue M := by
  simp [Heap.viewQueue]

theorem viewQueue_cons {h : Heap} {o : OrderPtr} {x : Order}
    (hx : h.order? o = some x) (L : List OrderPtr) :
    h.viewQueue (o :: L) = x.view :: h.viewQueue L := by
  simp [Heap.viewQueue, hx]

/-- A view only depends on the data of the orders it shows. -/
theorem viewQueue_congr {h h' : Heap} {L : List OrderPtr}
    (hd : ∀ o ∈ L, (h'.order? o).map Order.data = (h.order? o).map Order.data) :
    h'.viewQueue L = h.viewQueue L := by
  refine List.filterMap_congr ?_
  intro o ho
  have hview : ∀ y : Option Order, (y.map Order.data).map Order.view = y.map Order.view := by
    intro y
    cases y <;> rfl
  rw [← hview, hd o ho, hview]

/-- A view of live slots shows every one of them. -/
theorem viewQueue_length {h : Heap} {L : List OrderPtr}
    (hlive : ∀ o ∈ L, ∃ x, h.order? o = some x) :
    (h.viewQueue L).length = L.length := by
  induction L with
  | nil => rfl
  | cons o L ih =>
      obtain ⟨x, hx⟩ := hlive o List.mem_cons_self
      rw [viewQueue_cons hx, List.length_cons, List.length_cons,
        ih (fun o ho => hlive o (List.mem_cons_of_mem _ ho))]

/-! ## The structure of a book -/

/-- An order that rests in a level: everything but its quantities. -/
structure RestsIn (side : Side) (price : Price) (level : LevelPtr) (x : Order) :
    Prop where
  level : x.priceLevelPtr = some level
  price : x.price = price
  side  : x.side = side
  limit : x.type = .limit

theorem Order.id_of_data {x y : Order} (h : x.data = y.data) : x.id = y.id := by
  have h' : x.data.id = y.data.id := by rw [h]
  exact h'

/-- Resting does not depend on the links. -/
theorem RestsIn.of_data {side : Side} {price : Price} {level : LevelPtr}
    {x y : Order} (h : RestsIn side price level y) (hd : x.data = y.data) :
    RestsIn side price level x := by
  have h' : RestsIn side price level x.data := by
    rw [hd]
    exact ⟨h.level, h.price, h.side, h.limit⟩
  exact ⟨h'.level, h'.price, h'.side, h'.limit⟩

/-- Maps, levels, links and the id map of a book agree on the queues `q`. -/
structure Core (s : OrderBook) (q : LevelPtr → List OrderPtr) : Prop where
  represents : ∀ {side k l}, (k, l) ∈ (s.levelMap side).entries →
    Represents s.toHeap l (q l)
  key : ∀ {side k l lv}, (k, l) ∈ (s.levelMap side).entries →
    s.level? l = some lv → lv.price = k
  resting : ∀ {side k l o x}, (k, l) ∈ (s.levelMap side).entries → o ∈ q l →
    s.order? o = some x → RestsIn side k l x ∧ s.orderMap.lookup x.id = some o
  mapped : ∀ {id o}, s.orderMap.lookup id = some o → ∃ side k l x,
    (k, l) ∈ (s.levelMap side).entries ∧ o ∈ q l ∧ s.order? o = some x ∧ x.id = id
  apart : ∀ {side side' k k' l}, (k, l) ∈ (s.levelMap side).entries →
    (k', l) ∈ (s.levelMap side').entries → side = side' ∧ k = k'

namespace OrderBook

@[simp] theorem levelMap_setLevelMap_self (s : OrderBook) (side : Side)
    (m : SMap Price LevelPtr side.comparator) :
    (s.setLevelMap side m).levelMap side = m := by
  cases side <;> rfl

theorem levelMap_setLevelMap_ne (s : OrderBook) {side side' : Side}
    (h : side' ≠ side) (m : SMap Price LevelPtr side.comparator) :
    (s.setLevelMap side m).levelMap side' = s.levelMap side' := by
  cases side <;> cases side' <;> first | rfl | exact absurd rfl h

/-- The entries around an entry of a map. -/
theorem mem_of_split {s : OrderBook} {side : Side} {e₀ e : Price × LevelPtr}
    {A B : List (Price × LevelPtr)} (hs : (s.levelMap side).entries = A ++ e₀ :: B)
    (he : e ∈ A ∨ e ∈ B) : e ∈ (s.levelMap side).entries := by
  rw [hs]
  rcases he with h | h
  · exact List.mem_append_left _ h
  · exact List.mem_append_right _ (List.mem_cons_of_mem _ h)

/-- The entries of a map after one of them was erased. -/
theorem mem_erase_split {s : OrderBook} {side : Side} {k : Price} {l : LevelPtr}
    {A B : List (Price × LevelPtr)}
    (hs : (s.levelMap side).entries = A ++ (k, l) :: B)
    {side' : Side} {e : Price × LevelPtr}
    (he : e ∈ ((s.setLevelMap side ((s.levelMap side).erase k)).levelMap side').entries) :
    e ∈ (s.levelMap side').entries ∧ (side' = side → e.1 ≠ k) := by
  by_cases h : side' = side
  · subst h
    rw [levelMap_setLevelMap_self] at he
    have := List.mem_filter.mp he
    exact ⟨this.1, fun _ => by simpa using this.2⟩
  · rw [levelMap_setLevelMap_ne _ h] at he
    exact ⟨he, fun h' => absurd h' h⟩

end OrderBook

namespace Core

variable {s s' : OrderBook} {q q' : LevelPtr → List OrderPtr} {side : Side}
  {k : Price} {l : LevelPtr} {o : OrderPtr} {x : Order}

/-- An order is queued in one level only. -/
theorem queue_unique (hc : Core s q) {side' : Side} {k' : Price} {l' : LevelPtr}
    (he : (k, l) ∈ (s.levelMap side).entries)
    (he' : (k', l') ∈ (s.levelMap side').entries)
    (ho : o ∈ q l) (ho' : o ∈ q l') : l = l' := by
  obtain ⟨x, hx⟩ := (hc.represents he).live o ho
  have h1 := (hc.resting he ho hx).1.level
  have h2 := (hc.resting he' ho' hx).1.level
  exact Option.some.inj (h1.symm.trans h2)

/-- A level slot in a map holds a level. -/
theorem live_level (hc : Core s q) (he : (k, l) ∈ (s.levelMap side).entries) :
    ∃ lv, s.level? l = some lv ∧ lv.price = k := by
  obtain ⟨lv, hlv, -⟩ := (hc.represents he).header
  exact ⟨lv, hlv, hc.key he hlv⟩

/-- **TRANSPORT**: a change that keeps maps, links and identities keeps the
    structure.  `g` is what it does to the orders of the queues. -/
theorem transport (hc : Core s q)
    (hm : ∀ side, s'.levelMap side = s.levelMap side)
    (hom : s'.orderMap = s.orderMap)
    (hr : ∀ {side k l}, (k, l) ∈ (s.levelMap side).entries →
      Represents s'.toHeap l (q l))
    (hl : ∀ {side k l lv'}, (k, l) ∈ (s.levelMap side).entries →
      s'.level? l = some lv' → ∃ lv, s.level? l = some lv ∧ lv'.price = lv.price)
    (ho : ∀ {side k l o}, (k, l) ∈ (s.levelMap side).entries → o ∈ q l →
      ∃ x x', s.order? o = some x ∧ s'.order? o = some x' ∧ x'.id = x.id ∧
        (RestsIn side k l x → RestsIn side k l x')) : Core s' q where
  represents := fun he => hr (hm _ ▸ he)
  key := fun {side k l lv'} he hlv' => by
    rw [hm] at he
    obtain ⟨lv, hlv, hp⟩ := hl he hlv'
    rw [hp, hc.key he hlv]
  resting := fun {side k l o x'} he hq hx' => by
    rw [hm] at he
    obtain ⟨x, y, hx, hy, hid, hri⟩ := ho he hq
    rw [hx'] at hy
    cases hy
    obtain ⟨h1, h2⟩ := hc.resting he hq hx
    exact ⟨hri h1, by rw [hom, hid, h2]⟩
  mapped := fun {id o} hid => by
    rw [hom] at hid
    obtain ⟨side, k, l, x, he, hq, hx, rfl⟩ := hc.mapped hid
    obtain ⟨y, x', hy, hx', hxid, -⟩ := ho he hq
    rw [hx] at hy
    cases hy
    exact ⟨side, k, l, x', by rw [hm]; exact he, hq, hx', hxid⟩
  apart := fun he he' => hc.apart (hm _ ▸ he) (hm _ ▸ he')

/-- Taking or returning slots outside the book keeps the structure. -/
theorem heapOutside (hc : Core s q)
    (hm : ∀ side, s'.levelMap side = s.levelMap side)
    (hom : s'.orderMap = s.orderMap)
    (hl : ∀ {side k l}, (k, l) ∈ (s.levelMap side).entries →
      s'.level? l = s.level? l)
    (ho : ∀ {side k l o}, (k, l) ∈ (s.levelMap side).entries → o ∈ q l →
      s'.order? o = s.order? o) : Core s' q := by
  refine hc.transport hm hom ?_ ?_ ?_
  · intro side k l he
    exact (hc.represents he).frame (hl he) (fun o hq => ho he hq)
  · intro side k l lv' he hlv'
    exact ⟨lv', hl he ▸ hlv', rfl⟩
  · intro side k l o he hq
    obtain ⟨x, hx⟩ := (hc.represents he).live o hq
    exact ⟨x, x, hx, by rw [ho he hq, hx], rfl, id⟩

end Core

/-! ## Primitive changes -/

namespace OrderBook

/-- The book after an order left level `l`, the id map and its slot. -/
def dropOrder (s : OrderBook) (l : LevelPtr) (o : OrderPtr) (x : Order) : OrderBook :=
  { s with toHeap := (s.toHeap.removed l o x).freeOrder o
           orderMap := s.orderMap.erase x.id }

/-- The book after a level left its map and its slot. -/
def dropLevel (s : OrderBook) (side : Side) (k : Price) (l : LevelPtr) : OrderBook :=
  { s.setLevelMap side ((s.levelMap side).erase k) with
    toHeap := s.toHeap.freeLevel l }

/-- The book after a level object was put into a map at a new price. -/
def addLevel (s : OrderBook) (side : Side) (k : Price) (l : LevelPtr)
    (p : ObjectPool PriceLevel) : OrderBook :=
  { s.setLevelMap side ((s.levelMap side).insert k l) with levelPool := p }

/-- The book after an order was queued at a level and entered in the id map. -/
def enqueue (s : OrderBook) (l : LevelPtr) (o : OrderPtr) (x : Order)
    (tail : Option OrderPtr) : OrderBook :=
  { s with toHeap := s.toHeap.appended l o tail x.remainingQty
           orderMap := s.orderMap.insert x.id o }

section Maps

variable (s : OrderBook) (side : Side) (k : Price) (l : LevelPtr) (o : OrderPtr)
  (x : Order) (tail : Option OrderPtr) (p : ObjectPool PriceLevel)

@[simp] theorem dropOrder_levelMap (side' : Side) :
    (s.dropOrder l o x).levelMap side' = s.levelMap side' := by
  cases side' <;> rfl

@[simp] theorem enqueue_levelMap (side' : Side) :
    (s.enqueue l o x tail).levelMap side' = s.levelMap side' := by
  cases side' <;> rfl

theorem dropLevel_levelMap (side' : Side) : (s.dropLevel side k l).levelMap side'
    = (s.setLevelMap side ((s.levelMap side).erase k)).levelMap side' := by
  cases side' <;> rfl

theorem addLevel_levelMap (side' : Side) : (s.addLevel side k l p).levelMap side'
    = (s.setLevelMap side ((s.levelMap side).insert k l)).levelMap side' := by
  cases side' <;> rfl

@[simp] theorem dropLevel_orderMap : (s.dropLevel side k l).orderMap = s.orderMap := by
  cases side <;> rfl

@[simp] theorem addLevel_orderMap : (s.addLevel side k l p).orderMap = s.orderMap := by
  cases side <;> rfl

end Maps

end OrderBook

namespace Core

variable {s s' : OrderBook} {q q' : LevelPtr → List OrderPtr} {side : Side}
  {k : Price} {l : LevelPtr} {o : OrderPtr} {x : Order} {A B : List OrderPtr}

/-- What is left of another order after `dropOrder`: all but its links. -/
theorem dropOrder_order? {j : OrderPtr} (hj : j ≠ o) :
    (s.dropOrder l o x).order? j = (s.order? j).map (fun y =>
      { y with next := if x.prev = some j then x.next else y.next,
               prev := if x.next = some j then x.prev else y.prev }) := by
  show ((s.toHeap.removed l o x).freeOrder o).order? j = _
  rw [Heap.order?_freeOrder, if_neg hj, removed_order?_ne hj]

/-- The slot of an order that leaves the book is free. -/
theorem dropOrder_available (hc : Core s q)
    (he : (k, l) ∈ (s.levelMap side).entries) (hq : q l = A ++ o :: B)
    (hx : s.order? o = some x) :
    (s.dropOrder l o x).orderPool.available = s.orderPool.available + 1 := by
  have hr : Represents s.toHeap l (A ++ o :: B) := hq ▸ hc.represents he
  show ((s.toHeap.removed l o x).orderPool.release o).freeList.length = _
  rw [ObjectPool.release_freeList (hr.removed_self hx), removed_orderFree]
  rfl

/-- A slot outside the queue keeps its order when one of the queue leaves. -/
theorem dropOrder_outside (hc : Core s q)
    (he : (k, l) ∈ (s.levelMap side).entries) (hq : q l = A ++ o :: B)
    (hx : s.order? o = some x) {j : OrderPtr} (hj : j ∉ q l) :
    (s.dropOrder l o x).order? j = s.order? j := by
  have hr : Represents s.toHeap l (A ++ o :: B) := hq ▸ hc.represents he
  rw [hq] at hj
  have hjo : j ≠ o := fun h => hj (by simp [h])
  show ((s.toHeap.removed l o x).freeOrder o).order? j = _
  rw [Heap.order?_freeOrder, if_neg hjo, hr.removed_outside hx hj]

/-- The level an order leaves keeps its volume up to the clamped
    subtraction. -/
theorem dropOrder_volumeOf (hc : Core s q)
    (he : (k, l) ∈ (s.levelMap side).entries) :
    (s.dropOrder l o x).volumeOf l
      = clampedVolume (s.volumeOf l) x.remainingQty := by
  obtain ⟨lv, hlv, -⟩ := hc.live_level he
  show ((((s.toHeap.removed l o x).freeOrder o).level? l).map
    PriceLevel.totalVolume).getD 0 = _
  rw [Heap.level?_freeOrder, removed_level?_self hlv]
  simp [Heap.volumeOf, hlv]

/-- **AN ORDER LEAVES THE BOOK**, from any position of its queue. -/
theorem dropOrder (hc : Core s q) (he : (k, l) ∈ (s.levelMap side).entries)
    (hq : q l = A ++ o :: B) (hx : s.order? o = some x) :
    Core (s.dropOrder l o x) (Function.update q l (A ++ B)) := by
  have hr : Represents s.toHeap l (A ++ o :: B) := hq ▸ hc.represents he
  have hol : o ∈ q l := by simp [hq]
  have hnot : o ∉ A ++ B := (List.nodup_cons.mp (List.nodup_middle.mp hr.nodup)).1
  have hxid := (hc.resting he hol hx).2
  -- an order queued afterwards was queued before, and is another one
  have hqueued : ∀ {side' k' l' j}, (k', l') ∈ (s.levelMap side').entries →
      j ∈ Function.update q l (A ++ B) l' → j ∈ q l' ∧ j ≠ o := by
    intro side' k' l' j he' hj
    by_cases hl : l' = l
    · subst hl
      rw [Function.update_self] at hj
      refine ⟨?_, fun h => hnot (h ▸ hj)⟩
      rw [hq]
      rcases List.mem_append.mp hj with h | h <;> simp [h]
    · rw [Function.update_of_ne hl] at hj
      exact ⟨hj, fun h => hl (hc.queue_unique he' he hj (h ▸ hol))⟩
  have hdata : ∀ {j y}, j ≠ o → s.order? j = some y →
      ∃ y', (s.dropOrder l o x).order? j = some y' ∧ y'.data = y.data := by
    intro j y hj hy
    rw [dropOrder_order? hj, hy]
    exact ⟨_, rfl, rfl⟩
  constructor
  case represents =>
    intro side' k' l' he'
    rw [OrderBook.dropOrder_levelMap] at he'
    by_cases hl : l' = l
    · subst hl
      rw [Function.update_self]
      refine (hr.removed hx).frame rfl ?_
      intro j hj
      have hjo : j ≠ o := fun h => hnot (h ▸ hj)
      show ((s.toHeap.removed _ o x).freeOrder o).order? j = _
      rw [Heap.order?_freeOrder, if_neg hjo]
    · rw [Function.update_of_ne hl]
      have hlv : (s.toHeap.removed l o x).level? l' = s.level? l' :=
        removed_level?_ne hl
      refine (hc.represents he').frame hlv ?_
      intro j hj
      have hjl : j ∉ A ++ o :: B := fun h =>
        hl (hc.queue_unique he' he hj (hq ▸ h))
      exact hc.dropOrder_outside he hq hx (hq ▸ hjl)
  case key =>
    intro side' k' l' lv' he' hlv'
    rw [OrderBook.dropOrder_levelMap] at he'
    obtain ⟨lv, hlv, hkey⟩ := hc.live_level he'
    have hlv'' : (s.toHeap.removed l o x).level? l' = some lv' := hlv'
    by_cases hl : l' = l
    · subst hl
      rw [removed_level?_self hlv] at hlv''
      rw [← Option.some.inj hlv'']
      exact hkey
    · rw [removed_level?_ne hl] at hlv''
      exact hc.key he' hlv''
  case resting =>
    intro side' k' l' j y' he' hj hy'
    rw [OrderBook.dropOrder_levelMap] at he'
    obtain ⟨hjq, hjo⟩ := hqueued he' hj
    obtain ⟨y, hy⟩ := (hc.represents he').live j hjq
    obtain ⟨z, hz, hdat⟩ := hdata hjo hy
    rw [hy'] at hz
    cases hz
    obtain ⟨hri, hid⟩ := hc.resting he' hjq hy
    refine ⟨hri.of_data hdat, ?_⟩
    show (s.orderMap.erase x.id).lookup y'.id = some j
    rw [Order.id_of_data hdat, AList.lookup_erase_ne, hid]
    intro hidx
    rw [hidx, hxid] at hid
    exact hjo (Option.some.inj hid).symm
  case mapped =>
    intro id j hid
    have hid' : (s.orderMap.erase x.id).lookup id = some j := hid
    have hne : id ≠ x.id := by
      rintro rfl
      rw [AList.lookup_erase] at hid'
      cases hid'
    rw [AList.lookup_erase_ne hne] at hid'
    obtain ⟨side', k', l', y, he', hjq, hy, rfl⟩ := hc.mapped hid'
    have hjo : j ≠ o := by
      rintro rfl
      rw [hx] at hy
      exact hne (congrArg Order.id (Option.some.inj hy)).symm
    obtain ⟨y', hy', hdat⟩ := hdata hjo hy
    refine ⟨side', k', l', y', by simpa using he', ?_, hy',
      Order.id_of_data hdat⟩
    by_cases hl : l' = l
    · subst hl
      rw [Function.update_self]
      rw [hq] at hjq
      simpa [hjo] using hjq
    · rw [Function.update_of_ne hl]
      exact hjq
  case apart =>
    intro side₁ side₂ k₁ k₂ l' h₁ h₂
    exact hc.apart (by simpa using h₁) (by simpa using h₂)

/-- **AN EMPTY LEVEL LEAVES THE BOOK.** -/
theorem dropLevel (hc : Core s q) {A B : List (Price × LevelPtr)}
    (hs : (s.levelMap side).entries = A ++ (k, l) :: B) (hq : q l = []) :
    Core (s.dropLevel side k l) q := by
  have he : (k, l) ∈ (s.levelMap side).entries := by simp [hs]
  have hback : ∀ {side' e}, e ∈ ((s.dropLevel side k l).levelMap side').entries →
      e ∈ (s.levelMap side').entries ∧ e.2 ≠ l := by
    intro side' e hmem
    rw [OrderBook.dropLevel_levelMap] at hmem
    obtain ⟨hmem', hne⟩ := OrderBook.mem_erase_split hs hmem
    refine ⟨hmem', ?_⟩
    rintro rfl
    obtain ⟨hside, hk⟩ := hc.apart hmem' he
    exact hne hside hk
  have hlevel : ∀ {l'}, l' ≠ l → (s.dropLevel side k l).level? l' = s.level? l' := by
    intro l' hl
    show (s.toHeap.freeLevel l).level? l' = _
    rw [Heap.level?_freeLevel, if_neg hl]
  constructor
  case represents =>
    intro side' k' l' he'
    obtain ⟨hold, hne⟩ := hback he'
    exact (hc.represents hold).frame (hlevel hne) (fun _ _ => rfl)
  case key =>
    intro side' k' l' lv' he' hlv'
    obtain ⟨hold, hne⟩ := hback he'
    rw [hlevel hne] at hlv'
    exact hc.key hold hlv'
  case resting =>
    intro side' k' l' j y he' hj hy
    rw [OrderBook.dropLevel_orderMap]
    exact hc.resting (hback he').1 hj hy
  case mapped =>
    intro id j hid
    rw [OrderBook.dropLevel_orderMap] at hid
    obtain ⟨side', k', l', y, he', hj, hy, rfl⟩ := hc.mapped hid
    refine ⟨side', k', l', y, ?_, hj, hy, rfl⟩
    have hne : l' ≠ l := by
      rintro rfl
      rw [hq] at hj
      cases hj
    rw [OrderBook.dropLevel_levelMap]
    by_cases hside : side' = side
    · subst hside
      rw [OrderBook.levelMap_setLevelMap_self, SMap.erase_split hs]
      rw [hs] at he'
      have hne' : (k', l') ≠ (k, l) := fun h => hne (congrArg Prod.snd h)
      simpa [hne'] using he'
    · rw [OrderBook.levelMap_setLevelMap_ne _ hside]
      exact he'
  case apart =>
    intro side₁ side₂ k₁ k₂ l' h₁ h₂
    exact hc.apart (hback h₁).1 (hback h₂).1

/-- **A LEVEL ENTERS THE BOOK**, with an object whose slot was free. -/
theorem addLevel (hc : Core s q) (hnew : (s.levelMap side).find? k = none)
    {p : ObjectPool PriceLevel}
    (hp : s.levelPool.allocate (PriceLevel.new k) = some (l, p)) :
    Core (s.addLevel side k l p) (Function.update q l []) := by
  obtain ⟨hfree, -, -, hslots⟩ := ObjectPool.allocate_eq_some hp
  obtain ⟨A, B, hAB, hins, -, -⟩ := SMap.insert_split hnew l
  have hlive : ∀ {side' e}, e ∈ (s.levelMap side').entries → e.2 ≠ l := by
    rintro side' ⟨k', l'⟩ hmem rfl
    obtain ⟨lv, hlv, -⟩ := hc.live_level hmem
    have hlv' : s.levelPool.poolStorage l' = some lv := hlv
    rw [hfree] at hlv'
    cases hlv'
  have hback : ∀ {side' e}, e ∈ ((s.addLevel side k l p).levelMap side').entries →
      (side' = side ∧ e = (k, l)) ∨ (e ∈ (s.levelMap side').entries ∧ e.2 ≠ l) := by
    intro side' e hmem
    rw [OrderBook.addLevel_levelMap] at hmem
    by_cases hside : side' = side
    · subst hside
      rw [OrderBook.levelMap_setLevelMap_self] at hmem
      rcases mem_of_mem_insertEntry hmem with h | h
      · exact Or.inl ⟨rfl, h⟩
      · exact Or.inr ⟨h, hlive h⟩
    · rw [OrderBook.levelMap_setLevelMap_ne _ hside] at hmem
      exact Or.inr ⟨hmem, hlive hmem⟩
  have hforth : ∀ {side' e}, e ∈ (s.levelMap side').entries →
      e ∈ ((s.addLevel side k l p).levelMap side').entries := by
    intro side' e hmem
    rw [OrderBook.addLevel_levelMap]
    by_cases hside : side' = side
    · subst hside
      rw [OrderBook.levelMap_setLevelMap_self, hins]
      rw [hAB] at hmem
      rcases List.mem_append.mp hmem with h | h <;> simp [h]
    · rw [OrderBook.levelMap_setLevelMap_ne _ hside]
      exact hmem
  have hlevel : ∀ {l'}, l' ≠ l → (s.addLevel side k l p).level? l' = s.level? l' := by
    intro l' hl
    show p.poolStorage l' = _
    rw [hslots, if_neg hl]
    rfl
  have hself : (s.addLevel side k l p).level? l = some (PriceLevel.new k) := by
    show p.poolStorage l = _
    rw [hslots, if_pos rfl]
  have horder : ∀ {o}, (s.addLevel side k l p).order? o = s.order? o := by
    intro o
    show (s.setLevelMap side _).orderPool.poolStorage o = _
    cases side <;> rfl
  constructor
  case represents =>
    intro side' k' l' he'
    rcases hback he' with ⟨-, h⟩ | ⟨hold, hne⟩
    · cases h
      rw [Function.update_self]
      exact ⟨⟨_, hself, rfl, rfl, rfl⟩, List.nodup_nil, by simp, trivial⟩
    · have hne' : l' ≠ l := hne
      rw [Function.update_of_ne hne']
      exact (hc.represents hold).frame (hlevel hne') (fun _ _ => horder)
  case key =>
    intro side' k' l' lv' he' hlv'
    rcases hback he' with ⟨-, h⟩ | ⟨hold, hne⟩
    · cases h
      rw [hself] at hlv'
      rw [← Option.some.inj hlv']
      rfl
    · have hne' : l' ≠ l := hne
      rw [hlevel hne'] at hlv'
      exact hc.key hold hlv'
  case resting =>
    intro side' k' l' j y he' hj hy
    rcases hback he' with ⟨-, h⟩ | ⟨hold, hne⟩
    · cases h
      rw [Function.update_self] at hj
      cases hj
    · have hne' : l' ≠ l := hne
      rw [Function.update_of_ne hne'] at hj
      rw [horder] at hy
      rw [OrderBook.addLevel_orderMap]
      exact hc.resting hold hj hy
  case mapped =>
    intro id j hid
    rw [OrderBook.addLevel_orderMap] at hid
    obtain ⟨side', k', l', y, he', hj, hy, rfl⟩ := hc.mapped hid
    have hne' : l' ≠ l := hlive he'
    refine ⟨side', k', l', y, hforth he', ?_, by rw [horder]; exact hy, rfl⟩
    rw [Function.update_of_ne hne']
    exact hj
  case apart =>
    intro side₁ side₂ k₁ k₂ l' h₁ h₂
    rcases hback h₁ with ⟨rfl, e₁⟩ | ⟨hold₁, hne₁⟩ <;>
      rcases hback h₂ with ⟨rfl, e₂⟩ | ⟨hold₂, hne₂⟩
    · exact ⟨rfl, (congrArg Prod.fst e₁).trans (congrArg Prod.fst e₂).symm⟩
    · exact absurd (congrArg Prod.snd e₁) hne₂
    · exact absurd (congrArg Prod.snd e₂) hne₁
    · exact hc.apart hold₁ hold₂

/-- **AN ORDER ENTERS THE BOOK**, behind the queue of its level. -/
theorem enqueue (hc : Core s q) (he : (k, l) ∈ (s.levelMap side).entries)
    (hx : s.order? o = some x) (hprice : x.price = k) (hside : x.side = side)
    (hlimit : x.type = .limit) (hid : s.orderMap.lookup x.id = none)
    (hout : ∀ {side' k' l'}, (k', l') ∈ (s.levelMap side').entries → o ∉ q l') :
    Core (s.enqueue l o x (q l).getLast?) (Function.update q l (q l ++ [o])) := by
  have hr := hc.represents he
  have hnew : o ∉ q l := hout he
  have hself : (s.enqueue l o x (q l).getLast?).order? o
      = some { x with priceLevelPtr := some l, prev := (q l).getLast?, next := none } :=
    appended_order?_self hx (fun h => hnew (List.mem_of_getLast? h))
  have hother : ∀ {j}, j ≠ o → (s.enqueue l o x (q l).getLast?).order? j
      = (s.order? j).map (fun y =>
          { y with next := if (q l).getLast? = some j then some o else y.next }) :=
    fun hj => appended_order?_ne hj
  have hqueued : ∀ {side' k' l' j}, (k', l') ∈ (s.levelMap side').entries →
      j ∈ Function.update q l (q l ++ [o]) l' → (j ∈ q l' ∧ j ≠ o) ∨ (j = o ∧ l' = l) := by
    intro side' k' l' j he' hj
    by_cases hl : l' = l
    · subst hl
      rw [Function.update_self] at hj
      rcases List.mem_append.mp hj with h | h
      · exact Or.inl ⟨h, fun h' => hnew (h' ▸ h)⟩
      · exact Or.inr ⟨List.mem_singleton.mp h, rfl⟩
    · rw [Function.update_of_ne hl] at hj
      exact Or.inl ⟨hj, fun h' => hout he' (h' ▸ hj)⟩
  constructor
  case represents =>
    intro side' k' l' he'
    rw [OrderBook.enqueue_levelMap] at he'
    by_cases hl : l' = l
    · subst hl
      rw [Function.update_self]
      exact hr.appended hnew hx x.remainingQty
    · rw [Function.update_of_ne hl]
      have hlv : (s.enqueue l o x (q l).getLast?).level? l' = s.level? l' :=
        appended_level?_ne hl
      refine (hc.represents he').frame hlv ?_
      intro j hj
      have hjo : j ≠ o := fun h => hout he' (h ▸ hj)
      have hlast : (q l).getLast? ≠ some j := fun h =>
        hl (hc.queue_unique he' he hj (List.mem_of_getLast? h))
      obtain ⟨y, hy⟩ := (hc.represents he').live j hj
      show (s.enqueue l o x (q l).getLast?).order? j = s.order? j
      rw [hother hjo, hy]
      simp [hlast]
  case key =>
    intro side' k' l' lv' he' hlv'
    rw [OrderBook.enqueue_levelMap] at he'
    obtain ⟨lv, hlv, hkey⟩ := hc.live_level he'
    have hlv'' : (s.toHeap.appended l o (q l).getLast? x.remainingQty).level? l'
        = some lv' := hlv'
    by_cases hl : l' = l
    · subst hl
      rw [appended_level?_self hlv] at hlv''
      rw [← Option.some.inj hlv'']
      exact hkey
    · rw [appended_level?_ne hl] at hlv''
      exact hc.key he' hlv''
  case resting =>
    intro side' k' l' j y' he' hj hy'
    rw [OrderBook.enqueue_levelMap] at he'
    show RestsIn side' k' l' y' ∧ (s.orderMap.insert x.id o).lookup y'.id = some j
    rcases hqueued he' hj with ⟨hjq, hjo⟩ | ⟨rfl, rfl⟩
    · obtain ⟨y, hy⟩ := (hc.represents he').live j hjq
      rw [hother hjo, hy] at hy'
      obtain ⟨hri, hyid⟩ := hc.resting he' hjq hy
      have hdat : y'.data = y.data := by
        rw [← Option.some.inj hy']
        rfl
      refine ⟨hri.of_data hdat, ?_⟩
      rw [Order.id_of_data hdat, AList.lookup_insert_ne, hyid]
      intro h
      rw [h, hid] at hyid
      cases hyid
    · rw [hself] at hy'
      rw [← Option.some.inj hy']
      obtain ⟨rfl, rfl⟩ := hc.apart he he'
      exact ⟨⟨rfl, hprice, hside, hlimit⟩, AList.lookup_insert _⟩
  case mapped =>
    intro id j hlook
    have hlook' : (s.orderMap.insert x.id o).lookup id = some j := hlook
    by_cases hne : id = x.id
    · subst hne
      rw [AList.lookup_insert] at hlook'
      obtain rfl := Option.some.inj hlook'
      exact ⟨side, k, l, _, by simpa using he, by simp, hself, rfl⟩
    · rw [AList.lookup_insert_ne hne] at hlook'
      obtain ⟨side', k', l', y, he', hj, hy, rfl⟩ := hc.mapped hlook'
      have hjo : j ≠ o := fun h => hout he' (h ▸ hj)
      obtain ⟨y', hy', hyid⟩ : ∃ y',
          (s.enqueue l o x (q l).getLast?).order? j = some y' ∧ y'.id = y.id := by
        rw [hother hjo, hy]
        exact ⟨_, rfl, rfl⟩
      refine ⟨side', k', l', y', by simpa using he', ?_, hy', hyid⟩
      by_cases hl : l' = l
      · subst hl
        rw [Function.update_self]
        exact List.mem_append_left _ hj
      · rw [Function.update_of_ne hl]
        exact hj
  case apart =>
    intro side₁ side₂ k₁ k₂ l' h₁ h₂
    exact hc.apart (by simpa using h₁) (by simpa using h₂)

end Core

end Lob
