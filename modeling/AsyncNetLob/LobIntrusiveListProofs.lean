import AsyncNetLob.LobHeap
import AsyncNetLob.LinkedSegmentProofs

/-! # The intrusive list of a price level

    `Represents h level L`: in the heap `h` the level's header and the links
    of the orders form the doubly linked list `L`.  `PriceLevel::append` and
    `PriceLevel::remove` are run once and for all (`append_run`,
    `remove_run`): each leaves a heap in closed form, and everything later is
    read off the closed forms slot by slot.

    * `append` makes the level represent `L ++ [order]`;
    * `remove`, at any position, makes it represent `L` without the order;
    * a level whose header and orders are untouched still represents its list
      (`Represents.frame`).

    `intrusive_list` states both operations with all that they leave alone
    (`Framed`). -/

namespace Lob

open StateExcept LinkedSegment

/-- Everything of an order but its links. -/
def Order.data (x : Order) : Order := { x with prev := none, next := none }

/-- The level's header and the links of the orders form the list `L`. -/
structure Represents (h : Heap) (level : LevelPtr) (L : List OrderPtr) :
    Prop where
  header : ∃ lv, h.level? level = some lv ∧ lv.head = L.head?
    ∧ lv.tail = L.getLast? ∧ lv.orderCount = L.length
  nodup  : L.Nodup
  live   : ∀ o ∈ L, ∃ x, h.order? o = some x
  linked : Seg h.next h.prev none L none

/-! ## The closed forms -/

/-- The heap `append` leaves. -/
def Heap.appended (h : Heap) (level : LevelPtr) (order : OrderPtr)
    (tail : Option OrderPtr) (volume : Quantity) : Heap :=
  let h := h.modifyOrder order fun o =>
    { o with priceLevelPtr := some level, prev := tail, next := none }
  let h := match tail with
    | some tail => h.modifyOrder tail fun o => { o with next := some order }
    | none => h.modifyLevel level fun l => { l with head := some order }
  h.modifyLevel level fun l =>
    { l with tail := some order, totalVolume := l.totalVolume + volume,
             orderCount := l.orderCount + 1 }

/-- The heap `remove` leaves, where `x` is the removed order. -/
def Heap.removed (h : Heap) (level : LevelPtr) (order : OrderPtr) (x : Order) :
    Heap :=
  let h := match x.prev with
    | some prev => h.modifyOrder prev fun o => { o with next := x.next }
    | none => h.modifyLevel level fun l => { l with head := x.next }
  let h := match x.next with
    | some next => h.modifyOrder next fun o => { o with prev := x.prev }
    | none => h.modifyLevel level fun l => { l with tail := x.prev }
  let h := h.modifyLevel level fun l =>
    { l with totalVolume := clampedVolume l.totalVolume x.remainingQty,
             orderCount := if l.orderCount > 0 then l.orderCount - 1 else l.orderCount }
  h.modifyOrder order fun o =>
    { o with next := none, prev := none, priceLevelPtr := none }

section Runs

variable {h : Heap} {level : LevelPtr} {order : OrderPtr} {lv : PriceLevel}
  {x : Order}

/-- `append` returns, in the closed form. -/
theorem append_run (hlv : h.level? level = some lv)
    (hx : h.order? order = some x)
    (htail : ∀ t, lv.tail = some t → t ≠ order ∧ ∃ y, h.order? t = some y) :
    PriceLevel.append level order h
      = .ok () (h.appended level order lv.tail x.remainingQty) := by
  cases ht : lv.tail with
  | none =>
      simp [PriceLevel.append, bind, EStateM.bind, updateOrder, readLevel,
        updateLevel, readOrder, hx, hlv, ht, Heap.appended]
  | some t =>
      obtain ⟨hne, y, hy⟩ := htail t ht
      simp [PriceLevel.append, bind, EStateM.bind, updateOrder, readLevel,
        updateLevel, readOrder, hx, hlv, ht, hne, hy, hne.symm, Heap.appended]

/-- `remove` returns, in the closed form: one case for each of the first, the
    last, a middle and the only node. -/
theorem remove_run (hlv : h.level? level = some lv)
    (hx : h.order? order = some x)
    (hprev : ∀ p, x.prev = some p → p ≠ order ∧ ∃ y, h.order? p = some y)
    (hnext : ∀ n, x.next = some n → n ≠ order ∧ ∃ y, h.order? n = some y) :
    PriceLevel.remove level (some order) h
      = .ok () (h.removed level order x) := by
  cases hp : x.prev with
  | none =>
      cases hn : x.next with
      | none =>
          simp [PriceLevel.remove, bind, EStateM.bind, updateOrder,
            updateLevel, readOrder, hx, hlv, hp, hn, Heap.removed]
      | some n =>
          obtain ⟨hne, y, hy⟩ := hnext n hn
          simp [PriceLevel.remove, bind, EStateM.bind, updateOrder,
            updateLevel, readOrder, hx, hlv, hp, hn, hy, hne.symm, Heap.removed]
  | some p =>
      obtain ⟨hpe, y, hy⟩ := hprev p hp
      cases hn : x.next with
      | none =>
          simp [PriceLevel.remove, bind, EStateM.bind, updateOrder,
            updateLevel, readOrder, hx, hlv, hp, hn, hy, hpe.symm, Heap.removed]
      | some n =>
          obtain ⟨hne, z, hz⟩ := hnext n hn
          obtain ⟨w, hw⟩ : ∃ w, (if n = p then (h.order? n).map
              (fun o => { o with next := some n }) else h.order? n) = some w := by
            split <;> simp [hz]
          simp [PriceLevel.remove, bind, EStateM.bind, updateOrder,
            updateLevel, readOrder, hx, hlv, hp, hn, hpe.symm, hy, hw, hne.symm,
            Heap.removed]

end Runs

/-! ## The closed forms, slot by slot -/

section Slots

variable (h : Heap) (level : LevelPtr) (order : OrderPtr)
  (tail : Option OrderPtr) (volume : Quantity) (x : Order)

@[simp] theorem appended_orderFree :
    (h.appended level order tail volume).orderPool.freeList
      = h.orderPool.freeList := by
  cases tail <;> rfl

@[simp] theorem appended_levelFree :
    (h.appended level order tail volume).levelPool.freeList
      = h.levelPool.freeList := by
  cases tail <;> rfl

@[simp] theorem removed_orderFree :
    (h.removed level order x).orderPool.freeList = h.orderPool.freeList := by
  unfold Heap.removed
  cases x.prev <;> cases x.next <;> rfl

@[simp] theorem removed_levelFree :
    (h.removed level order x).levelPool.freeList = h.levelPool.freeList := by
  unfold Heap.removed
  cases x.prev <;> cases x.next <;> rfl

@[simp] theorem removed_orderCapacity :
    (h.removed level order x).orderPool.capacity = h.orderPool.capacity := by
  unfold Heap.removed
  cases x.prev <;> cases x.next <;> rfl

@[simp] theorem removed_levelCapacity :
    (h.removed level order x).levelPool.capacity = h.levelPool.capacity := by
  unfold Heap.removed
  cases x.prev <;> cases x.next <;> rfl

variable {h level order tail volume x} {j : Nat}

theorem appended_level?_ne (hj : j ≠ level) :
    (h.appended level order tail volume).level? j = h.level? j := by
  cases tail <;> simp [Heap.appended, hj]

theorem appended_level?_self {lv : PriceLevel} (hlv : h.level? level = some lv) :
    (h.appended level order tail volume).level? level
      = some { lv with head := if tail = none then some order else lv.head,
                       tail := some order, totalVolume := lv.totalVolume + volume,
                       orderCount := lv.orderCount + 1 } := by
  cases tail <;> simp [Heap.appended, hlv]

theorem appended_order?_self (hx : h.order? order = some x)
    (ht : tail ≠ some order) :
    (h.appended level order tail volume).order? order
      = some { x with priceLevelPtr := some level, prev := tail, next := none } := by
  cases tail with
  | none => simp [Heap.appended, hx]
  | some t =>
      have hne : order ≠ t := fun he => ht (congrArg some he.symm)
      simp [Heap.appended, hx, hne]

theorem appended_order?_ne (hj : j ≠ order) :
    (h.appended level order tail volume).order? j
      = (h.order? j).map
          (fun o => { o with next := if tail = some j then some order else o.next }) := by
  cases tail with
  | none => simp [Heap.appended, hj]
  | some t =>
      by_cases hjt : j = t
      · subst hjt; simp [Heap.appended, hj]
      · have hne : ¬ t = j := fun he => hjt he.symm
        simp [Heap.appended, hj, hjt, hne]

theorem removed_level?_ne (hj : j ≠ level) :
    (h.removed level order x).level? j = h.level? j := by
  unfold Heap.removed
  cases x.prev <;> cases x.next <;> simp [hj]

theorem removed_level?_self {lv : PriceLevel} (hlv : h.level? level = some lv) :
    (h.removed level order x).level? level
      = some { lv with head := if x.prev = none then x.next else lv.head,
                       tail := if x.next = none then x.prev else lv.tail,
                       totalVolume := clampedVolume lv.totalVolume x.remainingQty,
                       orderCount := lv.orderCount - 1 } := by
  have hcount : (if lv.orderCount > 0 then lv.orderCount - 1 else lv.orderCount)
      = lv.orderCount - 1 := by
    split <;> omega
  unfold Heap.removed
  cases hp : x.prev <;> cases hn : x.next <;> simp [hlv, hcount]

theorem removed_order?_self (hx : h.order? order = some x)
    (hp : x.prev ≠ some order) (hn : x.next ≠ some order) :
    (h.removed level order x).order? order
      = some { x with next := none, prev := none, priceLevelPtr := none } := by
  unfold Heap.removed
  cases hp' : x.prev with
  | none =>
      cases hn' : x.next with
      | none => simp [hx]
      | some n =>
          have hne : order ≠ n := fun he => hn (hn'.trans (congrArg some he.symm))
          simp [hx, hne]
  | some p =>
      have hpe : order ≠ p := fun he => hp (hp'.trans (congrArg some he.symm))
      cases hn' : x.next with
      | none => simp [hx, hpe]
      | some n =>
          have hne : order ≠ n := fun he => hn (hn'.trans (congrArg some he.symm))
          simp [hx, hpe, hne]

theorem removed_order?_ne (hj : j ≠ order) :
    (h.removed level order x).order? j
      = (h.order? j).map
          (fun o => { o with next := if x.prev = some j then x.next else o.next,
                             prev := if x.next = some j then x.prev else o.prev }) := by
  unfold Heap.removed
  cases hp : x.prev with
  | none =>
      cases hn : x.next with
      | none => simp [hj]
      | some n =>
          by_cases hjn : j = n
          · subst hjn; simp [hj]
          · have hne : ¬ n = j := fun he => hjn he.symm
            simp [hj, hjn, hne]
  | some p =>
      by_cases hjp : j = p
      · subst hjp
        cases hn : x.next with
        | none => simp [hj]
        | some n =>
            by_cases hjn : j = n
            · subst hjn; simp [hj]
            · have hne : ¬ n = j := fun he => hjn he.symm
              simp [hj, hjn, hne]
      · have hpe : ¬ p = j := fun he => hjp he.symm
        cases hn : x.next with
        | none => simp [hj, hjp, hpe]
        | some n =>
            by_cases hjn : j = n
            · subst hjn; simp [hj, hjp, hpe]
            · have hne : ¬ n = j := fun he => hjn he.symm
              simp [hj, hjp, hpe, hjn, hne]

end Slots

/-! ## What the closed forms represent -/

namespace Represents

variable {h h' : Heap} {level : LevelPtr} {order : OrderPtr}
  {L A B : List OrderPtr} {x : Order}

/-- The links of a node of the list are its neighbours. -/
theorem links (hr : Represents h level (A ++ order :: B))
    (hx : h.order? order = some x) : x.prev = A.getLast? ∧ x.next = B.head? := by
  obtain ⟨h1, h2⟩ := hr.linked.links
  simpa [Heap.prev, Heap.next, hx] using And.intro h1 h2

/-- A neighbour of a node is a live node of the list, and another one. -/
theorem neighbour (hr : Represents h level (A ++ order :: B)) {y : OrderPtr}
    (hy : A.getLast? = some y ∨ B.head? = some y) :
    y ≠ order ∧ ∃ z, h.order? y = some z := by
  have hmem : y ∈ A ∨ y ∈ B := hy.imp List.mem_of_getLast? List.mem_of_head?
  constructor
  · rintro rfl
    exact (List.nodup_middle.mp hr.nodup).notMem (List.mem_append.mpr hmem)
  · refine hr.live y (List.mem_append.mpr (hmem.imp_right ?_))
    exact List.mem_cons_of_mem _

/-- `append` returns for every node outside the list. -/
theorem append_ok (hr : Represents h level L) (hnew : order ∉ L) (hx : h.order? order = some x) :
    PriceLevel.append level order h
      = .ok () (h.appended level order L.getLast? x.remainingQty) := by
  obtain ⟨lv, hlv, -, htail, -⟩ := hr.header
  rw [← htail]
  refine append_run hlv hx ?_
  intro t ht
  have hmem : t ∈ L := List.mem_of_getLast? (htail ▸ ht)
  exact ⟨fun he => hnew (he ▸ hmem), hr.live t hmem⟩

/-- `remove` returns on every node of the list. -/
theorem remove_ok (hr : Represents h level (A ++ order :: B))
    (hx : h.order? order = some x) :
    PriceLevel.remove level (some order) h = .ok () (h.removed level order x) := by
  obtain ⟨lv, hlv, -⟩ := hr.header
  obtain ⟨hp, hn⟩ := hr.links hx
  exact remove_run hlv hx (fun p hp' => hr.neighbour (Or.inl (hp ▸ hp')))
    (fun n hn' => hr.neighbour (Or.inr (hn ▸ hn')))

/-- The removed order has lost its links and its level. -/
theorem removed_self (hr : Represents h level (A ++ order :: B))
    (hx : h.order? order = some x) : (h.removed level order x).order? order
      = some { x with next := none, prev := none, priceLevelPtr := none } := by
  obtain ⟨hp, hn⟩ := hr.links hx
  refine removed_order?_self hx ?_ ?_
  · intro h
    exact (hr.neighbour (Or.inl (hp ▸ h))).1 rfl
  · intro h
    exact (hr.neighbour (Or.inr (hn ▸ h))).1 rfl

/-- An order outside the list keeps everything when one of the list is
    removed. -/
theorem removed_outside (hr : Represents h level (A ++ order :: B))
    (hx : h.order? order = some x) {j : OrderPtr} (hj : j ∉ A ++ order :: B) :
    (h.removed level order x).order? j = h.order? j := by
  obtain ⟨hp, hn⟩ := hr.links hx
  have hjo : j ≠ order := fun he => hj (by simp [he])
  have hpj : A.getLast? ≠ some j := fun he => hj (by simp [List.mem_of_getLast? he])
  have hnj : B.head? ≠ some j := fun he => hj (by simp [List.mem_of_head? he])
  rw [removed_order?_ne hjo, hp, hn]
  simp [hpj, hnj]

/-- **FRAME**: a level whose header and orders are untouched represents the
    same list. -/
theorem frame (hr : Represents h level L) (hlv : h'.level? level = h.level? level)
    (ho : ∀ o ∈ L, h'.order? o = h.order? o) : Represents h' level L where
  header := by rw [hlv]; exact hr.header
  nodup := hr.nodup
  live := fun o hm => by rw [ho o hm]; exact hr.live o hm
  linked := hr.linked.congr
    (fun o hm => by rw [Heap.next, Heap.next, ho o hm])
    (fun o hm => by rw [Heap.prev, Heap.prev, ho o hm])

/-- Assignments that keep links, heads, tails and counts keep the list. -/
theorem modifyOrder (hr : Represents h level L) {f : Order → Order}
    (hn : ∀ y, (f y).next = y.next) (hp : ∀ y, (f y).prev = y.prev) :
    Represents (h.modifyOrder order f) level L where
  header := hr.header
  nodup := hr.nodup
  live := fun o hm => by
    obtain ⟨y, hy⟩ := hr.live o hm
    by_cases he : o = order <;> simp [hy, he]
    · subst he; exact ⟨y, hy⟩
  linked := hr.linked.congr
    (fun o _ => by
      by_cases he : o = order
      · subst he
        cases hy : h.order? o <;> simp [Heap.next, hy, hn]
      · simp [Heap.next, he])
    (fun o _ => by
      by_cases he : o = order
      · subst he
        cases hy : h.order? o <;> simp [Heap.prev, hy, hp]
      · simp [Heap.prev, he])

theorem modifyLevel (hr : Represents h level L) {l : LevelPtr}
    {f : PriceLevel → PriceLevel} (hh : ∀ y, (f y).head = y.head)
    (ht : ∀ y, (f y).tail = y.tail)
    (hc : ∀ y, (f y).orderCount = y.orderCount) :
    Represents (h.modifyLevel l f) level L where
  header := by
    obtain ⟨lv, hlv, h1, h2, h3⟩ := hr.header
    by_cases he : level = l
    · subst he
      exact ⟨f lv, by simp [hlv], by rw [hh, h1], by rw [ht, h2], by rw [hc, h3]⟩
    · exact ⟨lv, by simp [hlv, he], h1, h2, h3⟩
  nodup := hr.nodup
  live := hr.live
  linked := hr.linked

/-- **APPEND**: the order becomes the last node, whatever its links were. -/
theorem appended (hr : Represents h level L) (hnew : order ∉ L)
    (hx : h.order? order = some x) (volume : Quantity) :
    Represents (h.appended level order L.getLast? volume) level (L ++ [order]) := by
  have hself : L.getLast? ≠ some order := fun he => hnew (List.mem_of_getLast? he)
  have hother : ∀ y ∈ L, y ≠ order := fun y hy he => hnew (he ▸ hy)
  constructor
  case header =>
    obtain ⟨lv, hlv, hhead, -, hcount⟩ := hr.header
    refine ⟨_, appended_level?_self hlv, ?_, ?_, ?_⟩
    · show (if L.getLast? = none then some order else lv.head) = _
      rw [hhead]
      cases L <;> simp
    · simp
    · simp [hcount]
  case nodup => exact List.nodup_append.mpr ⟨hr.nodup, by simp, by simpa using hother⟩
  case live =>
    intro o ho
    by_cases he : o = order
    · subst he; exact ⟨_, appended_order?_self hx hself⟩
    · obtain ⟨y, hy⟩ := hr.live o (by simpa [he] using ho)
      exact ⟨_, by rw [appended_order?_ne he, hy]; rfl⟩
  case linked =>
    refine hr.linked.snoc hr.nodup ?_ ?_ ?_ ?_ ?_
    · intro y hy
      have hyL := List.mem_of_getLast? hy
      obtain ⟨z, hz⟩ := hr.live y hyL
      simp [Heap.next, appended_order?_ne (hother y hyL), hz, hy]
    · intro y hyL hy
      obtain ⟨z, hz⟩ := hr.live y hyL
      simp [Heap.next, appended_order?_ne (hother y hyL), hz, hy]
    · intro y hyL
      obtain ⟨z, hz⟩ := hr.live y hyL
      simp [Heap.prev, appended_order?_ne (hother y hyL), hz]
    · simp [Heap.next, appended_order?_self hx hself]
    · simp [Heap.prev, appended_order?_self hx hself]

/-- **REMOVE**: at any position, the list loses exactly the order. -/
theorem removed (hr : Represents h level (A ++ order :: B))
    (hx : h.order? order = some x) :
    Represents (h.removed level order x) level (A ++ B) := by
  obtain ⟨hp, hn⟩ := hr.links hx
  have hnd : (A ++ B).Nodup := (List.nodup_cons.mp (List.nodup_middle.mp hr.nodup)).2
  have hnot : order ∉ A ++ B := (List.nodup_cons.mp (List.nodup_middle.mp hr.nodup)).1
  have hother : ∀ y ∈ A ++ B, y ≠ order := fun y hy he => hnot (he ▸ hy)
  have hlive : ∀ y ∈ A ++ B, ∃ z, h.order? y = some z := by
    intro y hy
    refine hr.live y ?_
    rcases List.mem_append.mp hy with hy | hy <;> simp [hy]
  refine ⟨?_, hnd, ?_, ?_⟩
  · obtain ⟨lv, hlv, hhead, htail, hcount⟩ := hr.header
    refine ⟨_, removed_level?_self hlv, ?_, ?_, ?_⟩
    · show (if x.prev = none then x.next else lv.head) = _
      rw [hp, hn, hhead]
      cases A <;> simp
    · show (if x.next = none then x.prev else lv.tail) = _
      rw [hp, hn, htail]
      cases B with
      | nil => simp
      | cons b B => simp [List.getLast?_append]
    · show lv.orderCount - 1 = _
      rw [hcount]
      simp only [List.length_append, List.length_cons]
      omega
  · intro o ho
    obtain ⟨y, hy⟩ := hlive o ho
    exact ⟨_, by rw [removed_order?_ne (hother o ho), hy]; rfl⟩
  · have hnx : h.next order = x.next := by simp [Heap.next, hx]
    have hpv : h.prev order = x.prev := by simp [Heap.prev, hx]
    refine hr.linked.erase hr.nodup ?_ ?_ ?_ ?_
    · intro y hy hlast
      have hm := List.mem_append_left B hy
      obtain ⟨z, hz⟩ := hlive y hm
      rw [hnx]
      simp [Heap.next, removed_order?_ne (hother y hm), hz, hp, hlast]
    · intro y hm hlast
      obtain ⟨z, hz⟩ := hlive y hm
      simp [Heap.next, removed_order?_ne (hother y hm), hz, hp, hlast]
    · intro y hy hhead
      have hm := List.mem_append_right A hy
      obtain ⟨z, hz⟩ := hlive y hm
      rw [hpv]
      simp [Heap.prev, removed_order?_ne (hother y hm), hz, hn, hhead]
    · intro y hm hhead
      obtain ⟨z, hz⟩ := hlive y hm
      simp [Heap.prev, removed_order?_ne (hother y hm), hz, hn, hhead]

end Represents

/-! ## The frame -/

/-- What an operation of `level` on `order` leaves alone, where `L` are the nodes the
    level had. -/
structure Framed (h h' : Heap) (level : LevelPtr) (L : List OrderPtr) (order : OrderPtr) :
    Prop where
  /-- Every field of a node outside. -/
  outside : ∀ j, j ∉ L → j ≠ order → h'.order? j = h.order? j
  /-- Every field but the links of another node of the list. -/
  inside : ∀ j ∈ L, j ≠ order → (h'.order? j).map Order.data = (h.order? j).map Order.data
  headers : ∀ l, l ≠ level → h'.level? l = h.level? l
  /-- What a level without any of these nodes represents. -/
  disjoint : ∀ l K, l ≠ level → (∀ j ∈ K, j ∉ L ∧ j ≠ order) →
    Represents h l K → Represents h' l K

/-- Disjoint levels see untouched slots only. -/
theorem Framed.of_slots {h h' : Heap} {level : LevelPtr} {L : List OrderPtr} {order : OrderPtr}
    (houtside : ∀ j, j ∉ L → j ≠ order → h'.order? j = h.order? j)
    (hinside : ∀ j ∈ L, j ≠ order → (h'.order? j).map Order.data = (h.order? j).map Order.data)
    (hheaders : ∀ l, l ≠ level → h'.level? l = h.level? l) : Framed h h' level L order where
  outside := houtside
  inside := hinside
  headers := hheaders
  disjoint l K hl hK hr := by
    refine hr.frame (hheaders l hl) ?_
    intro j hj
    exact houtside j (hK j hj).1 (hK j hj).2

namespace Represents

variable {h : Heap} {level : LevelPtr} {order : OrderPtr} {L A B : List OrderPtr} {x : Order}

theorem appended_framed (volume : Quantity) :
    Framed h (h.appended level order L.getLast? volume) level L order := by
  refine Framed.of_slots ?_ ?_ ?_
  · intro j hj hne
    have hlast : L.getLast? ≠ some j := fun he => hj (List.mem_of_getLast? he)
    rw [appended_order?_ne hne]
    simp [hlast]
  · intro j _ hne
    rw [appended_order?_ne hne, Option.map_map]
    rfl
  · intro l hl
    exact appended_level?_ne hl

theorem removed_framed (hr : Represents h level (A ++ order :: B))
    (hx : h.order? order = some x) :
    Framed h (h.removed level order x) level (A ++ order :: B) order := by
  refine Framed.of_slots ?_ ?_ ?_
  · intro j hj _
    exact hr.removed_outside hx hj
  · intro j _ hne
    rw [removed_order?_ne hne, Option.map_map]
    rfl
  · intro l hl
    exact removed_level?_ne hl

end Represents

/-- **THE INTRUSIVE LIST**: `append` is list append and `remove` is list deletion, at
    every position, each with its frame. -/
theorem intrusive_list {h : Heap} {level : LevelPtr} {L : List OrderPtr}
    (hr : Represents h level L) :
    (∀ (order : OrderPtr) (x : Order), order ∉ L → h.order? order = some x →
      ∃ h', PriceLevel.append level order h = .ok () h'
        ∧ Represents h' level (L ++ [order])
        ∧ h'.order? order = some
            { x with priceLevelPtr := some level, prev := L.getLast?, next := none }
        ∧ Framed h h' level L order)
    ∧ ∀ (A B : List OrderPtr) (order : OrderPtr), L = A ++ order :: B →
      ∃ x h', h.order? order = some x
        ∧ PriceLevel.remove level (some order) h = .ok () h'
        ∧ Represents h' level (A ++ B)
        ∧ h'.order? order = some { x with next := none, prev := none, priceLevelPtr := none }
        ∧ Framed h h' level L order := by
  constructor
  · intro order x hnew hx
    have hself : L.getLast? ≠ some order := fun he => hnew (List.mem_of_getLast? he)
    exact ⟨_, hr.append_ok hnew hx, hr.appended hnew hx _, appended_order?_self hx hself,
      Represents.appended_framed _⟩
  · rintro A B order rfl
    obtain ⟨x, hx⟩ := hr.live order (by simp)
    exact ⟨x, _, hx, hr.remove_ok hx, hr.removed hx, hr.removed_self hx, hr.removed_framed hx⟩

/-- A level with one order, and a second order whose links are stale. -/
def staleHeap : Heap where
  orderPool := ((ObjectPool.new Order 2).take
      { Order.new 1 100 5 .sell .limit 0 with priceLevelPtr := some 0 } rfl).take
      { Order.new 2 100 7 .sell .limit 0 with prev := some 0, next := some 1 } rfl
  levelPool := (ObjectPool.new PriceLevel 1).take
    { PriceLevel.new 100 with totalVolume := 5, orderCount := 1, head := some 1, tail := some 1 } rfl

theorem intrusive_list_stale :
    (∃ h', PriceLevel.append 0 0 staleHeap = .ok () h' ∧ Represents h' 0 [1, 0])
      ∧ ∃ h', PriceLevel.remove 0 (some 1) staleHeap = .ok () h' ∧ Represents h' 0 [] := by
  have hr : Represents staleHeap 0 [1] := by
    refine ⟨⟨_, rfl, rfl, rfl, rfl⟩, by decide, ?_, rfl, rfl, trivial⟩
    intro o ho
    rw [List.mem_singleton] at ho
    exact ⟨_, by rw [ho]; rfl⟩
  obtain ⟨happend, hremove⟩ := intrusive_list hr
  obtain ⟨h1, hrun1, hrep1, -⟩ := happend 0 _ (by decide) rfl
  obtain ⟨_, h2, -, hrun2, hrep2, -⟩ := hremove [] [] 1 rfl
  exact ⟨⟨h1, hrun1, hrep1⟩, h2, hrun2, hrep2⟩

end Lob
