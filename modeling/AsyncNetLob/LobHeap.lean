import AsyncNetLob.LobTypes
import AsyncNetLob.LobObjectPool
import AsyncNetLob.StateExceptProofs

/-! # The heap of orders and price levels

    The two pools of an order book are the memory its pointers point into.
    A `HeapM` program reads and writes fields through pointers, allocates and
    deallocates.  Every access checks that the slot holds an object, so a use
    after free or a double free is not silent: it ends the program with a
    `Fault` that is not the exception of `ObjectPool::allocate`.

    `PriceLevel::append` and `PriceLevel::remove` are here, statement by
    statement. -/

namespace Lob

open StateExcept

/-- How a program can fail to return: the exception of an empty pool, or one
    of the ways to leave the defined behaviour of the language. -/
inductive Fault where
  | poolExhausted
  | useAfterFree
  | doubleFree
  | badIterator
  | diverged
  deriving DecidableEq, Repr

structure Heap where
  orderPool : ObjectPool Order
  levelPool : ObjectPool PriceLevel

abbrev HeapM := EStateM Fault Heap

namespace Heap

/-- The order in a slot. -/
def order? (h : Heap) (o : OrderPtr) : Option Order := h.orderPool.poolStorage o

/-- The level in a slot. -/
def level? (h : Heap) (l : LevelPtr) : Option PriceLevel :=
  h.levelPool.poolStorage l

/-- `order->next` and `order->prev`, as link functions. -/
def next (h : Heap) (o : OrderPtr) : Option OrderPtr := (h.order? o).bind Order.next
def prev (h : Heap) (o : OrderPtr) : Option OrderPtr := (h.order? o).bind Order.prev

def modifyOrder (h : Heap) (o : OrderPtr) (f : Order → Order) : Heap :=
  { h with orderPool := h.orderPool.modify o f }

def modifyLevel (h : Heap) (l : LevelPtr) (f : PriceLevel → PriceLevel) : Heap :=
  { h with levelPool := h.levelPool.modify l f }

/-- The heap after an order, or a level, was deallocated. -/
def freeOrder (h : Heap) (o : OrderPtr) : Heap :=
  { h with orderPool := h.orderPool.release o }
def freeLevel (h : Heap) (l : LevelPtr) : Heap :=
  { h with levelPool := h.levelPool.release l }

section Access

variable (h : Heap) (o : OrderPtr) (l : LevelPtr) (f : Order → Order)
  (g : PriceLevel → PriceLevel)

@[simp] theorem order?_modifyOrder (j : OrderPtr) : (h.modifyOrder o f).order? j
    = if j = o then (h.order? j).map f else h.order? j := rfl

@[simp] theorem order?_modifyLevel (j : OrderPtr) :
    (h.modifyLevel l g).order? j = h.order? j := rfl

@[simp] theorem level?_modifyOrder (j : LevelPtr) :
    (h.modifyOrder o f).level? j = h.level? j := rfl

@[simp] theorem level?_modifyLevel (j : LevelPtr) : (h.modifyLevel l g).level? j
    = if j = l then (h.level? j).map g else h.level? j := rfl

@[simp] theorem order?_freeOrder (j : OrderPtr) : (h.freeOrder o).order? j
    = if j = o then none else h.order? j :=
  ObjectPool.release_poolStorage h.orderPool o j

@[simp] theorem level?_freeOrder (j : LevelPtr) :
    (h.freeOrder o).level? j = h.level? j := rfl

@[simp] theorem order?_freeLevel (j : OrderPtr) :
    (h.freeLevel l).order? j = h.order? j := rfl

@[simp] theorem level?_freeLevel (j : LevelPtr) : (h.freeLevel l).level? j
    = if j = l then none else h.level? j :=
  ObjectPool.release_poolStorage h.levelPool l j

/-- Two assignments through one pointer are one. -/
@[simp] theorem modifyOrder_modifyOrder (f' : Order → Order) :
    (h.modifyOrder o f).modifyOrder o f' = h.modifyOrder o (fun x => f' (f x)) := by
  simp only [modifyOrder, ObjectPool.modify_modify]

@[simp] theorem modifyLevel_modifyLevel (g' : PriceLevel → PriceLevel) :
    (h.modifyLevel l g).modifyLevel l g' = h.modifyLevel l (fun x => g' (g x)) := by
  simp only [modifyLevel, ObjectPool.modify_modify]

@[simp] theorem modifyOrder_levelPool :
    (h.modifyOrder o f).levelPool = h.levelPool := rfl

@[simp] theorem modifyLevel_orderPool :
    (h.modifyLevel l g).orderPool = h.orderPool := rfl

@[simp] theorem modifyOrder_freeList :
    (h.modifyOrder o f).orderPool.freeList = h.orderPool.freeList := rfl

@[simp] theorem modifyLevel_freeList :
    (h.modifyLevel l g).levelPool.freeList = h.levelPool.freeList := rfl

@[simp] theorem modifyOrder_capacity :
    (h.modifyOrder o f).orderPool.capacity = h.orderPool.capacity := rfl

@[simp] theorem modifyLevel_capacity :
    (h.modifyLevel l g).levelPool.capacity = h.levelPool.capacity := rfl

end Access

end Heap

/-! ## Field accesses and pool calls -/

/-- Read through an `Order*`. -/
def readOrder (o : OrderPtr) : HeapM Order := fun h =>
  match h.order? o with
  | some x => .ok x h
  | none => .error .useAfterFree h

/-- Assign fields through an `Order*`. -/
def updateOrder (o : OrderPtr) (f : Order → Order) : HeapM Unit := fun h =>
  match h.order? o with
  | some _ => .ok () (h.modifyOrder o f)
  | none => .error .useAfterFree h

/-- Read through a `PriceLevel*`. -/
def readLevel (l : LevelPtr) : HeapM PriceLevel := fun h =>
  match h.level? l with
  | some x => .ok x h
  | none => .error .useAfterFree h

/-- Assign fields through a `PriceLevel*`. -/
def updateLevel (l : LevelPtr) (f : PriceLevel → PriceLevel) : HeapM Unit :=
  fun h =>
    match h.level? l with
    | some _ => .ok () (h.modifyLevel l f)
    | none => .error .useAfterFree h

/-- `orderPool_.allocate(...)`. -/
def allocateOrder (x : Order) : HeapM OrderPtr := fun h =>
  match h.orderPool.allocate x with
  | some (o, p) => .ok o { h with orderPool := p }
  | none => .error .poolExhausted h

/-- `levelPool_.allocate(price)`. -/
def allocateLevel (x : PriceLevel) : HeapM LevelPtr := fun h =>
  match h.levelPool.allocate x with
  | some (l, p) => .ok l { h with levelPool := p }
  | none => .error .poolExhausted h

/-- `orderPool_.deallocate(order)`. -/
def deallocateOrder (o : Option OrderPtr) : HeapM Unit := fun h =>
  match h.orderPool.deallocate o with
  | some p => .ok () { h with orderPool := p }
  | none => .error .doubleFree h

/-- `levelPool_.deallocate(level)`. -/
def deallocateLevel (l : Option LevelPtr) : HeapM Unit := fun h =>
  match h.levelPool.deallocate l with
  | some p => .ok () { h with levelPool := p }
  | none => .error .doubleFree h

section Rules

variable {h : Heap} {o : OrderPtr} {l : LevelPtr}

theorem readOrder_ok {x : Order} (hx : h.order? o = some x) :
    readOrder o h = .ok x h := by
  rw [readOrder, hx]

theorem readLevel_ok {x : PriceLevel} (hx : h.level? l = some x) :
    readLevel l h = .ok x h := by
  rw [readLevel, hx]

theorem deallocateOrder_ok {x : Order} (hx : h.order? o = some x) :
    deallocateOrder (some o) h = .ok () (h.freeOrder o) := by
  rw [deallocateOrder, ObjectPool.deallocate_eq_release hx]
  rfl

theorem deallocateLevel_ok {x : PriceLevel} (hx : h.level? l = some x) :
    deallocateLevel (some l) h = .ok () (h.freeLevel l) := by
  rw [deallocateLevel, ObjectPool.deallocate_eq_release hx]
  rfl

end Rules

/-! ## `PriceLevel::append` and `PriceLevel::remove` -/

/-- `PriceLevel::append`: push to the tail. -/
def PriceLevel.append (this : LevelPtr) (order : OrderPtr) : HeapM Unit := do
  updateOrder order fun o => { o with priceLevelPtr := some this }
  updateOrder order fun o => { o with next := none }
  let tail := (← readLevel this).tail
  updateOrder order fun o => { o with prev := tail }
  match tail with
  | some tail => updateOrder tail fun o => { o with next := some order }
  | none => updateLevel this fun l => { l with head := some order }
  updateLevel this fun l => { l with tail := some order }
  let remainingQty := (← readOrder order).remainingQty
  updateLevel this fun l => { l with totalVolume := l.totalVolume + remainingQty }
  updateLevel this fun l => { l with orderCount := l.orderCount + 1 }

/-- What `remove` subtracts: the order's remainder, clamped to the volume. -/
def clampedVolume (totalVolume remainingQty : Quantity) : Quantity :=
  totalVolume -
    (if totalVolume ≥ remainingQty then remainingQty else totalVolume)

/-- `PriceLevel::remove`: unlink from any position. -/
def PriceLevel.remove (this : LevelPtr) (order : Option OrderPtr) :
    HeapM Unit := do
  match order with
  | none => return
  | some order => do
      let prev := (← readOrder order).prev
      let next := (← readOrder order).next
      match prev with
      | some prev => updateOrder prev fun o => { o with next := next }
      | none => updateLevel this fun l => { l with head := next }
      let prev := (← readOrder order).prev
      let next := (← readOrder order).next
      match next with
      | some next => updateOrder next fun o => { o with prev := prev }
      | none => updateLevel this fun l => { l with tail := prev }
      let remainingQty := (← readOrder order).remainingQty
      updateLevel this fun l =>
        { l with totalVolume := clampedVolume l.totalVolume remainingQty }
      updateLevel this fun l =>
        { l with orderCount := if l.orderCount > 0 then l.orderCount - 1 else l.orderCount }
      updateOrder order fun o => { o with next := none }
      updateOrder order fun o => { o with prev := none }
      updateOrder order fun o => { o with priceLevelPtr := none }

end Lob
