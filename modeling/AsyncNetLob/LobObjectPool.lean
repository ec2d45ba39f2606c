import Mathlib.Data.List.Basic
import Mathlib.Data.List.Nodup
import Mathlib.Data.List.Perm.Basic
import Mathlib.Data.Finset.Card
import Mathlib.Data.Finset.Range

/-! # `ObjectPool`

    A pool is its slots and the stack of free ones.  A slot holds `some` object
    from its allocation to its deallocation, and nothing otherwise: reading,
    writing or deallocating a slot without an object is undefined behaviour
    in the source, and here the operation has no result.

    The pool carries its own well-formedness: the free list has no duplicates
    and holds exactly the slots without an object. -/

namespace Lob

structure ObjectPool (T : Type) where
  capacity     : Nat
  poolStorage  : Nat → Option T
  /-- The back of the `freeList_` vector comes first. -/
  freeList     : List Nat
  free_nodup   : freeList.Nodup
  mem_free     : ∀ i, i ∈ freeList ↔ i < capacity ∧ poolStorage i = none
  live_lt      : ∀ i, poolStorage i ≠ none → i < capacity

namespace ObjectPool

variable {T : Type}

/-- Pools with the same slots and the same free list are equal. -/
theorem ext' {p p' : ObjectPool T} (h1 : p.capacity = p'.capacity)
    (h2 : p.poolStorage = p'.poolStorage) (h3 : p.freeList = p'.freeList) :
    p = p' := by
  cases p; cases p'; cases h1; cases h2; cases h3; rfl

/-- The slots pushed by the constructor, the last one on top. -/
def initialFree : Nat → List Nat
  | 0 => []
  | n + 1 => n :: initialFree n

theorem mem_initialFree {n i : Nat} : i ∈ initialFree n ↔ i < n := by
  induction n with
  | zero => simp [initialFree]
  | succ n ih => rw [initialFree, List.mem_cons, ih]; omega

theorem initialFree_nodup (n : Nat) : (initialFree n).Nodup := by
  induction n with
  | zero => exact List.nodup_nil
  | succ n ih =>
      refine List.nodup_cons.mpr ⟨?_, ih⟩
      rw [mem_initialFree]
      exact Nat.lt_irrefl n

@[simp] theorem initialFree_length (n : Nat) : (initialFree n).length = n := by
  induction n with
  | zero => rfl
  | succ n ih => rw [initialFree, List.length_cons, ih]

/-- `ObjectPool::ObjectPool`, for a capacity. -/
def new (T : Type) (capacity : Nat) : ObjectPool T where
  capacity := capacity
  poolStorage := fun _ => none
  freeList := initialFree capacity
  free_nodup := initialFree_nodup capacity
  mem_free := fun i => by simp [mem_initialFree]
  live_lt := fun i h => absurd rfl h

/-- `ObjectPool::available`. -/
def available (p : ObjectPool T) : Nat := p.freeList.length

/-- Replace the object of a slot, if it has one. -/
def modify (p : ObjectPool T) (i : Nat) (f : T → T) : ObjectPool T where
  capacity := p.capacity
  poolStorage := fun j => if j = i then (p.poolStorage j).map f else p.poolStorage j
  freeList := p.freeList
  free_nodup := p.free_nodup
  mem_free := fun j => by
    rw [p.mem_free]
    by_cases h : j = i <;> simp [h]
  live_lt := fun j hj => p.live_lt j (by
    by_cases h : j = i
    · simpa [h] using hj
    · simpa [h] using hj)

/-- Construct an object in a slot popped off the free list. -/
def take (p : ObjectPool T) (x : T) {i : Nat} {rest : List Nat}
    (h : p.freeList = i :: rest) : ObjectPool T where
  capacity := p.capacity
  poolStorage := fun j => if j = i then some x else p.poolStorage j
  freeList := rest
  free_nodup := (List.nodup_cons.mp (h ▸ p.free_nodup)).2
  mem_free := fun j => by
    have hi : i ∉ rest := (List.nodup_cons.mp (h ▸ p.free_nodup)).1
    have hj := p.mem_free j
    rw [h, List.mem_cons] at hj
    by_cases he : j = i
    · subst he; simp [hi]
    · simpa [he] using hj
  live_lt := fun j hj => by
    by_cases he : j = i
    · have := (p.mem_free i).mp (h ▸ List.mem_cons_self)
      omega
    · exact p.live_lt j (by simpa [he] using hj)

/-- `ObjectPool::allocate`: the slot on top of the free list, or the
    "capacity exhausted" exception. -/
def allocate (p : ObjectPool T) (x : T) : Option (Nat × ObjectPool T) :=
  match h : p.freeList with
  | [] => none
  | i :: _ => some (i, p.take x h)

/-- Destroy the object of a slot and push the slot on the free list. -/
def give (p : ObjectPool T) (i : Nat) (h : p.poolStorage i ≠ none) :
    ObjectPool T where
  capacity := p.capacity
  poolStorage := fun j => if j = i then none else p.poolStorage j
  freeList := i :: p.freeList
  free_nodup := List.nodup_cons.mpr
    ⟨fun hi => h ((p.mem_free i).mp hi).2, p.free_nodup⟩
  mem_free := fun j => by
    rw [List.mem_cons, p.mem_free]
    by_cases he : j = i
    · simp [he, p.live_lt i h]
    · simp [he]
  live_lt := fun j hj => p.live_lt j (by
    by_cases he : j = i
    · simp [he] at hj
    · simpa [he] using hj)

/-- `ObjectPool::deallocate`: nothing for a null pointer, no result for a
    slot that holds no object. -/
def deallocate (p : ObjectPool T) (ptr : Option Nat) : Option (ObjectPool T) :=
  match ptr with
  | none => some p
  | some i =>
      if h : p.poolStorage i = none then none else some (p.give i h)

@[simp] theorem modify_poolStorage (p : ObjectPool T) (i : Nat) (f : T → T)
    (j : Nat) : (p.modify i f).poolStorage j
      = if j = i then (p.poolStorage j).map f else p.poolStorage j := rfl

@[simp] theorem modify_freeList (p : ObjectPool T) (i : Nat) (f : T → T) :
    (p.modify i f).freeList = p.freeList := rfl

@[simp] theorem modify_capacity (p : ObjectPool T) (i : Nat) (f : T → T) :
    (p.modify i f).capacity = p.capacity := rfl

/-- Two modifications of one slot are one. -/
theorem modify_modify (p : ObjectPool T) (i : Nat) (f g : T → T) :
    (p.modify i f).modify i g = p.modify i (fun x => g (f x)) := by
  refine ext' rfl ?_ rfl
  funext j
  simp only [modify_poolStorage]
  by_cases h : j = i
  · simp only [if_pos h, Option.map_map]
    rfl
  · simp only [if_neg h]

/-- An allocation fails exactly on an empty free list. -/
theorem allocate_eq_none {p : ObjectPool T} {x : T} :
    p.allocate x = none ↔ p.freeList = [] := by
  unfold allocate
  split
  · rename_i h; simp [h]
  · rename_i h; simp [h]

/-- **ALLOCATION**: the slot was free, now holds the object, and no other
    slot changes. -/
theorem allocate_eq_some {p p' : ObjectPool T} {x : T} {i : Nat}
    (h : p.allocate x = some (i, p')) :
    p.poolStorage i = none ∧ p.freeList = i :: p'.freeList
      ∧ p'.capacity = p.capacity
      ∧ ∀ j, p'.poolStorage j = if j = i then some x else p.poolStorage j := by
  unfold allocate at h
  split at h
  · cases h
  · rename_i i' rest hfree
    cases h
    have hi : i ∈ p.freeList := hfree ▸ List.mem_cons_self
    exact ⟨((p.mem_free i).mp hi).2, hfree, rfl, fun _ => rfl⟩

/-- **DEALLOCATION** of a slot with an object: the slot is on top of the free
    list and no other slot changes. -/
theorem deallocate_live {p : ObjectPool T} {i : Nat} {x : T}
    (h : p.poolStorage i = some x) :
    ∃ p', p.deallocate (some i) = some p' ∧ p'.freeList = i :: p.freeList
      ∧ p'.capacity = p.capacity
      ∧ ∀ j, p'.poolStorage j = if j = i then none else p.poolStorage j := by
  have hne : p.poolStorage i ≠ none := by rw [h]; exact Option.some_ne_none x
  exact ⟨p.give i hne, by simp [deallocate, h], rfl, rfl, fun _ => rfl⟩

/-- The pool after a deallocation. -/
def release (p : ObjectPool T) (i : Nat) : ObjectPool T :=
  (p.deallocate (some i)).getD p

@[simp] theorem release_poolStorage (p : ObjectPool T) (i j : Nat) :
    (p.release i).poolStorage j = if j = i then none else p.poolStorage j := by
  cases h : p.poolStorage i with
  | none =>
      have hrel : p.release i = p := by simp [release, deallocate, h]
      rw [hrel]
      by_cases hj : j = i
      · rw [if_pos hj, hj, h]
      · rw [if_neg hj]
  | some x =>
      obtain ⟨p', hp', -, -, hs⟩ := deallocate_live h
      rw [release, hp', Option.getD_some, hs]

theorem release_capacity (p : ObjectPool T) (i : Nat) :
    (p.release i).capacity = p.capacity := by
  cases h : p.poolStorage i with
  | none => simp [release, deallocate, h]
  | some x =>
      obtain ⟨p', hp', -, hc, -⟩ := deallocate_live h
      rw [release, hp', Option.getD_some, hc]

theorem deallocate_eq_release {p : ObjectPool T} {i : Nat} {x : T}
    (h : p.poolStorage i = some x) :
    p.deallocate (some i) = some (p.release i) := by
  obtain ⟨p', hp', -⟩ := deallocate_live h
  rw [release, hp', Option.getD_some]

theorem release_freeList {p : ObjectPool T} {i : Nat} {x : T}
    (h : p.poolStorage i = some x) :
    (p.release i).freeList = i :: p.freeList := by
  obtain ⟨p', hp', hf, -⟩ := deallocate_live h
  rw [release, hp', Option.getD_some, hf]

/-- Distinct slots with objects are at most as many as the capacity. -/
theorem length_le_capacity (p : ObjectPool T) {L : List Nat} (hnd : L.Nodup)
    (hlive : ∀ i ∈ L, p.poolStorage i ≠ none) : L.length ≤ p.capacity := by
  have hsub : L.toFinset ⊆ Finset.range p.capacity := by
    intro i hi
    exact Finset.mem_range.mpr (p.live_lt i (hlive i (List.mem_toFinset.mp hi)))
  have hcard := Finset.card_le_card hsub
  rwa [List.toFinset_card_of_nodup hnd, Finset.card_range] at hcard

end ObjectPool

end Lob
