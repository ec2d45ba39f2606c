import AsyncNetLob.LobLockFreeQueue
import AsyncNetLob.WrappingCounterProofs

/-! # The queue is a bounded FIFO

    Each side decides on a copy of the other side's counter that may be old.  `Inv`
    relates the counters, which wrap, to the histories, which do not: `tail_` has
    counted the accepted items and `head_` the popped ones, and a copy has counted
    what there was when it was loaded.  An old copy of `head_` shows fewer free
    slots than there are, an old copy of `tail_` fewer items, so both sides err on
    the safe side.

    Item number `i` lives in slot `i % capacity` from its write to its pop; the
    items held and the one being written are at most `capacity` consecutive
    numbers, so their slots differ. -/

namespace Lob

open Transition WrappingCounter

variable {T : Type}

/-- The consumer has moved the first item out and not yet stored `head_`. -/
def Consumer.hasTaken : Consumer T → Bool
  | .taken _ _ => true
  | _ => false

/-- What is popped and not yet returned. -/
def Consumer.owes : Consumer T → List T
  | .returning result => result.toList
  | _ => []

namespace LockFreeSPSCQueue

variable {capacity : UInt64} {moved : T → T} {s s' : LockFreeSPSCQueue T}

/-- What the producer knows: `tail_` is its own, and its copy of `head_` shows an
    earlier number of popped items. -/
def ProducerKnows (capacity : UInt64) (s : LockFreeSPSCQueue T) : Producer T → Prop
  | .idle => True
  | .called _ => True
  | .tailLoaded _ currentTail => currentTail = UInt64.ofNat s.accepted.length
  | .headLoaded _ currentTail currentHead => currentTail = UInt64.ofNat s.accepted.length
      ∧ ∃ seen, currentHead = UInt64.ofNat seen ∧ seen ≤ s.popped.length
        ∧ s.accepted.length ≤ seen + capacity.toNat
        ∧ s.heldAtHeadLoad = s.accepted.length - seen
  | .written item currentTail => currentTail = UInt64.ofNat s.accepted.length
      ∧ s.accepted.length < s.popped.length + capacity.toNat
      ∧ s.buffer[s.accepted.length % capacity.toNat]? = some item
  | .returning _ result => result = false → s.heldAtHeadLoad = capacity.toNat

/-- What the consumer knows: `head_` is its own, and its copy of `tail_` shows an
    earlier number of accepted items. -/
def ConsumerKnows (s : LockFreeSPSCQueue T) : Consumer T → Prop
  | .idle => True
  | .called => True
  | .headLoaded currentHead => currentHead = UInt64.ofNat s.popped.length
  | .tailLoaded currentHead currentTail => currentHead = UInt64.ofNat s.popped.length
      ∧ ∃ seen, currentTail = UInt64.ofNat seen ∧ s.popped.length ≤ seen
        ∧ seen ≤ s.accepted.length ∧ s.heldAtTailLoad = seen - s.popped.length
  | .taken item currentHead => currentHead = UInt64.ofNat s.popped.length
      ∧ s.accepted[s.popped.length]? = some item
  | .returning result => result = none → s.heldAtTailLoad = 0

structure Inv (capacity : UInt64) (s : LockFreeSPSCQueue T) : Prop where
  buffer   : s.buffer.length = capacity.toNat
  tail     : s.tail = UInt64.ofNat s.accepted.length
  head     : s.head = UInt64.ofNat s.popped.length
  inOrder  : s.popped <+: s.accepted
  bounded  : s.accepted.length ≤ s.popped.length + capacity.toNat
  stored   : ∀ i, s.popped.length ≤ i → i < s.accepted.length →
    (i = s.popped.length → s.consumer.hasTaken = false) →
    s.buffer[i % capacity.toNat]? = s.accepted[i]?
  returned : s.popped = s.returned ++ s.consumer.owes
  producer : ProducerKnows capacity s s.producer
  consumer : ConsumerKnows s s.consumer

theorem Inv.new [Inhabited T] (capacity : UInt64) :
    Inv capacity (LockFreeSPSCQueue.new capacity : LockFreeSPSCQueue T) where
  buffer := List.length_replicate
  tail := rfl
  head := rfl
  inOrder := List.nil_prefix
  bounded := Nat.zero_le _
  stored := fun i _ hlt => absurd hlt (Nat.not_lt_zero i)
  returned := rfl
  producer := trivial
  consumer := trivial

theorem index_ofNat (hcap : Admitted capacity) (hpos : capacity ≠ 0) (n : Nat) :
    index capacity (UInt64.ofNat n) = n % capacity.toNat :=
  toNat_mask hcap hpos n

theorem Inv.le (h : Inv capacity s) : s.popped.length ≤ s.accepted.length := h.inOrder.length_le

/-- Fewer than 2^64 items are held. -/
theorem lt_of_le_add {a b : Nat} (h : a ≤ b + capacity.toNat) : a - b < 18446744073709551616 := by
  have hcap : capacity.toNat < 18446744073709551616 := capacity.toNat_lt
  omega

/-- The test for a full queue, on an old copy of `head_`. -/
theorem full_iff {n seen : Nat} (hle : seen ≤ n) (hbound : n ≤ seen + capacity.toNat) :
    UInt64.ofNat n - UInt64.ofNat seen ≥ capacity ↔ n - seen = capacity.toNat := by
  rw [ge_iff_le, UInt64.le_iff_toNat_le, toNat_sub_ofNat hle (lt_of_le_add hbound)]
  omega

/-- A queue without slots is always full. -/
theorem capacity_ne_zero {n seen : Nat} (hroom : ¬ UInt64.ofNat n - UInt64.ofNat seen ≥ capacity) :
    capacity ≠ 0 := by
  rintro rfl
  exact hroom (UInt64.le_iff_toNat_le.mpr (Nat.zero_le _))

theorem slots_pos (hpos : capacity ≠ 0) : 0 < capacity.toNat :=
  Nat.pos_of_ne_zero fun hzero => hpos (UInt64.toNat_inj.mp hzero)

/-- A queue that holds an item has slots. -/
theorem Inv.has_slots (h : Inv capacity s) (hheld : s.popped.length < s.accepted.length) :
    capacity ≠ 0 := by
  rintro rfl
  have hbound : s.accepted.length ≤ s.popped.length + 0 := h.bounded
  omega

/-! ## The producer -/

theorem Inv.emplace (h : Inv capacity s) (item : T) :
    Inv capacity { s with producer := .called item } :=
  { h with producer := trivial }

/-- The slot of the next item is not the slot of an item held. -/
theorem slot_ne {n p i : Nat} (hi : p ≤ i) (hin : i < n) (hroom : n < p + capacity.toNat) :
    n % capacity.toNat ≠ i % capacity.toNat := by
  intro hslot
  have hsame := mod_inj (Nat.le_of_lt hin) (by omega) hslot.symm
  omega

/-- When the test finds room on an old copy of `head_`, there is room. -/
theorem Inv.room (hcap : Admitted capacity) (h : Inv capacity s) {item : T}
    {currentTail currentHead : UInt64}
    (hpc : s.producer = .headLoaded item currentTail currentHead)
    (hroom : ¬ currentTail - currentHead ≥ capacity) :
    currentTail = UInt64.ofNat s.accepted.length
      ∧ index capacity currentTail = s.accepted.length % capacity.toNat
      ∧ s.accepted.length % capacity.toNat < s.buffer.length
      ∧ s.accepted.length < s.popped.length + capacity.toNat := by
  have hknows := h.producer
  rw [hpc] at hknows
  obtain ⟨rfl, seen, rfl, hseen, hbound, -⟩ := hknows
  have hpos := capacity_ne_zero hroom
  refine ⟨rfl, index_ofNat hcap hpos _, ?_, ?_⟩
  · rw [h.buffer]
    exact Nat.mod_lt _ (slots_pos hpos)
  · rw [full_iff (Nat.le_trans hseen h.le) hbound] at hroom
    omega

theorem Inv.write (hcap : Admitted capacity) (h : Inv capacity s) {item : T}
    {currentTail currentHead : UInt64}
    (hpc : s.producer = .headLoaded item currentTail currentHead)
    (hroom : ¬ currentTail - currentHead ≥ capacity) :
    index capacity currentTail < s.buffer.length
      ∧ Inv capacity { s with buffer := s.buffer.set (index capacity currentTail) item
                              producer := .written item currentTail } := by
  obtain ⟨htail, hindex, hslot, hless⟩ := h.room hcap hpc hroom
  rw [hindex]
  refine ⟨hslot, { h with buffer := ?_, stored := ?_, producer := ?_ }⟩
  · exact List.length_set.trans h.buffer
  · intro i hi hin htaken
    show (s.buffer.set _ item)[_]? = _
    rw [List.getElem?_set_ne (slot_ne hi hin hless)]
    exact h.stored i hi hin htaken
  · refine ⟨htail, hless, ?_⟩
    show (s.buffer.set _ item)[_]? = _
    rw [List.getElem?_set_self hslot]

/-- Storing `tail_` accepts the item. -/
theorem Inv.storeTail (h : Inv capacity s) {item : T} {currentTail : UInt64}
    (hpc : s.producer = .written item currentTail) :
    Inv capacity { s with tail := currentTail + 1, producer := .returning item true
                          accepted := s.accepted ++ [item] } := by
  have hknows := h.producer
  rw [hpc] at hknows
  obtain ⟨rfl, hroom, hitem⟩ := hknows
  have hlen : (s.accepted ++ [item]).length = s.accepted.length + 1 := List.length_append
  refine { h with tail := ?_, inOrder := ?_, bounded := ?_, stored := ?_, producer := ?_,
                  consumer := ?_ }
  · show _ = UInt64.ofNat (s.accepted ++ [item]).length
    rw [hlen, ofNat_succ]
  · exact h.inOrder.trans (List.prefix_append _ _)
  · show (s.accepted ++ [item]).length ≤ _
    rw [hlen]
    exact hroom
  · intro i hi hin htaken
    have hin' : i < (s.accepted ++ [item]).length := hin
    rw [hlen] at hin'
    show s.buffer[_]? = (s.accepted ++ [item])[i]?
    -- the new item is in the slot that was written, the others stay where they are
    by_cases hlast : i = s.accepted.length
    · rw [hlast, hitem, List.getElem?_concat_length]
    · rw [List.getElem?_append_left (by omega)]
      exact h.stored i hi (by omega) htaken
  · exact fun hfalse => by cases hfalse
  · -- what the consumer has loaded holds of a longer queue too
    have hconsumer := h.consumer
    cases hc : s.consumer with
    | idle => trivial
    | called => trivial
    | headLoaded currentHead =>
        rw [hc] at hconsumer
        exact hconsumer
    | tailLoaded currentHead currentTail =>
        rw [hc] at hconsumer
        obtain ⟨hhead, seen, htail, hle, hseen, hheld⟩ := hconsumer
        have hlater : seen ≤ (s.accepted ++ [item]).length := by
          rw [hlen]
          exact Nat.le_succ_of_le hseen
        exact ⟨hhead, seen, htail, hle, hlater, hheld⟩
    | taken taken currentHead =>
        rw [hc] at hconsumer
        refine ⟨hconsumer.1, ?_⟩
        show (s.accepted ++ [item])[_]? = _
        rw [List.getElem?_append_left (List.getElem?_eq_some_iff.mp hconsumer.2).1]
        exact hconsumer.2
    | returning result =>
        rw [hc] at hconsumer
        exact hconsumer

/-- **PRODUCER STEP**: it is defined and keeps the invariant. -/
theorem Inv.emplaceStep (hcap : Admitted capacity) (h : Inv capacity s)
    (hbusy : s.producer ≠ .idle) :
    ∃ s', s.emplaceStep capacity = some s' ∧ Inv capacity s' := by
  rw [LockFreeSPSCQueue.emplaceStep]
  cases hpc : s.producer with
  | idle => exact absurd hpc hbusy
  | called item => exact ⟨_, rfl, { h with producer := h.tail }⟩
  | tailLoaded item currentTail =>
      have hknows := h.producer
      rw [hpc] at hknows
      refine ⟨_, rfl, { h with producer := ⟨hknows, _, h.head, Nat.le_refl _, h.bounded, rfl⟩ }⟩
  | headLoaded item currentTail currentHead =>
      dsimp only
      by_cases hfull : currentTail - currentHead ≥ capacity
      · rw [if_pos hfull]
        -- the queue was full when `head_` was loaded
        refine ⟨_, rfl, { h with producer := fun _ => ?_ }⟩
        have hknows := h.producer
        rw [hpc] at hknows
        obtain ⟨rfl, seen, rfl, hseen, hbound, hheld⟩ := hknows
        exact hheld.trans ((full_iff (Nat.le_trans hseen h.le) hbound).mp hfull)
      · obtain ⟨hindex, hinv⟩ := h.write hcap hpc hfull
        rw [if_neg hfull, if_pos hindex]
        exact ⟨_, rfl, hinv⟩
  | written item currentTail => exact ⟨_, rfl, h.storeTail hpc⟩
  | returning item result => exact ⟨_, rfl, { h with producer := trivial }⟩

/-! ## The consumer -/

/-- While nothing is moved out, all items held are in their slots. -/
theorem Inv.stored_all (h : Inv capacity s) (hpc : s.consumer.hasTaken = false) :
    ∀ i, s.popped.length ≤ i → i < s.accepted.length →
      s.buffer[i % capacity.toNat]? = s.accepted[i]? := by
  intro i hi hin
  exact h.stored i hi hin fun _ => hpc

/-- The consumer reads only if an item is held, and finds the first one. -/
theorem Inv.first (hcap : Admitted capacity) (h : Inv capacity s) {currentHead currentTail : UInt64}
    (hpc : s.consumer = .tailLoaded currentHead currentTail) (hne : currentHead ≠ currentTail) :
    s.popped.length < s.accepted.length ∧ capacity ≠ 0
      ∧ currentHead = UInt64.ofNat s.popped.length
      ∧ index capacity currentHead = s.popped.length % capacity.toNat
      ∧ s.buffer[index capacity currentHead]? = s.accepted[s.popped.length]? := by
  have hknows := h.consumer
  rw [hpc] at hknows
  obtain ⟨rfl, seen, rfl, hle, hseen, -⟩ := hknows
  have hless : s.popped.length < s.accepted.length := by
    refine Nat.lt_of_lt_of_le (Nat.lt_of_le_of_ne hle fun heq => hne ?_) hseen
    rw [heq]
  have hpos := h.has_slots hless
  refine ⟨hless, hpos, rfl, index_ofNat hcap hpos _, ?_⟩
  rw [index_ofNat hcap hpos]
  exact h.stored_all (by rw [hpc]; rfl) _ (Nat.le_refl _) hless

/-- Moving the first item out spoils its slot and no other. -/
theorem Inv.take (hcap : Admitted capacity) (h : Inv capacity s) {currentHead currentTail : UInt64}
    (hpc : s.consumer = .tailLoaded currentHead currentTail) (hne : currentHead ≠ currentTail)
    (moved : T → T) :
    ∃ item, s.buffer[index capacity currentHead]? = some item
      ∧ Inv capacity { s with buffer := s.buffer.set (index capacity currentHead) (moved item)
                              consumer := .taken item currentHead } := by
  obtain ⟨hless, hpos, hhead, hindex, hfirst⟩ := h.first hcap hpc hne
  have hitem := hfirst.trans (List.getElem?_eq_getElem hless)
  refine ⟨_, hitem, ?_⟩
  -- items less than a capacity apart have different slots
  have hkept : ∀ i, s.popped.length < i → i < s.popped.length + capacity.toNat →
      (s.buffer.set (index capacity currentHead) (moved (s.accepted[s.popped.length])))[
        i % capacity.toNat]? = s.buffer[i % capacity.toNat]? := by
    intro i hlt hbound
    rw [hindex, List.getElem?_set_ne]
    exact (slot_ne (Nat.le_refl _) hlt hbound).symm
  refine { h with buffer := ?_, stored := ?_, returned := ?_, producer := ?_, consumer := ?_ }
  · exact List.length_set.trans h.buffer
  · intro i hi hin htaken
    have hfirst : i ≠ s.popped.length := fun heq => by cases htaken heq
    have hlt : s.popped.length < i := Nat.lt_of_le_of_ne hi hfirst.symm
    exact (hkept i hlt (Nat.lt_of_lt_of_le hin h.bounded)).trans
      (h.stored i hi hin fun heq => absurd heq hfirst)
  · have hreturned := h.returned
    rw [hpc] at hreturned
    exact hreturned
  · -- an item that the producer has written but not stored is in another slot
    have hproducer := h.producer
    cases hp : s.producer with
    | idle => trivial
    | called item => trivial
    | tailLoaded item currentTail =>
        rw [hp] at hproducer
        exact hproducer
    | headLoaded item currentTail currentHead =>
        rw [hp] at hproducer
        exact hproducer
    | written item currentTail =>
        rw [hp] at hproducer
        obtain ⟨htail, hroom, hbuffer⟩ := hproducer
        exact ⟨htail, hroom, (hkept _ hless hroom).trans hbuffer⟩
    | returning item result =>
        rw [hp] at hproducer
        exact hproducer
  · exact ⟨hhead, List.getElem?_eq_getElem hless⟩

theorem prefix_concat {xs ys : List T} {y : T} (h : xs <+: ys) (hy : ys[xs.length]? = some y) :
    xs ++ [y] <+: ys := by
  obtain ⟨rest, rfl⟩ := h
  rw [List.getElem?_append_right (Nat.le_refl _), Nat.sub_self] at hy
  cases rest with
  | nil => cases hy
  | cons z rest =>
      obtain rfl : z = y := Option.some.inj hy
      exact ⟨rest, List.append_assoc _ _ _⟩

/-- Storing `head_` pops the item. -/
theorem Inv.storeHead (h : Inv capacity s) {item : T} {currentHead : UInt64}
    (hpc : s.consumer = .taken item currentHead) :
    Inv capacity { s with head := currentHead + 1, consumer := .returning (some item)
                          popped := s.popped ++ [item] } := by
  have hknows := h.consumer
  rw [hpc] at hknows
  obtain ⟨rfl, hitem⟩ := hknows
  have hlen : (s.popped ++ [item]).length = s.popped.length + 1 := List.length_append
  refine { h with head := ?_, inOrder := prefix_concat h.inOrder hitem, bounded := ?_, stored := ?_
                  returned := ?_, producer := ?_, consumer := ?_ }
  · show _ = UInt64.ofNat (s.popped ++ [item]).length
    rw [hlen, ofNat_succ]
  · show _ ≤ (s.popped ++ [item]).length + _
    rw [hlen, Nat.succ_add]
    exact Nat.le_succ_of_le h.bounded
  · intro i hi hin _
    have hi' : (s.popped ++ [item]).length ≤ i := hi
    rw [hlen] at hi'
    exact h.stored i (by omega) hin fun heq => by omega
  · have hreturned := h.returned
    rw [hpc] at hreturned
    show s.popped ++ [item] = s.returned ++ [item]
    rw [hreturned]
    exact congrArg (· ++ [item]) (List.append_nil _)
  · -- a `head_` loaded before is behind by one more, and a free slot stays free
    have hproducer := h.producer
    cases hp : s.producer with
    | idle => trivial
    | called item => trivial
    | tailLoaded item currentTail =>
        rw [hp] at hproducer
        exact hproducer
    | headLoaded item' currentTail currentHead =>
        rw [hp] at hproducer
        obtain ⟨htail, seen, hhead, hseen, hbound, hheld⟩ := hproducer
        exact ⟨htail, seen, hhead, Nat.le_trans hseen (by rw [hlen]; exact Nat.le_succ _), hbound,
          hheld⟩
    | written item' currentTail =>
        rw [hp] at hproducer
        obtain ⟨htail, hroom, hbuffer⟩ := hproducer
        refine ⟨htail, ?_, hbuffer⟩
        show _ < (s.popped ++ [item]).length + _
        rw [hlen, Nat.succ_add]
        exact Nat.lt_succ_of_lt hroom
    | returning item' result =>
        rw [hp] at hproducer
        exact hproducer
  · exact fun hnone => by cases hnone

/-- **CONSUMER STEP**: it is defined and keeps the invariant. -/
theorem Inv.popStep (hcap : Admitted capacity) (h : Inv capacity s) (hbusy : s.consumer ≠ .idle) :
    ∃ s', s.popStep capacity moved = some s' ∧ Inv capacity s' := by
  rw [LockFreeSPSCQueue.popStep]
  have hreturned := h.returned
  cases hpc : s.consumer with
  | idle => exact absurd hpc hbusy
  | called =>
      rw [hpc] at hreturned
      have hall := h.stored_all (by rw [hpc]; rfl)
      exact ⟨_, rfl, { h with stored := fun i hi hin _ => hall i hi hin
                              returned := hreturned, consumer := h.head }⟩
  | headLoaded currentHead =>
      rw [hpc] at hreturned
      have hall := h.stored_all (by rw [hpc]; rfl)
      have hknows := h.consumer
      rw [hpc] at hknows
      exact ⟨_, rfl, { h with stored := fun i hi hin _ => hall i hi hin
                              returned := hreturned
                              consumer := ⟨hknows, _, h.tail, h.le, Nat.le_refl _, rfl⟩ }⟩
  | tailLoaded currentHead currentTail =>
      dsimp only
      by_cases hempty : currentHead = currentTail
      · rw [if_pos hempty]
        rw [hpc] at hreturned
        have hall := h.stored_all (by rw [hpc]; rfl)
        refine ⟨_, rfl, { h with stored := fun i hi hin _ => hall i hi hin
                                 returned := hreturned, consumer := fun _ => ?_ }⟩
        have hknows := h.consumer
        rw [hpc] at hknows
        obtain ⟨rfl, seen, htail, hle, hseen, hheld⟩ := hknows
        -- equal counters count equally many items, so none was held
        have hbound : seen ≤ s.popped.length + capacity.toNat := Nat.le_trans hseen h.bounded
        have hsame := (ofNat_inj hle (lt_of_le_add hbound)).mp (hempty.trans htail)
        rw [← hsame, Nat.sub_self] at hheld
        exact hheld
      · obtain ⟨item, hitem, hinv⟩ := h.take hcap hpc hempty moved
        rw [if_neg hempty, hitem]
        exact ⟨_, rfl, hinv⟩
  | taken item currentHead => exact ⟨_, rfl, h.storeHead hpc⟩
  | returning result =>
      rw [hpc] at hreturned
      have hall := h.stored_all (by rw [hpc]; rfl)
      refine ⟨_, rfl, { h with stored := fun i hi hin _ => hall i hi hin
                               returned := ?_, consumer := trivial }⟩
      exact hreturned.trans (List.append_nil _).symm

/-! ## Runs -/

/-- **ONE STEP** of either side keeps the invariant. -/
theorem Inv.step (hcap : Admitted capacity) (h : Inv capacity s) {e : QueueEvent T}
    (hstep : Step capacity moved s e s') : Inv capacity s' := by
  cases hstep with
  | emplace => exact h.emplace _
  | emplaceStep hstep =>
      have hbusy : s.producer ≠ .idle := by
        intro hidle
        rw [LockFreeSPSCQueue.emplaceStep, hidle] at hstep
        cases hstep
      obtain ⟨t, ht, hinv⟩ := h.emplaceStep hcap hbusy
      obtain rfl := Option.some.inj (hstep.symm.trans ht)
      exact hinv
  | pop hidle =>
      have hreturned := h.returned
      rw [hidle] at hreturned
      have hall := h.stored_all (by rw [hidle]; rfl)
      exact { h with stored := fun i hi hin _ => hall i hi hin
                     returned := hreturned, consumer := trivial }
  | popStep hstep =>
      have hbusy : s.consumer ≠ .idle := by
        intro hidle
        rw [LockFreeSPSCQueue.popStep, hidle] at hstep
        cases hstep
      obtain ⟨t, ht, hinv⟩ := @Inv.popStep _ _ moved _ hcap h hbusy
      obtain rfl := Option.some.inj (hstep.symm.trans ht)
      exact hinv

/-- **EVERY RUN** keeps the invariant. -/
theorem reached_inv [Inhabited T] (hcap : Admitted capacity) {es : List (QueueEvent T)}
    (hrun : Run (Step capacity moved) (new capacity) es s) : Inv capacity s :=
  hrun.invariant (fun _ _ _ hstep h => Inv.step hcap h hstep) (Inv.new capacity)

/-- The slot that the producer's next step writes. -/
def writes (capacity : UInt64) (s : LockFreeSPSCQueue T) : Option Nat :=
  match s.producer with
  | .headLoaded _ currentTail currentHead =>
      if currentTail - currentHead ≥ capacity then none else some (index capacity currentTail)
  | _ => none

/-- The slot that the consumer's next step reads. -/
def reads (capacity : UInt64) (s : LockFreeSPSCQueue T) : Option Nat :=
  match s.consumer with
  | .tailLoaded currentHead currentTail =>
      if currentHead = currentTail then none else some (index capacity currentHead)
  | _ => none

/-- The slot that item number `i` is written to. -/
def slotOf (capacity : UInt64) (i : Nat) : Nat := index capacity (UInt64.ofNat i)

/-- A bounded FIFO queue whose sides do not get in each other's way. -/
structure BoundedFifo (capacity : UInt64) (moved : T → T) (s : LockFreeSPSCQueue T) : Prop where
  /-- Items are returned in the order in which they were accepted. -/
  fifo : s.returned <+: s.accepted
  /-- So are those that `pop` is about to return. -/
  popped : s.popped <+: s.accepted ∧ s.popped = s.returned ++ s.consumer.owes
  bounded : s.held ≤ capacity.toNat
  counted : s.held = (s.tail - s.head).toNat
  /-- The slot written is in range, not read, and no item held is in it. -/
  written : ∀ slot, s.writes capacity = some slot → slot < s.buffer.length
    ∧ s.reads capacity ≠ some slot
    ∧ ∀ i, s.popped.length ≤ i → i < s.accepted.length → slotOf capacity i ≠ slot
  read : ∀ slot, s.reads capacity = some slot → slot < s.buffer.length
  /-- The items held are in their slots, except for one that is moved out already. -/
  stored : ∀ i, s.popped.length ≤ i → i < s.accepted.length →
    (i = s.popped.length → s.consumer.hasTaken = false) →
    s.buffer[slotOf capacity i]? = s.accepted[i]?
  /-- `emplace` returns false only if the queue was full when it loaded `head_`. -/
  full : ∀ item, s.producer = .returning item false → s.heldAtHeadLoad = capacity.toNat
  /-- `pop` returns false only if the queue was empty when it loaded `tail_`. -/
  empty : s.consumer = .returning none → s.heldAtTailLoad = 0
  /-- No step accesses the buffer outside its range. -/
  defined : (s.producer ≠ .idle → s.emplaceStep capacity ≠ none)
    ∧ (s.consumer ≠ .idle → s.popStep capacity moved ≠ none)

theorem Inv.writes (hcap : Admitted capacity) (h : Inv capacity s) {slot : Nat}
    (hslot : s.writes capacity = some slot) :
    slot < s.buffer.length ∧ slot = s.accepted.length % capacity.toNat
      ∧ s.accepted.length < s.popped.length + capacity.toNat := by
  rw [LockFreeSPSCQueue.writes] at hslot
  split at hslot
  · next item currentTail currentHead hpc =>
      by_cases hfull : currentTail - currentHead ≥ capacity
      · rw [if_pos hfull] at hslot
        cases hslot
      · rw [if_neg hfull] at hslot
        obtain rfl := Option.some.inj hslot
        obtain ⟨-, hindex, hrange, hroom⟩ := h.room hcap hpc hfull
        exact ⟨hindex ▸ hrange, hindex, hroom⟩
  · cases hslot

theorem Inv.reads (hcap : Admitted capacity) (h : Inv capacity s) {slot : Nat}
    (hslot : s.reads capacity = some slot) :
    slot < s.buffer.length ∧ slot = s.popped.length % capacity.toNat
      ∧ s.popped.length < s.accepted.length := by
  rw [LockFreeSPSCQueue.reads] at hslot
  split at hslot
  · next currentHead currentTail hpc =>
      by_cases hempty : currentHead = currentTail
      · rw [if_pos hempty] at hslot
        cases hslot
      · rw [if_neg hempty] at hslot
        obtain rfl := Option.some.inj hslot
        obtain ⟨hless, -, -, hindex, hfirst⟩ := h.first hcap hpc hempty
        rw [List.getElem?_eq_getElem hless] at hfirst
        exact ⟨(List.getElem?_eq_some_iff.mp hfirst).1, hindex, hless⟩
  · cases hslot

/-- The items held are in slots only if there are slots. -/
theorem Inv.slotOf (hcap : Admitted capacity) (h : Inv capacity s) {i : Nat}
    (hi : s.popped.length ≤ i) (hin : i < s.accepted.length) :
    slotOf capacity i = i % capacity.toNat := by
  exact index_ofNat hcap (h.has_slots (Nat.lt_of_le_of_lt hi hin)) i

theorem Inv.boundedFifo (hcap : Admitted capacity) (h : Inv capacity s) :
    BoundedFifo capacity moved s where
  fifo := by
    refine List.IsPrefix.trans ?_ h.inOrder
    rw [h.returned]
    exact List.prefix_append _ _
  popped := ⟨h.inOrder, h.returned⟩
  bounded := Nat.sub_le_iff_le_add'.mpr h.bounded
  counted := by
    rw [h.tail, h.head, toNat_sub_ofNat h.le (lt_of_le_add h.bounded)]
    rfl
  written := by
    intro slot hwrite
    obtain ⟨hrange, rfl, hroom⟩ := h.writes hcap hwrite
    refine ⟨hrange, ?_, ?_⟩
    · intro hread
      obtain ⟨-, hsame, hless⟩ := h.reads hcap hread
      exact slot_ne (Nat.le_refl _) hless hroom hsame
    · intro i hi hin hsame
      rw [h.slotOf hcap hi hin] at hsame
      exact slot_ne hi hin hroom hsame.symm
  read := fun slot hread => (h.reads hcap hread).1
  stored := by
    intro i hi hin htaken
    rw [h.slotOf hcap hi hin]
    exact h.stored i hi hin htaken
  full := by
    intro item hpc
    have hknows := h.producer
    rw [hpc] at hknows
    exact hknows rfl
  empty := by
    intro hpc
    have hknows := h.consumer
    rw [hpc] at hknows
    exact hknows rfl
  defined := by
    constructor
    · intro hbusy hnone
      obtain ⟨t, ht, -⟩ := h.emplaceStep hcap hbusy
      cases hnone.symm.trans ht
    · intro hbusy hnone
      obtain ⟨t, ht, -⟩ := @Inv.popStep _ _ moved _ hcap h hbusy
      cases hnone.symm.trans ht

/-- **BOUNDED FIFO**: for every admitted capacity, in every interleaving of the steps
    of the two sides and whatever a move leaves behind. -/
theorem reached_boundedFifo [Inhabited T] (capacity : UInt64) (hcap : Admitted capacity)
    (moved : T → T) (es : List (QueueEvent T)) (s : LockFreeSPSCQueue T)
    (hrun : Run (Step capacity moved) (new capacity) es s) : BoundedFifo capacity moved s :=
  (reached_inv hcap hrun).boundedFifo hcap

/-- A queue of one slot holds an item and is about to refuse another. -/
theorem reached_boundedFifo_full :
    BoundedFifo 1 id { (new 1 : LockFreeSPSCQueue Nat) with
      buffer := [7], tail := 1, accepted := [7]
      producer := .returning 8 false, heldAtHeadLoad := 1 } :=
  let start : LockFreeSPSCQueue Nat := new 1
  let one : LockFreeSPSCQueue Nat := { start with buffer := [7], tail := 1, accepted := [7] }
  reached_boundedFifo 1 (by decide) id
    [.emplace 7, .emplaceStep, .emplaceStep, .emplaceStep, .emplaceStep, .emplaceStep,
      .emplace 8, .emplaceStep, .emplaceStep, .emplaceStep] _ <|
    .cons (.emplace rfl) <|
    .cons (@Step.emplaceStep _ _ _ _ { start with producer := .tailLoaded 7 0 } (by decide)) <|
    .cons (@Step.emplaceStep _ _ _ _ { start with producer := .headLoaded 7 0 0 } (by decide)) <|
    .cons (@Step.emplaceStep _ _ _ _ { start with buffer := [7], producer := .written 7 0 }
      (by decide)) <|
    .cons (@Step.emplaceStep _ _ _ _ { one with producer := .returning 7 true } (by decide)) <|
    .cons (@Step.emplaceStep _ _ _ _ one (by decide)) <| .cons (.emplace rfl) <|
    .cons (@Step.emplaceStep _ _ _ _ { one with producer := .tailLoaded 8 1 } (by decide)) <|
    .cons (@Step.emplaceStep _ _ _ _ { one with
      producer := .headLoaded 8 1 0, heldAtHeadLoad := 1 } (by decide)) <|
    .cons (@Step.emplaceStep _ _ _ _ { one with
      producer := .returning 8 false, heldAtHeadLoad := 1 } (by decide)) .nil

end LockFreeSPSCQueue

end Lob
