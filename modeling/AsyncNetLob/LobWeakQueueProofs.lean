import AsyncNetLob.LobWeakQueue
import AsyncNetLob.LobLockFreeQueueProofs

/-! # The memory orders suffice

    With old messages the queue is still a bounded FIFO, and no access to a slot is a
    race.  To one who sees every store it behaves as before (`WeakInv.strong` is the
    invariant of `LobLockFreeQueueProofs`): an old message is an old copy of a counter,
    against which that invariant is proof already.

    What is new is who knows of which access.  The slot of an item held was last accessed
    by the producer, before the store of `tail_` that counts the item; a free slot by
    the consumer, before the store of `head_` that frees it (`WeakInv.held`,
    `WeakInv.free`).  Each side reads that store, or a later one, before it touches the
    slot. -/

namespace Lob

open Transition WrappingCounter ReleaseAcquire

variable {T : Type}

/-- The producer has written the next item and not yet stored `tail_`. -/
def Producer.hasWritten : Producer T → Bool
  | .written _ _ => true
  | _ => false

namespace WeakSPSCQueue

variable {capacity : UInt64} {moved : T → T} {s s' : WeakSPSCQueue T}

/-- What the producer knows of the consumer. -/
def ProducerSees (capacity : UInt64) (s : WeakSPSCQueue T) : Producer T → Prop
  | .headLoaded _ _ currentHead => ∃ seen, currentHead = UInt64.ofNat seen
      ∧ seen ≤ (s.memory.view .producer).2 .head ∧ s.knownAtHeadLoad ≤ seen
      ∧ s.accepted.length ≤ seen + capacity.toNat
  | .written _ _ => (s.memory.access (s.accepted.length % capacity.toNat)).1 = .producer
      ∧ s.accepted.length < (s.memory.view .producer).2 .head + capacity.toNat
  | .returning _ result => result = false →
      s.knownAtHeadLoad + capacity.toNat ≤ s.accepted.length
  | _ => True

/-- What the consumer knows of the producer. -/
def ConsumerSees (capacity : UInt64) (s : WeakSPSCQueue T) : Consumer T → Prop
  | .tailLoaded _ currentTail => ∃ seen, currentTail = UInt64.ofNat seen
      ∧ seen ≤ (s.memory.view .consumer).2 .tail ∧ s.knownAtTailLoad ≤ seen
      ∧ s.popped.length ≤ seen
  | .taken _ _ => (s.memory.access (s.popped.length % capacity.toNat)).1 = .consumer
      ∧ s.popped.length < (s.memory.view .consumer).2 .tail
  | .returning result => result = none → s.knownAtTailLoad ≤ s.popped.length
  | _ => True

structure WeakInv (capacity : UInt64) (s : WeakSPSCQueue T) : Prop where
  coherent : Coherent Counter.owner s.memory
  strong   : LockFreeSPSCQueue.Inv capacity s.newest
  /-- A message says how many items had been counted. -/
  counts   : ∀ c (k : Nat) x, (s.memory.history c)[k]? = some x → x.1 = UInt64.ofNat k
  tails    : (s.memory.history .tail).length = s.accepted.length + 1
  heads    : (s.memory.history .head).length = s.popped.length + 1
  room     : s.accepted.length ≤ (s.memory.view .producer).2 .head + capacity.toNat
  item     : s.popped.length ≤ (s.memory.view .consumer).2 .tail
  free     : ∀ j, s.accepted.length ≤ j → j < s.popped.length + capacity.toNat →
    (j = s.accepted.length → s.producer.hasWritten = false) →
    s.memory.Published .head (j + 1 - capacity.toNat) (j % capacity.toNat)
  held     : ∀ i, s.popped.length ≤ i → i < s.accepted.length →
    (i = s.popped.length → s.consumer.hasTaken = false) →
    s.memory.Published .tail (i + 1) (i % capacity.toNat)
  producer : ProducerSees capacity s s.producer
  consumer : ConsumerSees capacity s s.consumer

theorem WeakInv.new [Inhabited T] (capacity : UInt64) :
    WeakInv capacity (WeakSPSCQueue.new capacity : WeakSPSCQueue T) where
  coherent := Coherent.start _ _ _
  strong := LockFreeSPSCQueue.Inv.new capacity
  counts := by
    intro c k x hx
    cases k with
    | zero => rw [← Option.some.inj hx]; rfl
    | succ k => cases hx
  tails := rfl
  heads := rfl
  room := Nat.zero_le _
  item := Nat.zero_le _
  free := by
    intro j _ hj _
    have hfirst : j + 1 - capacity.toNat = 0 := by
      have hj' : j < 0 + capacity.toNat := hj
      omega
    rw [hfirst]
    exact ⟨_, rfl, Nat.le_refl _⟩
  held := fun i _ hi => absurd hi (Nat.not_lt_zero i)
  producer := trivial
  consumer := trivial

/-- What a side knows it does not forget, and nobody else touches the slot that it has
    touched. -/
theorem ProducerSees.mono {p : Producer T} (h : ProducerSees capacity s p)
    (hview : s.memory.view .producer ≤ s'.memory.view .producer)
    (haccepted : s'.accepted = s.accepted) (hknown : s'.knownAtHeadLoad = s.knownAtHeadLoad)
    (haccess : p.hasWritten = true → s'.memory.access (s.accepted.length % capacity.toNat)
      = s.memory.access (s.accepted.length % capacity.toNat)) :
    ProducerSees capacity s' p := by
  have hhead := hview.2 .head
  cases p with
  | headLoaded _ _ currentHead =>
      obtain ⟨seen, hcopy, hseen, hrest⟩ := h
      refine ⟨seen, hcopy, hseen.trans hhead, ?_⟩
      rw [haccepted, hknown]
      exact hrest
  | written _ _ =>
      show (s'.memory.access _).1 = .producer ∧ _ < _
      rw [haccepted, haccess rfl]
      exact ⟨h.1, Nat.lt_of_lt_of_le h.2 (Nat.add_le_add_right hhead _)⟩
  | returning _ _ =>
      show _ → s'.knownAtHeadLoad + _ ≤ _
      rw [haccepted, hknown]
      exact h
  | idle => trivial
  | called _ => trivial
  | tailLoaded _ _ => trivial

theorem ConsumerSees.mono {c : Consumer T} (h : ConsumerSees capacity s c)
    (hview : s.memory.view .consumer ≤ s'.memory.view .consumer)
    (hpopped : s'.popped = s.popped) (hknown : s'.knownAtTailLoad = s.knownAtTailLoad)
    (haccess : c.hasTaken = true → s'.memory.access (s.popped.length % capacity.toNat)
      = s.memory.access (s.popped.length % capacity.toNat)) :
    ConsumerSees capacity s' c := by
  have htail := hview.2 .tail
  cases c with
  | tailLoaded _ currentTail =>
      obtain ⟨seen, hcopy, hseen, hrest⟩ := h
      refine ⟨seen, hcopy, hseen.trans htail, ?_⟩
      rw [hpopped, hknown]
      exact hrest
  | taken _ _ =>
      show (s'.memory.access _).1 = .consumer ∧ _ < _
      rw [hpopped, haccess rfl]
      exact ⟨h.1, Nat.lt_of_lt_of_le h.2 htail⟩
  | returning _ =>
      show _ → s'.knownAtTailLoad ≤ _
      rw [hpopped, hknown]
      exact h
  | idle => trivial
  | called => trivial
  | headLoaded _ => trivial

/-- The memory goes on while nothing else changes but what the sides are at: nobody
    forgets what the invariant says they know. -/
structure Goes (s : WeakSPSCQueue T) (m : Memory Party Counter Nat UInt64) : Prop where
  coherent : Coherent Counter.owner m
  later    : s.memory.Later m
  history  : m.history = s.memory.history
  access   : m.access = s.memory.access

section Goes

variable {m : Memory Party Counter Nat UInt64}

theorem Goes.refl (h : WeakInv capacity s) : Goes s s.memory :=
  ⟨h.coherent, Memory.Later.refl _, rfl, rfl⟩

/-- To learn something keeps the invariant. -/
theorem WeakInv.goes (h : WeakInv capacity s) (hm : Goes s m) :
    WeakInv capacity { s with memory := m } where
  coherent := hm.coherent
  strong := by
    have hsame : WeakSPSCQueue.newest { s with memory := m } = s.newest := by
      simp only [newest, latest, hm.history]
    rw [hsame]
    exact h.strong
  counts := by
    show ∀ c (k : Nat) x, (m.history c)[k]? = some x → x.1 = UInt64.ofNat k
    rw [hm.history]
    exact h.counts
  tails := by
    show (m.history .tail).length = _
    rw [hm.history]
    exact h.tails
  heads := by
    show (m.history .head).length = _
    rw [hm.history]
    exact h.heads
  room := h.room.trans (Nat.add_le_add_right ((hm.later.view .producer).2 .head) _)
  item := h.item.trans ((hm.later.view .consumer).2 .tail)
  free := fun j hj hlt hw => (h.free j hj hlt hw).later hm.later (congrFun hm.access _)
  held := fun i hi hlt ht => (h.held i hi hlt ht).later hm.later (congrFun hm.access _)
  producer := h.producer.mono (hm.later.view _) rfl rfl fun _ => congrFun hm.access _
  consumer := h.consumer.mono (hm.later.view _) rfl rfl fun _ => congrFun hm.access _

end Goes

/-! ## The counters -/

/-- How many items a counter has counted. -/
def counted (s : WeakSPSCQueue T) : Counter → Nat
  | .tail => s.accepted.length
  | .head => s.popped.length

theorem WeakInv.messages (h : WeakInv capacity s) (c : Counter) :
    (s.memory.history c).length = s.counted c + 1 := by
  cases c with
  | tail => exact h.tails
  | head => exact h.heads

/-- Nobody knows of more items than were counted. -/
theorem WeakInv.seen_le (h : WeakInv capacity s) (who : Party) (c : Counter) :
    (s.memory.view who).2 c ≤ s.counted c := by
  have hstored := h.coherent.stored who c
  have hmessages := h.messages c
  omega

/-- `load(relaxed)` of a counter by its own writer. -/
theorem WeakInv.loadOwn (h : WeakInv capacity s) {c : Counter} {message : Nat} {x : UInt64}
    {m : Memory Party Counter Nat UInt64}
    (hload : s.memory.loadRelaxed (Counter.owner c) c message = some (x, m)) :
    m = s.memory ∧ x = UInt64.ofNat (s.counted c) := by
  obtain ⟨hm, hlast, w, hget⟩ := h.coherent.loadRelaxed_owner hload
  refine ⟨hm, (h.counts c message _ hget).trans (congrArg UInt64.ofNat ?_)⟩
  have hmessages := h.messages c
  omega

/-- `load(acquire)` of a counter. -/
theorem WeakInv.loadAcquire (h : WeakInv capacity s) {who : Party} {c : Counter} {message : Nat}
    {x : UInt64} {m : Memory Party Counter Nat UInt64}
    (hload : s.memory.loadAcquire who c message = some (x, m)) :
    Goes s m ∧ x = UInt64.ofNat message ∧ (s.memory.view who).2 c ≤ message
      ∧ message ≤ (m.view who).2 c ∧ message ≤ s.counted c := by
  obtain ⟨w, hle, hget, hm, hseen, hlater, hcoherent⟩ := h.coherent.loadAcquire hload
  have hlt := (List.getElem?_eq_some_iff.mp hget).1
  have hmessages := h.messages c
  refine ⟨⟨hcoherent, hlater, by rw [hm]; rfl, by rw [hm]; rfl⟩, h.counts c message _ hget, hle,
    hseen, by omega⟩

/-! ## The producer -/

/-- The slot of a number of a free slot is not that of another free slot or item. -/
theorem slot_ne {i j : Nat} (hij : i < j) (hlt : j < i + capacity.toNat) :
    i % capacity.toNat ≠ j % capacity.toNat := by
  intro hsame
  have heq := mod_inj (Nat.le_of_lt hij) hlt hsame
  omega

theorem WeakInv.le (h : WeakInv capacity s) : s.popped.length ≤ s.accepted.length := h.strong.le

/-- An item that is moved out has been accepted. -/
theorem WeakInv.taken_lt (h : WeakInv capacity s) (htaken : s.consumer.hasTaken = true) :
    s.popped.length < s.accepted.length := by
  have hknows := h.strong.consumer
  have hsame : s.newest.consumer = s.consumer := rfl
  rw [hsame] at hknows
  cases hc : s.consumer with
  | taken item currentHead =>
      rw [hc] at hknows
      exact (List.getElem?_eq_some_iff.mp hknows.2).1
  | idle => rw [hc] at htaken; cases htaken
  | called => rw [hc] at htaken; cases htaken
  | headLoaded _ => rw [hc] at htaken; cases htaken
  | tailLoaded _ _ => rw [hc] at htaken; cases htaken
  | returning _ => rw [hc] at htaken; cases htaken

/-- An item that is written has a slot of its own. -/
theorem WeakInv.written_lt (h : WeakInv capacity s) (hwritten : s.producer.hasWritten = true) :
    s.accepted.length < s.popped.length + capacity.toNat := by
  have hknows := h.strong.producer
  have hsame : s.newest.producer = s.producer := rfl
  rw [hsame] at hknows
  cases hp : s.producer with
  | written item currentTail =>
      rw [hp] at hknows
      exact hknows.2.1
  | idle => rw [hp] at hwritten; cases hwritten
  | called _ => rw [hp] at hwritten; cases hwritten
  | tailLoaded _ _ => rw [hp] at hwritten; cases hwritten
  | headLoaded _ _ _ => rw [hp] at hwritten; cases hwritten
  | returning _ _ => rw [hp] at hwritten; cases hwritten

/-- Where the producer is when it has not written. -/
theorem WeakInv.producerAt (h : WeakInv capacity s) (hnot : s.producer.hasWritten = false)
    {p : Producer T} (hstrong : LockFreeSPSCQueue.ProducerKnows capacity s.newest p)
    (hsees : ProducerSees capacity s p) : WeakInv capacity { s with producer := p } :=
  { h with
    strong := { h.strong with producer := hstrong }
    free := fun j hj hlt _ => h.free j hj hlt fun _ => hnot
    producer := hsees }

/-- When the test finds room, the slot is free, and the producer knows it. -/
theorem WeakInv.room_seen (h : WeakInv capacity s) {item : T} {currentTail currentHead : UInt64}
    (hpc : s.producer = .headLoaded item currentTail currentHead)
    (hroom : ¬ currentTail - currentHead ≥ capacity) :
    s.accepted.length < (s.memory.view .producer).2 .head + capacity.toNat
      ∧ ¬ s.memory.Race .producer (s.accepted.length % capacity.toNat) := by
  have hsees := h.producer
  have hknows := h.strong.producer
  rw [hpc] at hsees
  obtain ⟨seen, rfl, hseen, -, hbound⟩ := hsees
  have hpc' : s.newest.producer = .headLoaded item currentTail (UInt64.ofNat seen) := hpc
  rw [hpc'] at hknows
  obtain ⟨rfl, -⟩ := hknows
  have hpopped : _ ≤ s.popped.length := h.seen_le .producer .head
  have hless : s.accepted.length < seen + capacity.toNat := by
    have hle : seen ≤ s.accepted.length := (hseen.trans hpopped).trans h.strong.le
    have hfull := LockFreeSPSCQueue.full_iff hle hbound
    have hne : ¬ s.accepted.length - seen = capacity.toNat := fun heq => hroom (hfull.mpr heq)
    omega
  have hwritten : s.producer.hasWritten = false := by rw [hpc]; rfl
  refine ⟨by omega, h.coherent.not_race (h.free _ (Nat.le_refl _) (by omega) fun _ => hwritten) ?_⟩
  omega

/-- Writing the slot. -/
theorem WeakInv.write (hcap : LockFreeSPSCQueue.Admitted capacity) (h : WeakInv capacity s)
    {item : T} {currentTail currentHead : UInt64}
    (hpc : s.producer = .headLoaded item currentTail currentHead)
    (hroom : ¬ currentTail - currentHead ≥ capacity) :
    LockFreeSPSCQueue.index capacity currentTail < s.buffer.length
      ∧ WeakInv capacity { s with
          buffer := s.buffer.set (LockFreeSPSCQueue.index capacity currentTail) item
          memory := s.memory.touch .producer (LockFreeSPSCQueue.index capacity currentTail)
          producer := .written item currentTail } := by
  have hpc' : s.newest.producer = .headLoaded item currentTail currentHead := hpc
  obtain ⟨-, hindex, -, hless⟩ := h.strong.room hcap hpc' hroom
  obtain ⟨hslot, hstrong⟩ := h.strong.write hcap hpc' hroom
  obtain ⟨hseen, -⟩ := h.room_seen hpc hroom
  have hle := h.le
  refine ⟨hslot, ?_⟩
  have hindex' : LockFreeSPSCQueue.index capacity currentTail
      = s.accepted.length % capacity.toNat := hindex
  have hless' : s.accepted.length < s.popped.length + capacity.toNat := hless
  have hlater := s.memory.touch_later .producer (LockFreeSPSCQueue.index capacity currentTail)
  -- the slot written is no other one's
  have hother : ∀ i, s.popped.length ≤ i → i < s.popped.length + capacity.toNat →
      i ≠ s.accepted.length → (s.memory.touch .producer
        (LockFreeSPSCQueue.index capacity currentTail)).access (i % capacity.toNat)
        = s.memory.access (i % capacity.toNat) := by
    intro i hi hlt hne
    rw [Memory.touch_access, if_neg]
    rw [hindex']
    rcases Nat.lt_or_gt_of_ne hne with hbefore | hafter
    · exact slot_ne hbefore (by omega)
    · exact (slot_ne hafter (by omega)).symm
  exact {
    coherent := h.coherent.touch _ _
    strong := hstrong
    counts := h.counts
    tails := h.tails
    heads := h.heads
    room := h.room.trans (Nat.add_le_add_right ((hlater.view .producer).2 .head) _)
    item := h.item.trans ((hlater.view .consumer).2 .tail)
    free := fun j hj hlt hne => by
      have hother' := hother j (hle.trans hj) hlt fun heq => by cases hne heq
      refine (h.free j hj hlt fun heq => ?_).later hlater hother'
      rw [hpc]
      rfl
    held := fun i hi hlt htaken => (h.held i hi hlt htaken).later hlater
      (hother i hi (Nat.lt_trans hlt hless') (Nat.ne_of_lt hlt))
    producer := by
      refine ⟨?_, Nat.lt_of_lt_of_le hseen
        (Nat.add_le_add_right ((hlater.view .producer).2 .head) _)⟩
      show ((s.memory.touch .producer _).access (s.accepted.length % capacity.toNat)).1 = Party.producer
      rw [← hindex', Memory.touch_access, if_pos rfl]
    consumer := h.consumer.mono (hlater.view _) rfl rfl fun htaken => by
      have hitem := h.taken_lt htaken
      exact hother _ (Nat.le_refl _) (by omega) (Nat.ne_of_lt hitem) }

theorem latest_store (m : Memory Party Counter Nat UInt64) (who : Party) (c : Counter) (x : UInt64) :
    WeakSPSCQueue.latest { s with memory := m.storeRelease who c x } c = x := by
  rw [latest]
  show (((m.storeRelease who c x).history c).getLast?.map Prod.fst).getD 0 = x
  rw [Memory.storeRelease_history, if_pos rfl, List.getLast?_concat]
  rfl

theorem latest_other (m : Memory Party Counter Nat UInt64) (who : Party) {c c' : Counter}
    (x : UInt64) (hne : c' ≠ c) : WeakSPSCQueue.latest { s with memory := m.storeRelease who c x } c'
      = WeakSPSCQueue.latest { s with memory := m } c' := by
  rw [latest, latest]
  show (((m.storeRelease who c x).history c').getLast?.map Prod.fst).getD 0 = _
  rw [Memory.storeRelease_history, if_neg hne]

/-- What has not changed but in one counter. -/
theorem newest_store (m : Memory Party Counter Nat UInt64) (who : Party) (x : UInt64) :
    WeakSPSCQueue.newest { s with memory := m.storeRelease who .tail x }
        = { WeakSPSCQueue.newest { s with memory := m } with tail := x }
      ∧ WeakSPSCQueue.newest { s with memory := m.storeRelease who .head x }
        = { WeakSPSCQueue.newest { s with memory := m } with head := x } := by
  constructor
  · rw [newest, latest_store, latest_other m who x (by decide : Counter.head ≠ .tail)]
    rfl
  · rw [newest, latest_store, latest_other m who x (by decide : Counter.tail ≠ .head)]
    rfl

/-- A store counts one more. -/
theorem counts_store {m : Memory Party Counter Nat UInt64}
    (h : ∀ c (k : Nat) x, (m.history c)[k]? = some x → x.1 = UInt64.ofNat k) (who : Party)
    (c : Counter) : ∀ c' (k : Nat) x,
      ((m.storeRelease who c (UInt64.ofNat (m.history c).length)).history c')[k]? = some x →
      x.1 = UInt64.ofNat k := by
  intro c' k x hx
  rcases m.storeRelease_get _ _ _ hx with hx | ⟨-, rfl, rfl⟩
  · exact h c' k x hx
  · rfl

/-- `tail_.store(currentTail + 1, release)`. -/
theorem WeakInv.storeTail (h : WeakInv capacity s) {item : T} {currentTail : UInt64}
    (hpc : s.producer = .written item currentTail) :
    WeakInv capacity { s with
      memory := s.memory.storeRelease .producer .tail (currentTail + 1)
      producer := .returning item true, accepted := s.accepted ++ [item] } := by
  have hpc' : s.newest.producer = .written item currentTail := hpc
  have hstrong := h.strong.storeTail hpc'
  have hknows := h.strong.producer
  have hsees := h.producer
  rw [hpc'] at hknows
  rw [hpc] at hsees
  obtain ⟨hmine, hseen⟩ := hsees
  have htail : currentTail + 1 = UInt64.ofNat (s.memory.history .tail).length := by
    rw [h.tails, ← ofNat_succ]
    exact congrArg (· + 1) hknows.1
  have hlater := h.coherent.storeRelease_later .tail (currentTail + 1)
  have hlen : (s.accepted ++ [item]).length = s.accepted.length + 1 := List.length_append
  exact {
    coherent := h.coherent.storeRelease .tail _
    strong := by
      have hnewest := (newest_store (s := { s with producer := .returning item true
                                                   accepted := s.accepted ++ [item] })
        s.memory .producer (currentTail + 1)).1
      exact hnewest ▸ hstrong
    counts := by
      show ∀ c (k : Nat) x, ((s.memory.storeRelease _ _ _).history c)[k]? = some x → _
      rw [htail]
      exact counts_store h.counts _ _
    tails := by
      show ((s.memory.storeRelease _ _ _).history .tail).length = _
      rw [Memory.storeRelease_length, if_pos rfl, h.tails, hlen]
    heads := by
      show ((s.memory.storeRelease _ _ _).history .head).length = _
      rw [Memory.storeRelease_length, if_neg (by decide), h.heads]
    room := by
      show (s.accepted ++ [item]).length ≤ _
      rw [hlen]
      exact Nat.lt_of_lt_of_le hseen (Nat.add_le_add_right ((hlater.view .producer).2 .head) _)
    item := h.item.trans ((hlater.view .consumer).2 .tail)
    free := fun j hj hlt _ => by
      have hj' : s.accepted.length + 1 ≤ j := hlen ▸ hj
      exact (h.free j (by omega) hlt fun heq => by omega).later hlater rfl
    held := fun i hi hlt htaken => by
      have hlt' : i < s.accepted.length + 1 := hlen ▸ hlt
      by_cases hlast : i = s.accepted.length
      · -- the store publishes the slot that the producer has written
        rw [hlast]
        have hpub := h.coherent.publishes (l := .tail) (currentTail + 1) hmine
        rw [h.tails] at hpub
        exact hpub
      · exact (h.held i hi (by omega) htaken).later hlater rfl
    producer := fun hfalse => by cases hfalse
    consumer := h.consumer.mono (hlater.view _) rfl rfl fun _ => rfl }

/-- **PRODUCER STEP**. -/
theorem WeakInv.emplaceStep (hcap : LockFreeSPSCQueue.Admitted capacity) (h : WeakInv capacity s)
    {message : Nat} (hstep : s.emplaceStep capacity message = some s') : WeakInv capacity s' := by
  rw [WeakSPSCQueue.emplaceStep] at hstep
  cases hpc : s.producer with
  | idle =>
      rw [hpc] at hstep
      cases hstep
  | called item =>
      rw [hpc] at hstep
      obtain ⟨⟨x, m⟩, hload, rfl⟩ := Option.map_eq_some_iff.mp hstep
      obtain ⟨rfl, rfl⟩ := h.loadOwn (c := .tail) hload
      exact h.producerAt (by rw [hpc]; rfl) rfl trivial
  | tailLoaded item currentTail =>
      rw [hpc] at hstep
      obtain ⟨⟨x, m⟩, hload, rfl⟩ := Option.map_eq_some_iff.mp hstep
      obtain ⟨hgoes, rfl, hknown, hseen, hpopped⟩ := h.loadAcquire hload
      have hroom := h.room
      have hknows := h.strong.producer
      have hpc' : s.newest.producer = .tailLoaded item currentTail := hpc
      rw [hpc'] at hknows
      have hwent := h.goes hgoes
      exact { hwent with
        strong := { hwent.strong with
          producer := ⟨hknows, message, rfl, hpopped, by show s.accepted.length ≤ _; omega, rfl⟩ }
        free := fun j hj hlt _ => hwent.free j hj hlt fun _ => by
          show s.producer.hasWritten = false
          rw [hpc]
          rfl
        producer := ⟨message, rfl, hseen, hknown, by show s.accepted.length ≤ _; omega⟩ }
  | headLoaded item currentTail currentHead =>
      rw [hpc] at hstep
      dsimp only at hstep
      by_cases hfull : currentTail - currentHead ≥ capacity
      · rw [if_pos hfull] at hstep
        obtain rfl := Option.some.inj hstep
        have hsees := h.producer
        have hknows := h.strong.producer
        have hpc' : s.newest.producer = .headLoaded item currentTail currentHead := hpc
        rw [hpc] at hsees
        rw [hpc'] at hknows
        obtain ⟨seen, hcopy, hseen, hknown, hbound⟩ := hsees
        obtain ⟨htail, hrest⟩ := hknows
        have hle : seen ≤ s.accepted.length := (hseen.trans (h.seen_le .producer .head)).trans h.le
        have hheld : s.accepted.length - seen = capacity.toNat := by
          have hfull' := hfull
          rw [htail, hcopy] at hfull'
          exact (LockFreeSPSCQueue.full_iff hle hbound).mp hfull'
        refine h.producerAt (by rw [hpc]; rfl) (fun _ => ?_) fun _ => by omega
        obtain ⟨seen', hcopy', hseen', hbound', hheld'⟩ := hrest
        have hle' : seen' ≤ s.accepted.length := hseen'.trans h.le
        rw [htail, hcopy'] at hfull
        exact hheld'.trans ((LockFreeSPSCQueue.full_iff hle' hbound').mp hfull)
      · obtain ⟨hslot, hwrite⟩ := h.write hcap hpc hfull
        rw [if_neg hfull, if_pos hslot] at hstep
        exact Option.some.inj hstep ▸ hwrite
  | written item currentTail =>
      rw [hpc] at hstep
      exact Option.some.inj hstep ▸ h.storeTail hpc
  | returning item result =>
      rw [hpc] at hstep
      exact Option.some.inj hstep ▸ h.producerAt (by rw [hpc]; rfl) trivial trivial

/-! ## The consumer -/

/-- Where the consumer is when it has not taken an item. -/
theorem WeakInv.consumerAt (h : WeakInv capacity s) (hnot : s.consumer.hasTaken = false)
    {c : Consumer T} (howes : c.owes = s.consumer.owes)
    (hstrong : LockFreeSPSCQueue.ConsumerKnows s.newest c) (hsees : ConsumerSees capacity s c) :
    WeakInv capacity { s with consumer := c } :=
  { h with
    strong := { h.strong with
      stored := fun i hi hlt _ => h.strong.stored_all hnot i hi hlt
      returned := h.strong.returned.trans (congrArg (s.returned ++ ·) howes.symm)
      consumer := hstrong }
    held := fun i hi hlt _ => h.held i hi hlt fun _ => hnot
    consumer := hsees }

/-- When the counters differ, the first item is there, and the consumer knows it. -/
theorem WeakInv.item_seen (h : WeakInv capacity s) {currentHead currentTail : UInt64}
    (hpc : s.consumer = .tailLoaded currentHead currentTail) (hne : currentHead ≠ currentTail) :
    s.popped.length < (s.memory.view .consumer).2 .tail
      ∧ ¬ s.memory.Race .consumer (s.popped.length % capacity.toNat) := by
  have hsees := h.consumer
  have hknows := h.strong.consumer
  rw [hpc] at hsees
  obtain ⟨seen, rfl, hseen, -, hle⟩ := hsees
  have hpc' : s.newest.consumer = .tailLoaded currentHead (UInt64.ofNat seen) := hpc
  rw [hpc'] at hknows
  obtain ⟨rfl, -⟩ := hknows
  have haccepted : _ ≤ s.accepted.length := h.seen_le .consumer .tail
  have hless : s.popped.length < seen := Nat.lt_of_le_of_ne hle fun heq => hne (by
    show UInt64.ofNat s.popped.length = _
    rw [heq])
  have htaken : s.consumer.hasTaken = false := by rw [hpc]; rfl
  refine ⟨by omega, h.coherent.not_race (h.held _ (Nat.le_refl _) (by omega) fun _ => htaken) ?_⟩
  omega

/-- Moving the first item out. -/
theorem WeakInv.take (hcap : LockFreeSPSCQueue.Admitted capacity) (h : WeakInv capacity s)
    {currentHead currentTail : UInt64} (hpc : s.consumer = .tailLoaded currentHead currentTail)
    (hne : currentHead ≠ currentTail) (moved : T → T) :
    ∃ item, s.buffer[LockFreeSPSCQueue.index capacity currentHead]? = some item
      ∧ WeakInv capacity { s with
          buffer := s.buffer.set (LockFreeSPSCQueue.index capacity currentHead) (moved item)
          memory := s.memory.touch .consumer (LockFreeSPSCQueue.index capacity currentHead)
          consumer := .taken item currentHead } := by
  have hpc' : s.newest.consumer = .tailLoaded currentHead currentTail := hpc
  obtain ⟨hless, -, -, hindex, -⟩ := h.strong.first hcap hpc' hne
  obtain ⟨item, hitem, hstrong⟩ := h.strong.take hcap hpc' hne moved
  obtain ⟨hseen, -⟩ := h.item_seen hpc hne
  have hindex' : LockFreeSPSCQueue.index capacity currentHead
      = s.popped.length % capacity.toNat := hindex
  have hless' : s.popped.length < s.accepted.length := hless
  have hbounded : s.accepted.length ≤ s.popped.length + capacity.toNat := h.strong.bounded
  have hlater := s.memory.touch_later .consumer (LockFreeSPSCQueue.index capacity currentHead)
  -- the slot taken is no other one's
  have hother : ∀ i, s.popped.length < i → i < s.popped.length + capacity.toNat →
      (s.memory.touch .consumer (LockFreeSPSCQueue.index capacity currentHead)).access
        (i % capacity.toNat) = s.memory.access (i % capacity.toNat) := by
    intro i hi hlt
    rw [Memory.touch_access, if_neg]
    rw [hindex']
    exact (slot_ne hi hlt).symm
  refine ⟨item, hitem, ?_⟩
  exact {
    coherent := h.coherent.touch _ _
    strong := hstrong
    counts := h.counts
    tails := h.tails
    heads := h.heads
    room := h.room.trans (Nat.add_le_add_right ((hlater.view .producer).2 .head) _)
    item := h.item.trans ((hlater.view .consumer).2 .tail)
    free := fun j hj hlt hnot => (h.free j hj hlt hnot).later hlater
      (hother j (Nat.lt_of_lt_of_le hless' hj) hlt)
    held := fun i hi hlt htaken => by
      have hne' : i ≠ s.popped.length := fun heq => by cases htaken heq
      have hi' : s.popped.length < i := Nat.lt_of_le_of_ne hi hne'.symm
      refine (h.held i hi hlt fun heq => absurd heq hne').later hlater (hother i hi' ?_)
      exact Nat.lt_of_lt_of_le hlt hbounded
    producer := h.producer.mono (hlater.view _) rfl rfl fun hwritten => by
      exact hother _ hless' (h.written_lt hwritten)
    consumer := by
      refine ⟨?_, Nat.lt_of_lt_of_le hseen ((hlater.view .consumer).2 .tail)⟩
      show ((s.memory.touch .consumer _).access (s.popped.length % capacity.toNat)).1 = Party.consumer
      rw [← hindex', Memory.touch_access, if_pos rfl] }

/-- `head_.store(currentHead + 1, release)`. -/
theorem WeakInv.storeHead (h : WeakInv capacity s) {item : T} {currentHead : UInt64}
    (hpc : s.consumer = .taken item currentHead) :
    WeakInv capacity { s with
      memory := s.memory.storeRelease .consumer .head (currentHead + 1)
      consumer := .returning (some item), popped := s.popped ++ [item] } := by
  have hpc' : s.newest.consumer = .taken item currentHead := hpc
  have hstrong := h.strong.storeHead hpc'
  have hknows := h.strong.consumer
  have hsees := h.consumer
  rw [hpc'] at hknows
  rw [hpc] at hsees
  obtain ⟨hmine, hseen⟩ := hsees
  have hhead : currentHead + 1 = UInt64.ofNat (s.memory.history .head).length := by
    rw [h.heads, ← ofNat_succ]
    exact congrArg (· + 1) hknows.1
  have hlater := h.coherent.storeRelease_later .head (currentHead + 1)
  have hlen : (s.popped ++ [item]).length = s.popped.length + 1 := List.length_append
  exact {
    coherent := h.coherent.storeRelease .head _
    strong := by
      have hnewest := (newest_store (s := { s with consumer := .returning (some item)
                                                   popped := s.popped ++ [item] })
        s.memory .consumer (currentHead + 1)).2
      exact hnewest ▸ hstrong
    counts := by
      show ∀ c (k : Nat) x, ((s.memory.storeRelease _ _ _).history c)[k]? = some x → _
      rw [hhead]
      exact counts_store h.counts _ _
    tails := by
      show ((s.memory.storeRelease _ _ _).history .tail).length = _
      rw [Memory.storeRelease_length, if_neg (by decide), h.tails]
    heads := by
      show ((s.memory.storeRelease _ _ _).history .head).length = _
      rw [Memory.storeRelease_length, if_pos rfl, h.heads, hlen]
    room := h.room.trans (Nat.add_le_add_right ((hlater.view .producer).2 .head) _)
    item := by
      show (s.popped ++ [item]).length ≤ _
      rw [hlen]
      exact Nat.le_trans hseen ((hlater.view .consumer).2 .tail)
    free := fun j hj hlt hnot => by
      have hlt' : j < s.popped.length + 1 + capacity.toNat := hlen ▸ hlt
      by_cases hlast : j = s.popped.length + capacity.toNat
      · -- the store publishes the slot that the consumer has emptied
        have hpub := h.coherent.publishes (l := .head) (currentHead + 1) hmine
        have hmessage : j + 1 - capacity.toNat = (s.memory.history .head).length := by
          have hheads := h.heads
          omega
        rw [hmessage, hlast, Nat.add_mod_right]
        exact hpub
      · exact (h.free j hj (by omega) hnot).later hlater rfl
    held := fun i hi hlt _ => by
      have hi' : s.popped.length + 1 ≤ i := hlen ▸ hi
      exact (h.held i (by omega) hlt fun heq => by omega).later hlater rfl
    producer := h.producer.mono (hlater.view _) rfl rfl fun _ => rfl
    consumer := fun hnone => by cases hnone }

/-- **CONSUMER STEP**. -/
theorem WeakInv.popStep (hcap : LockFreeSPSCQueue.Admitted capacity) (h : WeakInv capacity s)
    {message : Nat} (hstep : s.popStep capacity moved message = some s') : WeakInv capacity s' := by
  rw [WeakSPSCQueue.popStep] at hstep
  have hknows := h.strong.consumer
  have hsame : s.newest.consumer = s.consumer := rfl
  rw [hsame] at hknows
  cases hpc : s.consumer with
  | idle =>
      rw [hpc] at hstep
      cases hstep
  | called =>
      rw [hpc] at hstep
      obtain ⟨⟨x, m⟩, hload, rfl⟩ := Option.map_eq_some_iff.mp hstep
      obtain ⟨rfl, rfl⟩ := h.loadOwn (c := .head) hload
      exact h.consumerAt (by rw [hpc]; rfl) (by rw [hpc]; rfl) rfl trivial
  | headLoaded currentHead =>
      rw [hpc] at hstep hknows
      obtain ⟨⟨x, m⟩, hload, rfl⟩ := Option.map_eq_some_iff.mp hstep
      obtain ⟨hgoes, rfl, hknown, hseen, haccepted⟩ := h.loadAcquire hload
      have hitem := h.item
      have hnot : s.consumer.hasTaken = false := by rw [hpc]; rfl
      have hwent := h.goes hgoes
      exact { hwent with
        strong := { hwent.strong with
          stored := fun i hi hlt _ => hwent.strong.stored_all hnot i hi hlt
          returned := hwent.strong.returned.trans (congrArg (s.returned ++ ·) (by
            show s.consumer.owes = _
            rw [hpc]
            rfl))
          consumer := ⟨hknows, message, rfl, hitem.trans hknown, haccepted, rfl⟩ }
        held := fun i hi hlt _ => hwent.held i hi hlt fun _ => hnot
        consumer := ⟨message, rfl, hseen, hknown, hitem.trans hknown⟩ }
  | tailLoaded currentHead currentTail =>
      rw [hpc] at hstep hknows
      dsimp only at hstep
      by_cases hempty : currentHead = currentTail
      · rw [if_pos hempty] at hstep
        obtain rfl := Option.some.inj hstep
        have hsees := h.consumer
        rw [hpc] at hsees
        obtain ⟨seen, hcopy, hseen, hknown, hle⟩ := hsees
        obtain ⟨hhead, seen', hcopy', hle', hseen', hheld'⟩ := hknows
        have hbounded : s.accepted.length ≤ s.popped.length + capacity.toNat := h.strong.bounded
        -- equal counters have counted equally many items
        have hall : ∀ k, currentTail = UInt64.ofNat k → s.popped.length ≤ k →
            k ≤ s.accepted.length → s.popped.length = k := by
          intro k hk hge hlt
          refine (ofNat_inj hge (LockFreeSPSCQueue.lt_of_le_add (hlt.trans hbounded))).mp ?_
          exact hhead.symm.trans (hempty.trans hk)
        have hpopped := hall seen hcopy hle (hseen.trans (h.seen_le .consumer .tail))
        have hpopped' := hall seen' hcopy' hle' hseen'
        refine h.consumerAt (by rw [hpc]; rfl) (by rw [hpc]; rfl) (fun _ => ?_) fun _ => by omega
        have hheld : s.heldAtTailLoad = seen' - s.popped.length := hheld'
        show s.heldAtTailLoad = 0
        omega
      · obtain ⟨item, hitem, htake⟩ := h.take hcap hpc hempty moved
        rw [if_neg hempty, hitem] at hstep
        exact Option.some.inj hstep ▸ htake
  | taken item currentHead =>
      rw [hpc] at hstep
      exact Option.some.inj hstep ▸ h.storeHead hpc
  | returning result =>
      rw [hpc] at hstep
      obtain rfl := Option.some.inj hstep
      have hnot : s.consumer.hasTaken = false := by rw [hpc]; rfl
      have hreturned := h.strong.returned
      exact { h with
        strong := { h.strong with
          stored := fun i hi hlt _ => h.strong.stored_all hnot i hi hlt
          returned := by
            show s.popped = s.returned ++ result.toList ++ []
            rw [List.append_nil]
            refine hreturned.trans (congrArg (s.returned ++ ·) ?_)
            show s.consumer.owes = _
            rw [hpc]
            rfl
          consumer := trivial }
        held := fun i hi hlt _ => h.held i hi hlt fun _ => hnot
        consumer := trivial }

/-! ## Runs -/

/-- **ONE STEP** of either side keeps the invariant. -/
theorem WeakInv.step (hcap : LockFreeSPSCQueue.Admitted capacity) (h : WeakInv capacity s)
    {e : WeakQueueEvent T} (hstep : Step capacity moved s e s') : WeakInv capacity s' := by
  cases hstep with
  | emplace hidle => exact h.producerAt (by rw [hidle]; rfl) trivial trivial
  | emplaceStep hstep => exact h.emplaceStep hcap hstep
  | pop hidle => exact h.consumerAt (by rw [hidle]; rfl) (by rw [hidle]; rfl) trivial trivial
  | popStep hstep => exact h.popStep hcap hstep
  | learn =>
      exact h.goes ⟨h.coherent.learn _ _, s.memory.learn_later _ _, rfl, rfl⟩

/-- **EVERY RUN** keeps the invariant. -/
theorem reached_weakInv [Inhabited T] (hcap : LockFreeSPSCQueue.Admitted capacity)
    {es : List (WeakQueueEvent T)} (hrun : Run (Step capacity moved) (new capacity) es s) :
    WeakInv capacity s :=
  hrun.invariant (fun _ _ _ hstep h => WeakInv.step hcap h hstep) (WeakInv.new capacity)

/-- A bounded FIFO queue without data races. -/
structure WeakFifo (capacity : UInt64) (moved : T → T) (s : WeakSPSCQueue T) : Prop where
  /-- Items are returned in the order in which they were accepted. -/
  fifo : s.returned <+: s.accepted
  popped : s.popped <+: s.accepted ∧ s.popped = s.returned ++ s.consumer.owes
  bounded : s.accepted.length ≤ s.popped.length + capacity.toNat
  /-- A side that is about to access a slot knows of the last access to it. -/
  noRace : (∀ slot, s.newest.writes capacity = some slot → ¬ s.memory.Race .producer slot)
    ∧ ∀ slot, s.newest.reads capacity = some slot → ¬ s.memory.Race .consumer slot
  /-- `emplace` returns false only if it knew of no free slot, `pop` only if it knew of no
      item. -/
  full : ∀ item, s.producer = .returning item false →
    s.knownAtHeadLoad + capacity.toNat ≤ s.accepted.length
  empty : s.consumer = .returning none → s.knownAtTailLoad ≤ s.popped.length
  /-- A side that is in a call can go on. -/
  defined : (s.producer ≠ .idle → ∃ message, s.emplaceStep capacity message ≠ none)
    ∧ (s.consumer ≠ .idle → ∃ message, s.popStep capacity moved message ≠ none)

theorem WeakInv.emplaceStep_defined (hcap : LockFreeSPSCQueue.Admitted capacity)
    (h : WeakInv capacity s) (hbusy : s.producer ≠ .idle) :
    ∃ message, s.emplaceStep capacity message ≠ none := by
  cases hpc : s.producer with
  | idle => exact absurd hpc hbusy
  | called item =>
      obtain ⟨x, hread⟩ := h.coherent.readable_newest .producer .tail
      refine ⟨(s.memory.history .tail).length - 1, fun hnone => ?_⟩
      rw [WeakSPSCQueue.emplaceStep, hpc] at hnone
      dsimp only at hnone
      rw [Memory.loadRelaxed, hread] at hnone
      cases hnone
  | tailLoaded item currentTail =>
      obtain ⟨x, hread⟩ := h.coherent.readable_newest .producer .head
      refine ⟨(s.memory.history .head).length - 1, fun hnone => ?_⟩
      rw [WeakSPSCQueue.emplaceStep, hpc] at hnone
      dsimp only at hnone
      rw [Memory.loadAcquire, hread] at hnone
      cases hnone
  | headLoaded item currentTail currentHead =>
      refine ⟨0, fun hnone => ?_⟩
      rw [WeakSPSCQueue.emplaceStep, hpc] at hnone
      dsimp only at hnone
      by_cases hfull : currentTail - currentHead ≥ capacity
      · rw [if_pos hfull] at hnone
        cases hnone
      · rw [if_neg hfull, if_pos (h.write hcap hpc hfull).1] at hnone
        cases hnone
  | written item currentTail =>
      refine ⟨0, fun hnone => ?_⟩
      rw [WeakSPSCQueue.emplaceStep, hpc] at hnone
      cases hnone
  | returning item result =>
      refine ⟨0, fun hnone => ?_⟩
      rw [WeakSPSCQueue.emplaceStep, hpc] at hnone
      cases hnone

theorem WeakInv.popStep_defined (hcap : LockFreeSPSCQueue.Admitted capacity)
    (h : WeakInv capacity s) (hbusy : s.consumer ≠ .idle) :
    ∃ message, s.popStep capacity moved message ≠ none := by
  cases hpc : s.consumer with
  | idle => exact absurd hpc hbusy
  | called =>
      obtain ⟨x, hread⟩ := h.coherent.readable_newest .consumer .head
      refine ⟨(s.memory.history .head).length - 1, fun hnone => ?_⟩
      rw [WeakSPSCQueue.popStep, hpc] at hnone
      dsimp only at hnone
      rw [Memory.loadRelaxed, hread] at hnone
      cases hnone
  | headLoaded currentHead =>
      obtain ⟨x, hread⟩ := h.coherent.readable_newest .consumer .tail
      refine ⟨(s.memory.history .tail).length - 1, fun hnone => ?_⟩
      rw [WeakSPSCQueue.popStep, hpc] at hnone
      dsimp only at hnone
      rw [Memory.loadAcquire, hread] at hnone
      cases hnone
  | tailLoaded currentHead currentTail =>
      refine ⟨0, fun hnone => ?_⟩
      rw [WeakSPSCQueue.popStep, hpc] at hnone
      dsimp only at hnone
      by_cases hempty : currentHead = currentTail
      · rw [if_pos hempty] at hnone
        cases hnone
      · obtain ⟨item, hitem, -⟩ := h.take hcap hpc hempty moved
        rw [if_neg hempty, hitem] at hnone
        cases hnone
  | taken item currentHead =>
      refine ⟨0, fun hnone => ?_⟩
      rw [WeakSPSCQueue.popStep, hpc] at hnone
      cases hnone
  | returning result =>
      refine ⟨0, fun hnone => ?_⟩
      rw [WeakSPSCQueue.popStep, hpc] at hnone
      cases hnone

/-- The slot that the producer is about to write. -/
theorem WeakInv.writes_safe (hcap : LockFreeSPSCQueue.Admitted capacity) (h : WeakInv capacity s)
    {slot : Nat} (hslot : s.newest.writes capacity = some slot) :
    ¬ s.memory.Race .producer slot := by
  have hnumber := (h.strong.writes hcap hslot).2.1
  rw [LockFreeSPSCQueue.writes] at hslot
  have hsame : s.newest.producer = s.producer := rfl
  rw [hsame] at hslot
  split at hslot
  · next item currentTail currentHead hpc =>
      by_cases hfull : currentTail - currentHead ≥ capacity
      · rw [if_pos hfull] at hslot
        cases hslot
      · rw [hnumber]
        exact (h.room_seen hpc hfull).2
  · cases hslot

/-- The slot that the consumer is about to empty. -/
theorem WeakInv.reads_safe (hcap : LockFreeSPSCQueue.Admitted capacity) (h : WeakInv capacity s)
    {slot : Nat} (hslot : s.newest.reads capacity = some slot) :
    ¬ s.memory.Race .consumer slot := by
  have hnumber := (h.strong.reads hcap hslot).2.1
  rw [LockFreeSPSCQueue.reads] at hslot
  have hsame : s.newest.consumer = s.consumer := rfl
  rw [hsame] at hslot
  split at hslot
  · next currentHead currentTail hpc =>
      by_cases hempty : currentHead = currentTail
      · rw [if_pos hempty] at hslot
        cases hslot
      · rw [hnumber]
        exact (h.item_seen hpc hempty).2
  · cases hslot

/-- **THE MEMORY ORDERS SUFFICE**: for every admitted capacity, in every interleaving and
    whichever messages the loads read, the queue is a bounded FIFO and no access to a
    slot is a race. -/
theorem reached_weakFifo [Inhabited T] (capacity : UInt64)
    (hcap : LockFreeSPSCQueue.Admitted capacity) (moved : T → T) (es : List (WeakQueueEvent T))
    (s : WeakSPSCQueue T) (hrun : Run (Step capacity moved) (new capacity) es s) :
    WeakFifo capacity moved s := by
  have h := reached_weakInv hcap hrun
  have hfifo : LockFreeSPSCQueue.BoundedFifo capacity moved s.newest := h.strong.boundedFifo hcap
  refine ⟨hfifo.fifo, hfifo.popped, h.strong.bounded,
    ⟨fun _ hslot => h.writes_safe hcap hslot, fun _ hslot => h.reads_safe hcap hslot⟩, ?_, ?_,
    ⟨h.emplaceStep_defined hcap, h.popStep_defined hcap⟩⟩
  · intro item hpc
    have hsees := h.producer
    rw [hpc] at hsees
    exact hsees rfl
  · intro hpc
    have hsees := h.consumer
    rw [hpc] at hsees
    exact hsees rfl

/-- An item is in the queue, and a consumer that has not heard of it finds none. -/
theorem reached_weakFifo_stale :
    ∃ s : WeakSPSCQueue Nat, WeakFifo 1 id s ∧ s.accepted = [7] ∧ s.consumer = .returning none :=
  ⟨_, reached_weakFifo 1 (by decide) id
    [.emplace 7, .emplaceStep 0, .emplaceStep 0, .emplaceStep 0, .emplaceStep 0, .emplaceStep 0,
      .pop, .popStep 0, .popStep 0, .popStep 0] _ <|
    .cons (.emplace rfl) <| .cons (.emplaceStep rfl) <| .cons (.emplaceStep rfl) <|
    .cons (.emplaceStep rfl) <| .cons (.emplaceStep rfl) <| .cons (.emplaceStep rfl) <|
    .cons (.pop rfl) <| .cons (.popStep rfl) <| .cons (.popStep rfl) <|
    .cons (.popStep rfl) .nil, rfl, rfl⟩

/-! ## Sequentially consistent runs -/

/-- Reading the newest message of a counter. -/
theorem WeakInv.readable_latest (h : WeakInv capacity s) (who : Party) (c : Counter) :
    ∃ x, s.memory.readable who c ((s.memory.history c).length - 1) = some x
      ∧ x.1 = s.latest c := by
  obtain ⟨x, hread⟩ := h.coherent.readable_newest who c
  refine ⟨x, hread, ?_⟩
  rw [latest, List.getLast?_eq_getElem?, (Memory.readable_eq hread).2]
  rfl

theorem load_relaxed {who : Party} {c : Counter} {k : Nat} {x : UInt64 × View Party Counter}
    (hread : s.memory.readable who c k = some x) : s.memory.loadRelaxed who c k
      = some (x.1, s.memory.setView who (Memory.see c k (s.memory.view who))) := by
  rw [Memory.loadRelaxed, hread]
  rfl

theorem load_acquire {who : Party} {c : Counter} {k : Nat} {x : UInt64 × View Party Counter}
    (hread : s.memory.readable who c k = some x) : s.memory.loadAcquire who c k
      = some (x.1, s.memory.setView who (Memory.see c k (s.memory.view who) ⊔ x.2)) := by
  rw [Memory.loadAcquire, hread]
  rfl

/-- A producer that reads the newest messages. -/
theorem WeakInv.emplaceStep_newest (h : WeakInv capacity s) {t : LockFreeSPSCQueue T}
    (hstep : s.newest.emplaceStep capacity = some t) :
    ∃ message s', s.emplaceStep capacity message = some s' ∧ s'.newest = t := by
  have hheads := h.heads
  rw [LockFreeSPSCQueue.emplaceStep] at hstep
  have hsame : s.newest.producer = s.producer := rfl
  rw [hsame] at hstep
  simp only [WeakSPSCQueue.emplaceStep]
  cases hpc : s.producer with
  | idle =>
      rw [hpc] at hstep
      cases hstep
  | called item =>
      rw [hpc] at hstep
      obtain ⟨x, hread, hx⟩ := h.readable_latest .producer .tail
      refine ⟨_, _, congrArg (Option.map _) (load_relaxed hread), ?_⟩
      rw [← Option.some.inj hstep, hx]
      rfl
  | tailLoaded item currentTail =>
      rw [hpc] at hstep
      obtain ⟨x, hread, hx⟩ := h.readable_latest .producer .head
      refine ⟨_, _, congrArg (Option.map _) (load_acquire hread), ?_⟩
      have hmessage : (s.memory.history .head).length - 1 = s.popped.length := by omega
      rw [← Option.some.inj hstep, hx, hmessage]
      rfl
  | headLoaded item currentTail currentHead =>
      rw [hpc] at hstep
      dsimp only at hstep ⊢
      by_cases hfull : currentTail - currentHead ≥ capacity
      · rw [if_pos hfull] at hstep ⊢
        exact ⟨0, _, rfl, Option.some.inj hstep⟩
      · rw [if_neg hfull] at hstep ⊢
        have hbuffer : s.newest.buffer = s.buffer := rfl
        rw [hbuffer] at hstep
        by_cases hslot : LockFreeSPSCQueue.index capacity currentTail < s.buffer.length
        · rw [if_pos hslot] at hstep ⊢
          exact ⟨0, _, rfl, Option.some.inj hstep⟩
        · rw [if_neg hslot] at hstep
          cases hstep
  | written item currentTail =>
      rw [hpc] at hstep
      refine ⟨0, _, rfl, ?_⟩
      rw [← Option.some.inj hstep]
      exact (newest_store (s := { s with producer := .returning item true
                                         accepted := s.accepted ++ [item] })
        s.memory .producer (currentTail + 1)).1
  | returning item result =>
      rw [hpc] at hstep
      exact ⟨0, _, rfl, Option.some.inj hstep⟩

/-- A consumer that reads the newest messages. -/
theorem WeakInv.popStep_newest (h : WeakInv capacity s) {t : LockFreeSPSCQueue T}
    (hstep : s.newest.popStep capacity moved = some t) :
    ∃ message s', s.popStep capacity moved message = some s' ∧ s'.newest = t := by
  have htails := h.tails
  rw [LockFreeSPSCQueue.popStep] at hstep
  have hsame : s.newest.consumer = s.consumer := rfl
  rw [hsame] at hstep
  simp only [WeakSPSCQueue.popStep]
  cases hpc : s.consumer with
  | idle =>
      rw [hpc] at hstep
      cases hstep
  | called =>
      rw [hpc] at hstep
      obtain ⟨x, hread, hx⟩ := h.readable_latest .consumer .head
      refine ⟨_, _, congrArg (Option.map _) (load_relaxed hread), ?_⟩
      rw [← Option.some.inj hstep, hx]
      rfl
  | headLoaded currentHead =>
      rw [hpc] at hstep
      obtain ⟨x, hread, hx⟩ := h.readable_latest .consumer .tail
      refine ⟨_, _, congrArg (Option.map _) (load_acquire hread), ?_⟩
      have hmessage : (s.memory.history .tail).length - 1 = s.accepted.length := by omega
      rw [← Option.some.inj hstep, hx, hmessage]
      rfl
  | tailLoaded currentHead currentTail =>
      rw [hpc] at hstep
      dsimp only at hstep ⊢
      by_cases hempty : currentHead = currentTail
      · rw [if_pos hempty] at hstep ⊢
        exact ⟨0, _, rfl, Option.some.inj hstep⟩
      · rw [if_neg hempty] at hstep ⊢
        have hbuffer : s.newest.buffer = s.buffer := rfl
        rw [hbuffer] at hstep
        cases hitem : s.buffer[LockFreeSPSCQueue.index capacity currentHead]? with
        | none =>
            rw [hitem] at hstep
            cases hstep
        | some item =>
            rw [hitem] at hstep
            exact ⟨0, _, rfl, Option.some.inj hstep⟩
  | taken item currentHead =>
      rw [hpc] at hstep
      refine ⟨0, _, rfl, ?_⟩
      rw [← Option.some.inj hstep]
      exact (newest_store (s := { s with consumer := .returning (some item)
                                         popped := s.popped ++ [item] })
        s.memory .consumer (currentHead + 1)).2
  | returning result =>
      rw [hpc] at hstep
      exact ⟨0, _, rfl, Option.some.inj hstep⟩

/-- What an event is to one who sees every store and no choice of a message. -/
def erase : WeakQueueEvent T → Option (QueueEvent T)
  | .emplace item => some (.emplace item)
  | .emplaceStep _ => some .emplaceStep
  | .pop => some .pop
  | .popStep _ => some .popStep
  | .learn _ _ => none

/-- A step that looks like one of `LobLockFreeQueue`. -/
def Consistent (capacity : UInt64) (moved : T → T) (s : WeakSPSCQueue T) (e : WeakQueueEvent T)
    (s' : WeakSPSCQueue T) : Prop :=
  Step capacity moved s e s'
    ∧ ∃ e', erase e = some e' ∧ LockFreeSPSCQueue.Step capacity moved s.newest e' s'.newest

/-- A step that sees every store is a step that reads the newest messages. -/
theorem WeakInv.consistent (h : WeakInv capacity s) {e : QueueEvent T} {t : LockFreeSPSCQueue T}
    (hstep : LockFreeSPSCQueue.Step capacity moved s.newest e t) :
    ∃ e' s', Step capacity moved s e' s' ∧ erase e' = some e ∧ s'.newest = t := by
  cases hstep with
  | emplace hidle => exact ⟨_, _, .emplace hidle, rfl, rfl⟩
  | pop hidle => exact ⟨_, _, .pop hidle, rfl, rfl⟩
  | emplaceStep hstep =>
      obtain ⟨message, s', hstep', hnewest⟩ := h.emplaceStep_newest hstep
      exact ⟨.emplaceStep message, s', .emplaceStep hstep', rfl, hnewest⟩
  | popStep hstep =>
      obtain ⟨message, s', hstep', hnewest⟩ := h.popStep_newest hstep
      exact ⟨.popStep message, s', .popStep hstep', rfl, hnewest⟩

/-- **SEQUENTIAL CONSISTENCY** is one of the behaviours: each run of `LobLockFreeQueue` is what
    a run here with the same events looks like, in every state, to one who sees every
    store. -/
theorem consistent_run [Inhabited T] (hcap : LockFreeSPSCQueue.Admitted capacity)
    {es : List (QueueEvent T)} {t : LockFreeSPSCQueue T}
    (hrun : Run (LockFreeSPSCQueue.Step capacity moved) (LockFreeSPSCQueue.new capacity) es t) :
    ∃ es' s, Run (Consistent capacity moved) (new capacity) es' s
      ∧ es'.map erase = es.map some ∧ s.newest = t := by
  refine Run.realizes (I := WeakInv capacity) newest erase ?_ (WeakInv.new capacity) hrun
  intro s e t h hstep
  obtain ⟨e', s', hstep', herase, rfl⟩ := h.consistent hstep
  exact ⟨e', s', ⟨hstep', e, herase, hstep⟩, h.step hcap hstep', herase, rfl⟩

/-- An item is handed over: the `pop` reads the `tail_` that the `emplace` has stored, and
    the next `emplace` the `head_` that the `pop` has stored. -/
theorem consistent_run_handed : ∃ es' s, Run (Consistent 1 id) (new 1) es' s
    ∧ es'.map erase = ([.emplace 7, .emplaceStep, .emplaceStep, .emplaceStep, .emplaceStep, .pop,
        .popStep, .popStep, .popStep, .popStep, .popStep, .emplaceStep, .emplace 8, .emplaceStep,
        .emplaceStep, .emplaceStep] : List (QueueEvent Nat)).map some
    ∧ s.newest = { (LockFreeSPSCQueue.new 1 : LockFreeSPSCQueue Nat) with
        buffer := [8], head := 1, tail := 1, producer := .written 8 1
        accepted := [7], popped := [7], returned := [7], heldAtTailLoad := 1 } :=
  consistent_run (by decide) <|
    .cons (.emplace rfl) <| .cons (.emplaceStep rfl) <| .cons (.emplaceStep rfl) <|
    .cons (.emplaceStep (by rfl)) <| .cons (.emplaceStep (by rfl)) <|
    .cons (.pop rfl) <| .cons (.popStep rfl) <| .cons (.popStep rfl) <|
    .cons (.popStep (by rfl)) <| .cons (.popStep (by rfl)) <| .cons (.popStep (by rfl)) <|
    .cons (.emplaceStep rfl) <| .cons (.emplace rfl) <| .cons (.emplaceStep rfl) <|
    .cons (.emplaceStep rfl) <| .cons (.emplaceStep (by rfl)) (by exact .nil)

end WeakSPSCQueue

end Lob
