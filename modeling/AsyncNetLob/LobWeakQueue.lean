import AsyncNetLob.LobLockFreeQueue
import AsyncNetLob.ReleaseAcquireProofs

/-! # `LockFreeSPSCQueue` with its memory orders

    The queue of `LobLockFreeQueue` again, on a memory where the two sides do not see
    each other's stores at once.  `head_` and `tail_` are atomic locations, the slots of
    `buffer_` are plain cells; each load and each store has the order that the source
    gives it.  The event of a load says which message it reads, of those it may read.

    `buffer` holds what was written last to each slot, which is what a read finds if it
    is no race.  The items held at the last loads are counted from the message that was
    read; what a side knew of the other before that load is history too. -/

namespace Lob

open Transition ReleaseAcquire

/-- The two threads. -/
inductive Party where
  | producer
  | consumer
  deriving DecidableEq, Repr

/-- `head_` and `tail_`. -/
inductive Counter where
  | head
  | tail
  deriving DecidableEq, Repr

/-- Who stores a counter. -/
def Counter.owner : Counter → Party
  | .head => .consumer
  | .tail => .producer

structure WeakSPSCQueue (T : Type) where
  buffer   : List T
  memory   : Memory Party Counter Nat UInt64
  producer : Producer T
  consumer : Consumer T
  -- history
  accepted        : List T
  popped          : List T
  returned        : List T
  heldAtHeadLoad  : Nat
  heldAtTailLoad  : Nat
  knownAtHeadLoad : Nat
  knownAtTailLoad : Nat

inductive WeakQueueEvent (T : Type) where
  | emplace (item : T)
  | emplaceStep (message : Nat)
  | pop
  | popStep (message : Nat)
  /-- A side learns what the other one knows, by means that are not part of the queue. -/
  | learn (who : Party) (other : Party)
  deriving DecidableEq

namespace WeakSPSCQueue

variable {T : Type}

def new [Inhabited T] (capacity : UInt64) : WeakSPSCQueue T where
  buffer := List.replicate capacity.toNat default
  memory := Memory.start (fun _ => 0) .producer
  producer := .idle
  consumer := .idle
  accepted := []
  popped := []
  returned := []
  heldAtHeadLoad := 0
  heldAtTailLoad := 0
  knownAtHeadLoad := 0
  knownAtTailLoad := 0

variable (capacity : UInt64) (moved : T → T) (message : Nat) (s : WeakSPSCQueue T)

/-- The next step of `emplace`; a load reads this message. -/
def emplaceStep : Option (WeakSPSCQueue T) :=
  match s.producer with
  | .idle => none
  | .called item =>
      (s.memory.loadRelaxed .producer .tail message).map fun x =>
        { s with memory := x.2, producer := .tailLoaded item x.1 }
  | .tailLoaded item currentTail =>
      (s.memory.loadAcquire .producer .head message).map fun x =>
        { s with memory := x.2, producer := .headLoaded item currentTail x.1
                 heldAtHeadLoad := s.accepted.length - message
                 knownAtHeadLoad := (s.memory.view .producer).2 .head }
  | .headLoaded item currentTail currentHead =>
      if currentTail - currentHead ≥ capacity then
        some { s with producer := .returning item false }
      else if LockFreeSPSCQueue.index capacity currentTail < s.buffer.length then
        some { s with
          buffer := s.buffer.set (LockFreeSPSCQueue.index capacity currentTail) item
          memory := s.memory.touch .producer (LockFreeSPSCQueue.index capacity currentTail)
          producer := .written item currentTail }
      else none
  | .written item currentTail =>
      some { s with memory := s.memory.storeRelease .producer .tail (currentTail + 1)
                    producer := .returning item true, accepted := s.accepted ++ [item] }
  | .returning _ _ => some { s with producer := .idle }

/-- The next step of `pop`; a load reads this message. -/
def popStep : Option (WeakSPSCQueue T) :=
  match s.consumer with
  | .idle => none
  | .called =>
      (s.memory.loadRelaxed .consumer .head message).map fun x =>
        { s with memory := x.2, consumer := .headLoaded x.1 }
  | .headLoaded currentHead =>
      (s.memory.loadAcquire .consumer .tail message).map fun x =>
        { s with memory := x.2, consumer := .tailLoaded currentHead x.1
                 heldAtTailLoad := message - s.popped.length
                 knownAtTailLoad := (s.memory.view .consumer).2 .tail }
  | .tailLoaded currentHead currentTail =>
      if currentHead = currentTail then some { s with consumer := .returning none }
      else
        match s.buffer[LockFreeSPSCQueue.index capacity currentHead]? with
        | none => none
        | some item =>
            some { s with
              buffer := s.buffer.set (LockFreeSPSCQueue.index capacity currentHead) (moved item)
              memory := s.memory.touch .consumer (LockFreeSPSCQueue.index capacity currentHead)
              consumer := .taken item currentHead }
  | .taken item currentHead =>
      some { s with memory := s.memory.storeRelease .consumer .head (currentHead + 1)
                    consumer := .returning (some item), popped := s.popped ++ [item] }
  | .returning result =>
      some { s with consumer := .idle, returned := s.returned ++ result.toList }

inductive Step (capacity : UInt64) (moved : T → T) :
    WeakSPSCQueue T → WeakQueueEvent T → WeakSPSCQueue T → Prop where
  | emplace {s : WeakSPSCQueue T} {item : T} (hidle : s.producer = .idle) :
      Step capacity moved s (.emplace item) { s with producer := .called item }
  | emplaceStep {s s' : WeakSPSCQueue T} {message : Nat}
      (hstep : s.emplaceStep capacity message = some s') :
      Step capacity moved s (.emplaceStep message) s'
  | pop {s : WeakSPSCQueue T} (hidle : s.consumer = .idle) :
      Step capacity moved s .pop { s with consumer := .called }
  | popStep {s s' : WeakSPSCQueue T} {message : Nat}
      (hstep : s.popStep capacity moved message = some s') :
      Step capacity moved s (.popStep message) s'
  | learn {s : WeakSPSCQueue T} {who other : Party} :
      Step capacity moved s (.learn who other) { s with memory := s.memory.learn who other }

/-- The newest value of a counter. -/
def latest (c : Counter) : UInt64 := ((s.memory.history c).getLast?.map Prod.fst).getD 0

/-- What the queue looks like to one who sees every store. -/
def newest : LockFreeSPSCQueue T where
  buffer := s.buffer
  head := s.latest .head
  tail := s.latest .tail
  producer := s.producer
  consumer := s.consumer
  accepted := s.accepted
  popped := s.popped
  returned := s.returned
  heldAtHeadLoad := s.heldAtHeadLoad
  heldAtTailLoad := s.heldAtTailLoad

end WeakSPSCQueue

end Lob
