import AsyncNetLob.TransitionProofs

/-! # `LockFreeSPSCQueue`

    `LockFreeQueue.hpp`, with one producer that calls `emplace` and one consumer that
    calls `pop`.  A step is one load, one access to the buffer or one store; what is
    decided between them belongs to the step that follows.  Memory is sequentially
    consistent: a step sees the stores of all steps before it.

    `size_t` has 64 bits, so the counters wrap.  `moved` is what `std::move` leaves in
    a slot, which the language does not specify.  An access outside the buffer is
    undefined, so there is no next state.

    `accepted`, `popped`, `returned` and the numbers of items held at the last loads
    are history; no code reads them. -/

namespace Lob

open Transition

/-- Where the producer is in `emplace`, with the local variables it has so far. -/
inductive Producer (T : Type) where
  | idle
  | called (item : T)
  | tailLoaded (item : T) (currentTail : UInt64)
  | headLoaded (item : T) (currentTail currentHead : UInt64)
  | written (item : T) (currentTail : UInt64)
  | returning (item : T) (result : Bool)
  deriving DecidableEq, Repr

/-- Where the consumer is in `pop`. -/
inductive Consumer (T : Type) where
  | idle
  | called
  | headLoaded (currentHead : UInt64)
  | tailLoaded (currentHead currentTail : UInt64)
  | taken (item : T) (currentHead : UInt64)
  | returning (result : Option T)
  deriving DecidableEq, Repr

structure LockFreeSPSCQueue (T : Type) where
  buffer   : List T
  head     : UInt64
  tail     : UInt64
  producer : Producer T
  consumer : Consumer T
  -- history
  accepted       : List T
  popped         : List T
  returned       : List T
  heldAtHeadLoad : Nat
  heldAtTailLoad : Nat
  deriving DecidableEq

namespace LockFreeSPSCQueue

variable {T : Type}

/-- `LockFreeSPSCQueue::LockFreeSPSCQueue`, with `T()` in every slot. -/
def new [Inhabited T] (capacity : UInt64) : LockFreeSPSCQueue T where
  buffer := List.replicate capacity.toNat default
  head := 0
  tail := 0
  producer := .idle
  consumer := .idle
  accepted := []
  popped := []
  returned := []
  heldAtHeadLoad := 0
  heldAtTailLoad := 0

/-- The `static_assert`. -/
def Admitted (capacity : UInt64) : Prop := capacity &&& (capacity - 1) = 0

instance (capacity : UInt64) : Decidable (Admitted capacity) :=
  inferInstanceAs (Decidable (_ = _))

/-- `MASK_`. -/
def mask (capacity : UInt64) : UInt64 := capacity - 1

/-- The index of a counter in the buffer. -/
def index (capacity counter : UInt64) : Nat := (counter &&& mask capacity).toNat

variable (capacity : UInt64) (moved : T → T) (s : LockFreeSPSCQueue T)

/-- The number of items in the queue: accepted and not popped. -/
def held : Nat := s.accepted.length - s.popped.length

/-- The next step of `emplace`. -/
def emplaceStep : Option (LockFreeSPSCQueue T) :=
  match s.producer with
  | .idle => none
  | .called item => some { s with producer := .tailLoaded item s.tail }
  | .tailLoaded item currentTail =>
      some { s with producer := .headLoaded item currentTail s.head, heldAtHeadLoad := s.held }
  | .headLoaded item currentTail currentHead =>
      if currentTail - currentHead ≥ capacity then
        some { s with producer := .returning item false }
      else if index capacity currentTail < s.buffer.length then
        some { s with buffer := s.buffer.set (index capacity currentTail) item
                      producer := .written item currentTail }
      else none
  | .written item currentTail =>
      some { s with tail := currentTail + 1, producer := .returning item true
                    accepted := s.accepted ++ [item] }
  | .returning _ _ => some { s with producer := .idle }

/-- The next step of `pop`. -/
def popStep : Option (LockFreeSPSCQueue T) :=
  match s.consumer with
  | .idle => none
  | .called => some { s with consumer := .headLoaded s.head }
  | .headLoaded currentHead =>
      some { s with consumer := .tailLoaded currentHead s.tail, heldAtTailLoad := s.held }
  | .tailLoaded currentHead currentTail =>
      if currentHead = currentTail then some { s with consumer := .returning none }
      else
        match s.buffer[index capacity currentHead]? with
        | none => none
        | some item =>
            some { s with buffer := s.buffer.set (index capacity currentHead) (moved item)
                          consumer := .taken item currentHead }
  | .taken item currentHead =>
      some { s with head := currentHead + 1, consumer := .returning (some item)
                    popped := s.popped ++ [item] }
  | .returning result =>
      some { s with consumer := .idle, returned := s.returned ++ result.toList }

/-- `LockFreeSPSCQueue::size`, between two steps. -/
def size : UInt64 := if s.tail ≥ s.head then s.tail - s.head else 0

/-- `LockFreeSPSCQueue::empty`. -/
def empty : Bool := s.size == 0

/-- Steps of `pop` until it returns. -/
def popAnswer : Nat → LockFreeSPSCQueue T → Option (Option T)
  | 0, _ => none
  | fuel + 1, s =>
      match s.consumer with
      | .returning result => some result
      | _ => (s.popStep capacity moved).bind (popAnswer fuel)

/-- The answer of the next `pop`, which returns after four steps at most: `some none`
    is false. -/
def nextPop : Option (Option T) := popAnswer capacity moved 5 { s with consumer := .called }

end LockFreeSPSCQueue

/-- What can happen next: a call, or a step of the side that is in one. -/
inductive QueueEvent (T : Type) where
  | emplace (item : T)
  | emplaceStep
  | pop
  | popStep
  deriving DecidableEq

namespace LockFreeSPSCQueue

inductive Step {T : Type} (capacity : UInt64) (moved : T → T) :
    LockFreeSPSCQueue T → QueueEvent T → LockFreeSPSCQueue T → Prop where
  | emplace {s : LockFreeSPSCQueue T} {item : T} (hidle : s.producer = .idle) :
      Step capacity moved s (.emplace item) { s with producer := .called item }
  | emplaceStep {s s' : LockFreeSPSCQueue T} (hstep : s.emplaceStep capacity = some s') :
      Step capacity moved s .emplaceStep s'
  | pop {s : LockFreeSPSCQueue T} (hidle : s.consumer = .idle) :
      Step capacity moved s .pop { s with consumer := .called }
  | popStep {s s' : LockFreeSPSCQueue T} (hstep : s.popStep capacity moved = some s') :
      Step capacity moved s .popStep s'

end LockFreeSPSCQueue

end Lob
