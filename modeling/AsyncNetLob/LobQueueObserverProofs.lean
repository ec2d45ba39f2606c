import AsyncNetLob.LobLockFreeQueueProofs

/-! # What `size` and `empty` see

    `emplace` takes the difference of the two counters and `pop` asks whether they are
    equal; both are right after a counter has wrapped.  `size` compares the counters
    first, and answers 0 if `tail_` is the smaller number.

    Between complete calls the observers agree with the queue exactly as long as both
    counters have wrapped equally often (`observers_agree`).  Once `tail_` alone has
    wrapped, a queue that holds an item looks empty (`observers_disagree`). -/

namespace Lob

open Transition WrappingCounter

namespace LockFreeSPSCQueue

variable {T : Type} {capacity : UInt64} {moved : T → T} {s s' : LockFreeSPSCQueue T}

/-! ## Whole calls -/

/-- **A WHOLE `emplace`** that finds room accepts its item. -/
theorem Inv.emplaceCall (hcap : Admitted capacity) (h : Inv capacity s)
    (hidle : s.producer = .idle) (hroom : s.accepted.length < s.popped.length + capacity.toNat)
    (moved : T → T) (item : T) :
    ∃ es s', Run (Step capacity moved) s es s' ∧ s'.producer = .idle ∧ s'.consumer = s.consumer
      ∧ s'.accepted = s.accepted ++ [item] ∧ s'.returned = s.returned := by
  have hroom' : ¬ UInt64.ofNat s.accepted.length - UInt64.ofNat s.popped.length ≥ capacity := by
    rw [full_iff h.le h.bounded]
    have hle := h.le
    omega
  have hpos := capacity_ne_zero hroom'
  have hnotfull : ¬ s.tail - s.head ≥ capacity := by
    rw [h.tail, h.head]
    exact hroom'
  have hindex : index capacity s.tail < s.buffer.length := by
    rw [h.tail, index_ofNat hcap hpos, h.buffer]
    exact Nat.mod_lt _ (slots_pos hpos)
  have hwrite : LockFreeSPSCQueue.emplaceStep capacity
      { s with producer := .headLoaded item s.tail s.head, heldAtHeadLoad := s.held }
      = some { s with buffer := s.buffer.set (index capacity s.tail) item
                      producer := .written item s.tail, heldAtHeadLoad := s.held } := by
    show (if s.tail - s.head ≥ capacity then _ else
      if index capacity s.tail < s.buffer.length then _ else none) = _
    rw [if_neg hnotfull, if_pos hindex]
  exact ⟨_, _, .cons (.emplace hidle) <| .cons (.emplaceStep rfl) <| .cons (.emplaceStep rfl) <|
    .cons (.emplaceStep hwrite) <| .cons (.emplaceStep rfl) <| .cons (.emplaceStep rfl) .nil,
    rfl, rfl, rfl, rfl⟩

/-- The first item held is where `head_` points. -/
theorem Inv.first_stored (hcap : Admitted capacity) (h : Inv capacity s)
    (hidle : s.consumer.hasTaken = false) (hheld : s.popped.length < s.accepted.length) :
    s.head ≠ s.tail
      ∧ s.buffer[index capacity s.head]? = some s.accepted[s.popped.length] := by
  constructor
  · rw [h.head, h.tail]
    intro hsame
    have hcount := (ofNat_inj h.le (lt_of_le_add h.bounded)).mp hsame
    omega
  · have hstored := h.stored_all hidle _ (Nat.le_refl _) hheld
    rw [← index_ofNat hcap (h.has_slots hheld), ← h.head] at hstored
    exact hstored.trans (List.getElem?_eq_getElem hheld)

/-- **A WHOLE `pop`** of a queue that holds an item returns one. -/
theorem Inv.popCall (hcap : Admitted capacity) (h : Inv capacity s) (hidle : s.consumer = .idle)
    (hheld : s.popped.length < s.accepted.length) (moved : T → T) :
    ∃ item es s', Run (Step capacity moved) s es s' ∧ s'.consumer = .idle
      ∧ s'.producer = s.producer ∧ s'.accepted = s.accepted
      ∧ s'.returned = s.returned ++ [item] := by
  obtain ⟨hne, hstored⟩ := h.first_stored hcap (by rw [hidle]; rfl) hheld
  have htake : LockFreeSPSCQueue.popStep capacity moved
      { s with consumer := .tailLoaded s.head s.tail, heldAtTailLoad := s.held }
      = some { s with buffer := s.buffer.set (index capacity s.head) (moved s.accepted[s.popped.length])
                      consumer := .taken s.accepted[s.popped.length] s.head
                      heldAtTailLoad := s.held } := by
    rw [LockFreeSPSCQueue.popStep]
    dsimp only
    rw [if_neg hne, hstored]
  exact ⟨_, _, _, .cons (.pop hidle) <| .cons (.popStep rfl) <| .cons (.popStep rfl) <|
    .cons (.popStep htake) <| .cons (.popStep rfl) <| .cons (.popStep rfl) .nil,
    rfl, rfl, rfl, rfl⟩

/-- The next `pop` decides on the counters as they are. -/
theorem nextPop_eq :
    s.nextPop capacity moved
      = if s.head = s.tail then some none else s.buffer[index capacity s.head]?.map some := by
  have hloaded : s.nextPop capacity moved = popAnswer capacity moved 3
      { s with consumer := .tailLoaded s.head s.tail, heldAtTailLoad := s.held } := rfl
  rw [hloaded, popAnswer, popStep]
  dsimp only
  by_cases hempty : s.head = s.tail
  · rw [if_pos hempty, if_pos hempty]
    rfl
  · rw [if_neg hempty, if_neg hempty]
    cases hitem : s.buffer[index capacity s.head]? with
    | none => rfl
    | some item => rfl

/-! ## The observers -/

/-- `head_` and `tail_` have wrapped equally often. -/
def WrappedEqually (s : LockFreeSPSCQueue T) : Prop :=
  s.accepted.length / 2 ^ 64 = s.returned.length / 2 ^ 64

/-- Between calls nothing is popped that is not returned. -/
theorem Inv.popped_eq (h : Inv capacity s) (hidle : s.consumer = .idle) :
    s.popped = s.returned := by
  have hreturned := h.returned
  rw [hidle] at hreturned
  exact hreturned.trans (List.append_nil _)

theorem Inv.head_le_tail (h : Inv capacity s) (hidle : s.consumer = .idle) :
    s.tail ≥ s.head ↔ s.WrappedEqually := by
  rw [h.tail, h.head, WrappedEqually, ← h.popped_eq hidle]
  exact ofNat_le_iff h.le (lt_of_le_add h.bounded)

/-- The counters are equal when nothing is held. -/
theorem Inv.head_eq_tail (h : Inv capacity s) (hidle : s.consumer = .idle) :
    s.head = s.tail ↔ s.accepted.length - s.returned.length = 0 := by
  rw [h.tail, h.head, ofNat_inj h.le (lt_of_le_add h.bounded), ← h.popped_eq hidle]
  have hle := h.le
  omega

/-- While both counters have wrapped equally often, `size` is the number of items. -/
theorem Inv.size_eq (h : Inv capacity s) (hidle : s.consumer = .idle) (hwrap : s.WrappedEqually) :
    s.size.toNat = s.accepted.length - s.returned.length := by
  rw [size, if_pos ((h.head_le_tail hidle).mpr hwrap), h.tail, h.head,
    toNat_sub_ofNat h.le (lt_of_le_add h.bounded), h.popped_eq hidle]

/-- Once `tail_` has wrapped once more, `size` is 0 and the queue is not empty. -/
theorem Inv.size_wrapped (h : Inv capacity s) (hidle : s.consumer = .idle)
    (hwrap : ¬ s.WrappedEqually) :
    s.size = 0 ∧ s.accepted.length - s.returned.length ≠ 0 := by
  constructor
  · rw [size, if_neg fun hle => hwrap ((h.head_le_tail hidle).mp hle)]
  · intro hzero
    have hle := h.le
    rw [h.popped_eq hidle] at hle
    refine hwrap (congrArg (· / 2 ^ 64) ?_)
    omega

theorem empty_iff : s.empty = true ↔ s.size.toNat = 0 := by
  rw [empty, beq_iff_eq, ← UInt64.toNat_inj]
  rfl

theorem nextPop_false : s.nextPop capacity moved = some none ↔ s.head = s.tail := by
  rw [nextPop_eq]
  constructor
  · intro hnone
    by_contra hne
    rw [if_neg hne] at hnone
    obtain ⟨item, -, hitem⟩ := Option.map_eq_some_iff.mp hnone
    cases hitem
  · intro hempty
    rw [if_pos hempty]

/-- **THE OBSERVERS**: between complete calls, and also while `emplace` is under way,
    `size` is the number of items accepted and not returned, and `empty` says whether the
    next `pop` returns false, exactly as long as both counters have wrapped equally
    often. -/
theorem observers_agree [Inhabited T] (capacity : UInt64) (hcap : Admitted capacity)
    (moved : T → T) (es : List (QueueEvent T)) (s : LockFreeSPSCQueue T)
    (hrun : Run (Step capacity moved) (new capacity) es s) (hconsumer : s.consumer = .idle) :
    (s.size.toNat = s.accepted.length - s.returned.length
      ∧ (s.empty = true ↔ s.nextPop capacity moved = some none)) ↔ s.WrappedEqually := by
  have h := reached_inv hcap hrun
  constructor
  · intro hagree
    by_contra hwrap
    obtain ⟨hsize, hheld⟩ := h.size_wrapped hconsumer hwrap
    rw [hsize] at hagree
    exact hheld hagree.1.symm
  · intro hwrap
    have hsize := h.size_eq hconsumer hwrap
    refine ⟨hsize, ?_⟩
    rw [empty_iff, nextPop_false, h.head_eq_tail hconsumer, hsize]

/-- A queue of one slot with one item. -/
theorem observers_agree_one :
    let s : LockFreeSPSCQueue Nat := { new 1 with buffer := [7], tail := 1, accepted := [7] }
    s.size.toNat = s.accepted.length - s.returned.length
      ∧ (s.empty = true ↔ s.nextPop 1 id = some none) :=
  let start : LockFreeSPSCQueue Nat := new 1
  let one : LockFreeSPSCQueue Nat := { start with buffer := [7], tail := 1, accepted := [7] }
  (observers_agree 1 (by decide) id
    [.emplace 7, .emplaceStep, .emplaceStep, .emplaceStep, .emplaceStep, .emplaceStep] one
    (.cons (.emplace rfl) <|
      .cons (@Step.emplaceStep _ _ _ _ { start with producer := .tailLoaded 7 0 } (by decide)) <|
      .cons (@Step.emplaceStep _ _ _ _ { start with producer := .headLoaded 7 0 0 } (by decide)) <|
      .cons (@Step.emplaceStep _ _ _ _ { start with buffer := [7], producer := .written 7 0 }
        (by decide)) <|
      .cons (@Step.emplaceStep _ _ _ _ { one with producer := .returning 7 true } (by decide)) <|
      .cons (@Step.emplaceStep _ _ _ _ one (by decide)) .nil) rfl).mpr
    (show 1 / 2 ^ 64 = 0 / 2 ^ 64 by decide)

/-! ## Where they do not -/

/-- `n` items go through the queue one by one. -/
theorem run_through [Inhabited T] (hcap : Admitted capacity) (hpos : capacity ≠ 0) (moved : T → T)
    (item : T) (n : Nat) :
    ∃ es, ∃ s : LockFreeSPSCQueue T, Run (Step capacity moved) (new capacity) es s
      ∧ s.producer = .idle ∧ s.consumer = .idle
      ∧ s.accepted.length = n ∧ s.returned.length = n := by
  have hslots := slots_pos hpos
  induction n with
  | zero => exact ⟨[], _, .nil, rfl, rfl, rfl, rfl⟩
  | succ n ih =>
      obtain ⟨es, s, hrun, hproducer, hconsumer, haccepted, hreturned⟩ := ih
      have hinv := reached_inv hcap hrun
      have hpopped := hinv.popped_eq hconsumer
      obtain ⟨es1, s1, hrun1, hproducer1, hconsumer1, haccepted1, hreturned1⟩ :=
        hinv.emplaceCall hcap hproducer (by rw [hpopped]; omega) moved item
      have hinv1 := reached_inv hcap (hrun.append hrun1)
      have hidle1 := hconsumer1.trans hconsumer
      have hheld1 : s1.popped.length < s1.accepted.length := by
        rw [hinv1.popped_eq hidle1, haccepted1, hreturned1, List.length_append, hreturned, haccepted]
        exact Nat.lt_succ_self n
      obtain ⟨item, es2, s2, hrun2, hconsumer2, hproducer2, haccepted2, hreturned2⟩ :=
        hinv1.popCall hcap hidle1 hheld1 moved
      refine ⟨_, s2, (hrun.append hrun1).append hrun2, hproducer2.trans hproducer1, hconsumer2,
        ?_, ?_⟩
      · rw [haccepted2, haccepted1, List.length_append, haccepted]
        rfl
      · rw [hreturned2, hreturned1, List.length_append, hreturned]
        rfl

/-- **AN ITEM UNSEEN**: 2^64 - 1 items have gone through a queue of one slot and one more
    is in it.  The queue says that it is empty; the next `pop` returns the item. -/
theorem observers_disagree :
    ∃ es, ∃ s : LockFreeSPSCQueue Unit, Run (Step 1 id) (new 1) es s
      ∧ s.producer = .idle ∧ s.consumer = .idle
      ∧ s.accepted.length = 2 ^ 64 ∧ s.returned.length = 2 ^ 64 - 1
      ∧ s.size = 0 ∧ s.empty = true ∧ s.nextPop 1 id = some (some ()) := by
  have hcap : Admitted 1 := by decide
  obtain ⟨es, s, hrun, hproducer, hconsumer, haccepted, hreturned⟩ :=
    run_through hcap (by decide) id () (2 ^ 64 - 1)
  have h := reached_inv hcap hrun
  have hroom : s.accepted.length < s.popped.length + (1 : UInt64).toNat := by
    rw [h.popped_eq hconsumer, haccepted, hreturned]
    decide
  obtain ⟨es', s', hrun', hproducer', hconsumer', haccepted', hreturned'⟩ :=
    h.emplaceCall hcap hproducer hroom id ()
  have hall := hrun.append hrun'
  have h' := reached_inv hcap hall
  have hidle := hconsumer'.trans hconsumer
  have hlen : s'.accepted.length = 2 ^ 64 := by
    rw [haccepted', List.length_append, haccepted]
    rfl
  have hlen' : s'.returned.length = 2 ^ 64 - 1 := by rw [hreturned', hreturned]
  have hwrap : ¬ s'.WrappedEqually := by
    rw [WrappedEqually, hlen, hlen']
    decide
  have hsize := (h'.size_wrapped hidle hwrap).1
  have hheld : s'.popped.length < s'.accepted.length := by
    rw [h'.popped_eq hidle, hlen, hlen']
    decide
  obtain ⟨hne, hstored⟩ := h'.first_stored hcap (by rw [hidle]; rfl) hheld
  refine ⟨_, s', hall, hproducer', hidle, hlen, hlen', hsize, ?_, ?_⟩
  · rw [empty_iff, hsize]
    rfl
  · rw [nextPop_eq, if_neg hne, hstored]
    rfl

end LockFreeSPSCQueue

end Lob
