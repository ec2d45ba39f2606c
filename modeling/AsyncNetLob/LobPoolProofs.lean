import AsyncNetLob.LobThrowProofs

/-! # The slots of the two pools

    Two questions about `orderPool_` and `levelPool_`.

    Is every slot accounted for?  A slot is free or holds something that
    rests, except that the second throw of `addOrder` skips the deallocation
    of its incoming order: each such call loses one order slot for good, and
    nothing else ever does (`orderSlots_step`).

    Is a slot only used while it is allocated?  No call, and no statement of the
    destructor, touches or frees a slot that holds nothing, and a slot that is
    handed out cannot be reached from the book. -/

namespace Lob

open StateExcept SortedMap LinkedSegment MachineRun

/-! ## Counting slots -/

/-- Every slot is free or holds what rests. -/
structure Conserved (maxOrders maxLevels : Nat) (s : OrderBook) : Prop where
  orders  : s.orderPool.available + s.activeOrdersCount = maxOrders
  levels  : s.levelPool.available + (s.levelsCount .buy + s.levelsCount .sell) = maxLevels
  /-- No slot is left only when all slots hold resting orders. -/
  refused : s.orderPool.freeList = [] → s.activeOrdersCount = maxOrders

/-- The call takes an order slot and then needs a level that it cannot have. -/
def OrderBook.LosesSlot (s : OrderBook) (c : Call) : Prop :=
  ∃ id side price qty, c.op = .addOrder id side price qty .limit ∧ qty > 0
    ∧ s.orderMap.lookup id = none ∧ s.orderPool.freeList ≠ [] ∧ s.NoLevelFor side price

section Counting

variable {s : OrderBook} {q : LevelPtr → List OrderPtr} {a : Ladder}

/-- The number of level slots never changes. -/
theorem levelSlots_step (c : Call) (a : Ladder) :
    (Ladder.step c a).2.levelSlots = a.levelSlots := by
  obtain ⟨op, now⟩ := c
  cases op with
  | cancelOrder id =>
      show (Ladder.cancelOrder id a).2.levelSlots = a.levelSlots
      rw [Ladder.cancelOrder]
      split <;> rfl
  | addOrder id side price qty type =>
      show (Ladder.addOrder now id side price qty type a).2.levelSlots = a.levelSlots
      have hcase := addOrder_cases now id side price qty type a
      generalize Ladder.addOrder now id side price qty type a = v at hcase ⊢
      obtain ⟨out, b⟩ := v
      cases hcase <;> rfl

/-- **THE ORDER SLOTS**: a call keeps them, or it is the losing one and there is
    one less. -/
theorem orderSlots_step (h : Rep s q a) (hwf : a.WF) (c : Call) :
    (¬ s.LosesSlot c ∧ (Ladder.step c a).2.orderSlots = a.orderSlots)
      ∨ (s.LosesSlot c ∧ (Ladder.step c a).2.orderSlots + 1 = a.orderSlots) := by
  obtain ⟨op, now⟩ := c
  cases op with
  | cancelOrder id =>
      left
      constructor
      · rintro ⟨id, side, price, qty, hop, -⟩
        cases hop
      · show (Ladder.cancelOrder id a).2.orderSlots = a.orderSlots
        rw [Ladder.cancelOrder]
        split <;> rfl
  | addOrder id side price qty type =>
      have hloses : s.LosesSlot ⟨.addOrder id side price qty type, now⟩
          ↔ s.Throws id side price qty type ∧ s.orderPool.freeList ≠ [] := by
        constructor
        · rintro ⟨id, side, price, qty, hop, hqty, hid, hfree, hlevel⟩
          cases hop
          exact ⟨⟨hqty, hid, Or.inr ⟨rfl, hlevel⟩⟩, hfree⟩
        · rintro ⟨⟨hqty, hid, hwhy⟩, hfree⟩
          obtain ⟨rfl, hlevel⟩ := hwhy.resolve_left hfree
          exact ⟨id, side, price, qty, rfl, hqty, hid, hfree, hlevel⟩
      -- the ladder's outcome tells whether the call threw
      have hout := (h.addOrder now id side price qty type).1
      have hthrew : (∃ f, (Ladder.addOrder now id side price qty type a).1 = .threw f)
          ↔ s.Throws id side price qty type := by
        constructor
        · rintro ⟨f, hf⟩
          by_contra hno
          obtain ⟨es, s', hrun⟩ := h.addOrder_returns hwf now hno
          rw [hrun] at hout
          cases hout.trans hf
        · intro hthrows
          obtain ⟨s', hrun, -⟩ := h.addOrder_throws hwf now hthrows
          rw [hrun] at hout
          exact ⟨_, hout.symm⟩
      have hfree := h.orderPool_empty_iff
      rw [hloses, ← hthrew]
      show (_ ∧ (Ladder.addOrder now id side price qty type a).2.orderSlots = a.orderSlots)
        ∨ (_ ∧ (Ladder.addOrder now id side price qty type a).2.orderSlots + 1
          = a.orderSlots)
      have hcase := addOrder_cases now id side price qty type a
      generalize Ladder.addOrder now id side price qty type a = v at hcase ⊢
      obtain ⟨out, b⟩ := v
      have hreturned : ∀ {es}, ¬ ((∃ f, Outcome.events es = .threw f)
          ∧ s.orderPool.freeList ≠ []) := by
        rintro es ⟨⟨f, hf⟩, -⟩
        cases hf
      cases hcase with
      | rejected => exact Or.inl ⟨hreturned, rfl⟩
      | refused _ _ hfull => exact Or.inl ⟨fun hlost => hlost.2 (hfree.mpr hfull), rfl⟩
      | leaked _ _ hroom =>
          refine Or.inr ⟨⟨⟨_, rfl⟩, fun hnil => ?_⟩, ?_⟩
          · exact absurd (hfree.mp hnil) (Nat.not_le_of_lt hroom)
          · show a.orderSlots - 1 + 1 = a.orderSlots
            omega
      | rested _ _ hroom =>
          refine Or.inl ⟨hreturned, ?_⟩
          show a.orderSlots - 1 + 1 = a.orderSlots
          omega
      | finished _ _ hroom =>
          refine Or.inl ⟨hreturned, ?_⟩
          show a.orderSlots - 1 + 1 = a.orderSlots
          omega

/-- Slots are conserved as long as the ladder has all of them. -/
theorem Rep.conserved_iff (h : Rep s q a) {maxOrders maxLevels : Nat}
    (hlevels : a.levelSlots = maxLevels) :
    Conserved maxOrders maxLevels s ↔ a.orderSlots = maxOrders := by
  have horders := h.orderSlots
  have hknown := h.known
  have hslots := h.levelSlots
  have hcount : ∀ side, s.levelsCount side = (a.rungs side).length := by
    intro side
    rw [← h.view, List.length_map]
    rfl
  constructor
  · intro hc
    have := hc.orders
    omega
  · intro heq
    refine ⟨by omega, ?_, fun hnil => ?_⟩
    · rw [hcount, hcount]
      exact hslots.trans hlevels
    · have hzero : s.orderPool.available = 0 := by
        rw [ObjectPool.available, hnil]
        rfl
      omega

end Counting

theorem Ladder.reached_snoc (maxOrders maxLevels : Nat) (calls : List Call) (c : Call) :
    Ladder.reached maxOrders maxLevels (calls ++ [c])
      = (Ladder.step c (Ladder.reached maxOrders maxLevels calls)).2 :=
  run_append_snd calls [c] _

theorem reached_levelSlots (maxOrders maxLevels : Nat) (calls : List Call) :
    (Ladder.reached maxOrders maxLevels calls).levelSlots = maxLevels :=
  run_invariant (I := fun a => a.levelSlots = maxLevels)
    (fun c a h => (levelSlots_step c a).trans h) calls rfl

/-- One more call keeps the order slots, or loses one. -/
theorem reached_orderSlots_snoc (maxOrders maxLevels : Nat) (calls : List Call) (c : Call) :
    (¬ (OrderBook.reached maxOrders maxLevels calls).LosesSlot c
        ∧ (Ladder.reached maxOrders maxLevels (calls ++ [c])).orderSlots
          = (Ladder.reached maxOrders maxLevels calls).orderSlots)
      ∨ ((OrderBook.reached maxOrders maxLevels calls).LosesSlot c
        ∧ (Ladder.reached maxOrders maxLevels (calls ++ [c])).orderSlots + 1
          = (Ladder.reached maxOrders maxLevels calls).orderSlots) := by
  obtain ⟨q, hrep⟩ := Rep.reached maxOrders maxLevels calls
  rw [Ladder.reached_snoc]
  exact orderSlots_step hrep (Ladder.WF.reached maxOrders maxLevels calls) c

/-- **SLOTS ARE CONSERVED** in every state of a run exactly if none of its calls
    is the losing one. -/
theorem reached_conserved (maxOrders maxLevels : Nat) (calls : List Call) :
    (∀ pre, pre <+: calls →
        Conserved maxOrders maxLevels (OrderBook.reached maxOrders maxLevels pre))
      ↔ ∀ pre c, pre ++ [c] <+: calls →
        ¬ (OrderBook.reached maxOrders maxLevels pre).LosesSlot c := by
  have hall : ∀ pre, Conserved maxOrders maxLevels (OrderBook.reached maxOrders maxLevels pre)
      ↔ (Ladder.reached maxOrders maxLevels pre).orderSlots = maxOrders := by
    intro pre
    obtain ⟨q, hrep⟩ := Rep.reached maxOrders maxLevels pre
    exact hrep.conserved_iff (reached_levelSlots maxOrders maxLevels pre)
  have hstep := reached_orderSlots_snoc maxOrders maxLevels
  constructor
  · intro hc pre c hpre hloses
    have h1 := (hall pre).mp (hc pre ((List.prefix_append pre [c]).trans hpre))
    have h2 := (hall (pre ++ [c])).mp (hc (pre ++ [c]) hpre)
    rcases hstep pre c with ⟨hno, -⟩ | ⟨-, hslots⟩
    · exact hno hloses
    · omega
  · intro hno pre
    induction pre using List.reverseRecOn with
    | nil =>
        intro _
        exact (hall []).mpr rfl
    | append_singleton pre c ih =>
        intro hpre
        have h1 := (hall pre).mp (ih ((List.prefix_append pre [c]).trans hpre))
        rcases hstep pre c with ⟨-, hslots⟩ | ⟨hloses, -⟩
        · exact (hall (pre ++ [c])).mpr (hslots.trans h1)
        · exact absurd hloses (hno pre c hpre)

/-! ### A book that loses a slot

    `stairCalls n` are `n` BUY LIMIT orders at the prices 0, 1, …, each better
    than the one before.  Once all level slots are taken, the next one is
    the losing call. -/

def stairCall (n : Nat) : Call :=
  ⟨.addOrder (UInt64.ofNat n) .buy (UInt64.ofNat n) 1 .limit, fun _ => 0⟩

def stairCalls (n : Nat) : List Call := (List.range n).map stairCall

/-- The bids after `n` of these calls. -/
def stairs : Nat → List Rung
  | 0 => []
  | n + 1 => ⟨UInt64.ofNat n, 1, [⟨UInt64.ofNat n, 1, 1⟩]⟩ :: stairs n

/-- The ladder after `n` of these calls. -/
def stairLadder (maxOrders maxLevels n : Nat) : Ladder :=
  (Ladder.empty maxOrders maxLevels).setRungs .buy (stairs n)

theorem mem_stairs {n : Nat} {lv : Rung} (h : lv ∈ stairs n) :
    ∃ m, m < n ∧ lv = ⟨UInt64.ofNat m, 1, [⟨UInt64.ofNat m, 1, 1⟩]⟩ := by
  induction n with
  | zero => cases h
  | succ n ih =>
      rcases List.mem_cons.mp h with rfl | h
      · exact ⟨n, Nat.lt_succ_self n, rfl⟩
      · obtain ⟨m, hm, hlv⟩ := ih h
        exact ⟨m, Nat.lt_succ_of_lt hm, hlv⟩

@[simp] theorem stairs_length (n : Nat) : (stairs n).length = n := by
  induction n with
  | zero => rfl
  | succ n ih => rw [stairs, List.length_cons, ih]

@[simp] theorem ordersIn_stairs (n : Nat) : ordersIn (stairs n) = n := by
  induction n with
  | zero => rfl
  | succ n ih =>
      rw [stairs, ordersIn_cons, ih]
      exact Nat.add_comm 1 n

section Stairs

variable {maxOrders maxLevels n : Nat}

theorem stair_lt {m n : Nat} (h : m < n) (hn : n < 2 ^ 64) :
    UInt64.ofNat m < UInt64.ofNat n := by
  rw [UInt64.lt_iff_toNat_lt, UInt64.toNat_ofNat_of_lt' (Nat.lt_trans h hn),
    UInt64.toNat_ofNat_of_lt' hn]
  exact h

/-- The next order is new. -/
theorem stair_not_rests (hn : n < 2 ^ 64) :
    ¬ (stairLadder maxOrders maxLevels n).Rests (UInt64.ofNat n) := by
  rintro ⟨side, r, hr, hid⟩
  cases side with
  | sell => cases hr
  | buy =>
      obtain ⟨lv, hlv, hmem⟩ := List.mem_flatMap.mp hr
      obtain ⟨m, hm, rfl⟩ := mem_stairs hlv
      rw [List.mem_singleton.mp hmem] at hid
      exact UInt64.ne_of_lt (stair_lt hm hn) hid

/-- Its level is new. -/
theorem stair_not_hasLevel (hn : n < 2 ^ 64) :
    ¬ (stairLadder maxOrders maxLevels n).HasLevel .buy (UInt64.ofNat n) := by
  rintro ⟨lv, hlv, hprice⟩
  obtain ⟨m, hm, rfl⟩ := mem_stairs hlv
  exact UInt64.ne_of_lt (stair_lt hm hn) hprice

/-- It goes to the front of the bids. -/
theorem stair_insert (hn : n < 2 ^ 64) :
    insertOrder .buy (UInt64.ofNat n) ⟨UInt64.ofNat n, 1, 1⟩ (stairs n) = stairs (n + 1) := by
  refine insertOrder_open (A := []) _ (by simp) ?_
  intro lv hlv
  obtain ⟨m, hm, rfl⟩ := mem_stairs hlv
  exact stair_lt hm hn

/-- One step up, as long as there are slots. -/
theorem stair_step (horders : n < maxOrders) (hn : n < 2 ^ 64) :
    (Ladder.step (stairCall n) (stairLadder maxOrders maxLevels n)).2
      = if n < maxLevels then stairLadder maxOrders maxLevels (n + 1)
        else { stairLadder maxOrders maxLevels n with orderSlots := maxOrders - 1 } := by
  have hafter : (stairLadder maxOrders maxLevels n).afterSweep .buy
      ((stairLadder maxOrders maxLevels n).swept (fun _ => 0) (UInt64.ofNat n) .buy
        (UInt64.ofNat n) 1 .limit)
      = { stairLadder maxOrders maxLevels n with orderSlots := maxOrders - 1 } :=
    Ladder.afterSweep_idle _ .buy 1
  have hcount : (stairLadder maxOrders maxLevels n).levelCount = n := by
    show (stairs n).length + 0 = n
    rw [stairs_length, Nat.add_zero]
  have hcase := addOrder_cases (fun _ => 0) (UInt64.ofNat n) .buy (UInt64.ofNat n) 1 .limit
    (stairLadder maxOrders maxLevels n)
  show (Ladder.addOrder (fun _ => 0) (UInt64.ofNat n) .buy (UInt64.ofNat n) 1 .limit
    (stairLadder maxOrders maxLevels n)).2 = _
  generalize Ladder.addOrder (fun _ => 0) (UInt64.ofNat n) .buy (UInt64.ofNat n) 1 .limit
    (stairLadder maxOrders maxLevels n) = v at hcase ⊢
  obtain ⟨out, b⟩ := v
  cases hcase with
  | rejected hbad =>
      rcases hbad with h | h
      · exact absurd h (by decide)
      · exact absurd h (stair_not_rests hn)
  | refused _ _ hfull =>
      have hfull' : maxOrders ≤ ordersIn (stairs n) + 0 := hfull
      rw [ordersIn_stairs] at hfull'
      omega
  | finished _ _ _ hdone =>
      rcases hdone with h | h
      · have h' : (1 : Quantity) = 0 := h
        exact absurd h' (by decide)
      · exact absurd rfl h
  | leaked _ _ _ _ _ _ hfull =>
      rw [hafter] at hfull
      have hno : ¬ n < maxLevels := Nat.not_lt_of_le (hcount ▸ hfull)
      rw [if_neg hno]
      exact hafter
  | rested _ _ _ _ _ hlevel =>
      rw [hafter] at hlevel
      have hlt : n < maxLevels := by
        rcases hlevel with h | h
        · have hno : ¬ (stairLadder maxOrders maxLevels n).HasLevel .buy (UInt64.ofNat n) :=
            stair_not_hasLevel hn
          exact absurd h hno
        · exact hcount ▸ h
      rw [if_pos hlt]
      show Ladder.giveBack (Ladder.setRungs (Ladder.afterSweep _ .buy (Ladder.swept _ _ _
        .buy _ 1 .limit)) .buy (insertOrder .buy (UInt64.ofNat n) ⟨UInt64.ofNat n, 1, 1⟩
          (stairs n))) = _
      rw [hafter, stair_insert hn, Ladder.giveBack, stairLadder, stairLadder]
      simp only [Ladder.setRungs, Function.update_idem]
      show Ladder.mk _ (maxOrders - 1 + 1) _ _ _ = Ladder.mk _ maxOrders _ _ _
      rw [Nat.sub_add_cancel (by omega)]

/-- The ladder after `n` calls. -/
theorem stair_reached (horders : n ≤ maxOrders) (hlevels : n ≤ maxLevels)
    (hn : n ≤ 2 ^ 64) :
    Ladder.reached maxOrders maxLevels (stairCalls n) = stairLadder maxOrders maxLevels n := by
  induction n with
  | zero =>
      show Ladder.empty maxOrders maxLevels = _
      rw [stairLadder, Ladder.setRungs, stairs]
      have hrungs : Function.update (Ladder.empty maxOrders maxLevels).rungs .buy []
          = (Ladder.empty maxOrders maxLevels).rungs := Function.update_eq_self _ _
      rw [hrungs]
  | succ n ih =>
      have hcalls : stairCalls (n + 1) = stairCalls n ++ [stairCall n] := by
        rw [stairCalls, List.range_succ, List.map_append]
        rfl
      rw [hcalls, Ladder.reached_snoc, ih (by omega) (by omega) (by omega),
        stair_step (by omega) (by omega), if_pos (by omega)]

/-- When the level slots are used up, one more call loses an order slot. -/
theorem stair_lost (horders : maxLevels < maxOrders) (hn : maxLevels < 2 ^ 64) :
    (OrderBook.reached maxOrders maxLevels (stairCalls (maxLevels + 1))).orderPool.available
      + (OrderBook.reached maxOrders maxLevels (stairCalls (maxLevels + 1))).activeOrdersCount
      = maxOrders - 1 := by
  obtain ⟨q, hrep⟩ := Rep.reached maxOrders maxLevels (stairCalls (maxLevels + 1))
  have hcalls : stairCalls (maxLevels + 1)
      = stairCalls maxLevels ++ [stairCall maxLevels] := by
    rw [stairCalls, List.range_succ, List.map_append]
    rfl
  have hslots : (Ladder.reached maxOrders maxLevels (stairCalls (maxLevels + 1))).orderSlots
      = maxOrders - 1 := by
    rw [hcalls, Ladder.reached_snoc, stair_reached (by omega) (Nat.le_refl _) (by omega),
      stair_step horders hn, if_neg (Nat.lt_irrefl maxLevels)]
  have h1 := hrep.orderSlots
  have h2 := hrep.known
  omega

end Stairs

/-- With the default capacities: 10000 bids at distinct prices and one more
    leave 99999 order slots that are free or used. -/
theorem default_slot_lost : ¬ Conserved defaultMaxOrders defaultMaxLevels
    (OrderBook.reached defaultMaxOrders defaultMaxLevels
      (stairCalls (defaultMaxLevels + 1))) := by
  intro hc
  have h1 := hc.orders
  have hlost : defaultMaxLevels < defaultMaxOrders := by decide
  have h2 := stair_lost hlost (by decide)
  rw [h1] at h2
  exact absurd h2 (by decide)

end Lob
